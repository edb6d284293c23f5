import FeatureTree.Placeholder
import FeatureTree.Proofs.Boundaries
import FeatureTree.Proofs.Limits
import FeatureTree.Proofs.Substitution
import Mathlib.Data.List.TakeWhile

/-!
# Placeholders and columns

What a placeholder is can be asked without a header: a name in angle brackets. What an examples row
replaces is decided by its header. **For columns whose names a placeholder can hold the two agree:**
a row replaces the placeholders that name a column it has a value for, and leaves everything else as
it is.

The two scans are not the same. A placeholder that names no column is one step of the one scan and
many of the other, which looks for tokens inside it; but a token would have to start with the
bracket that the placeholder's name does not hold.

Placeholders have no limit to their size and patterns do. Where the pattern of a header was refused,
its placeholders are still there to be listed, and none of them is replaced.
-/

set_option autoImplicit false

namespace FeatureTree
namespace Placeholder

open Text (scan TokenReader)
open Matcher (token)

/-! ## What is read -/

/-- A name that a placeholder can hold. -/
structure IsName (name : List Char) : Prop where
  ne_nil : name ≠ []
  no_open : '<' ∉ name
  no_close : '>' ∉ name

instance (name : List Char) : Decidable (IsName name) :=
  decidable_of_iff (name ≠ [] ∧ '<' ∉ name ∧ '>' ∉ name)
    ⟨fun h => ⟨h.1, h.2.1, h.2.2⟩, fun h => ⟨h.ne_nil, h.no_open, h.no_close⟩⟩

/-- The placeholder of a name. -/
def source (name : List Char) : List Char :=
  '<' :: (name ++ ['>'])

variable {name other cs rest first : List Char}

theorem isNameChar_iff {c : Char} : isNameChar c = true ↔ c ≠ '<' ∧ c ≠ '>' := by
  simp [isNameChar]

theorem IsName.isNameChar (h : IsName name) : ∀ c ∈ name, isNameChar c = true := by
  intro c hc
  refine isNameChar_iff.mpr ⟨?_, ?_⟩
  · rintro rfl
    exact h.no_open hc
  · rintro rfl
    exact h.no_close hc

theorem isName_of_isNameChar (hne : name ≠ []) (h : ∀ c ∈ name, isNameChar c = true) :
    IsName name where
  ne_nil := hne
  no_open hc := (isNameChar_iff.mp (h _ hc)).1 rfl
  no_close hc := (isNameChar_iff.mp (h _ hc)).2 rfl

theorem source_append : source name ++ rest = '<' :: (name ++ '>' :: rest) := by
  simp [source]

/-- The reader takes characters up to a bracket. In front of the closing one these are the name. -/
theorem IsName.takeWhile (h : IsName name) :
    (name ++ '>' :: rest).takeWhile Placeholder.isNameChar = name := by
  rw [List.takeWhile_append_of_pos h.isNameChar, List.takeWhile_cons_of_neg (by decide),
    List.append_nil]

theorem IsName.dropWhile (h : IsName name) :
    (name ++ '>' :: rest).dropWhile Placeholder.isNameChar = '>' :: rest := by
  rw [List.dropWhile_append_of_pos h.isNameChar, List.dropWhile_cons_of_neg (by decide)]

/-- A text starts with one placeholder at most. -/
theorem IsName.eq_of_isPrefix (hname : IsName name) (hother : IsName other)
    (h : source name <+: cs) (h' : source other <+: cs) : name = other := by
  obtain ⟨rest, rfl⟩ := h
  obtain ⟨rest', heq⟩ := h'
  rw [source_append, source_append] at heq
  have htake := congrArg (List.takeWhile Placeholder.isNameChar) (List.cons.inj heq).2
  rw [hname.takeWhile, hother.takeWhile] at htake
  exact htake.symm

theorem isName_of_read? {t : Text.Token (List Char) cs} (h : read? cs = some t) :
    IsName t.value ∧ t.source = source t.value := by
  -- The branches of the reader: a bracket opens, a bracket closes, and the name between is not
  -- empty.
  unfold read? at h
  split at h
  · split at h
    · split at h
      · cases h
      · next hne =>
        obtain rfl := Option.some.inj h
        exact ⟨isName_of_isNameChar hne fun c hc => List.mem_takeWhile_imp hc, rfl⟩
    · cases h
  · cases h

/-- Where a bracket opens and one closes, reading fails for one reason: there is nothing between
them. -/
theorem takeWhile_eq_nil_of_read? {text : List Char} (h : read? text = none)
    (htext : text = '<' :: cs) (hdrop : cs.dropWhile isNameChar = '>' :: rest) :
    cs.takeWhile isNameChar = [] := by
  unfold read? at h
  split at h
  · obtain rfl := (List.cons.inj htext).2
    split at h
    · split at h
      · assumption
      · cases h
    · next hother => exact absurd hdrop (hother rest)
  · next hother => exact absurd htext (hother cs)

theorem IsName.read?_ne_none (h : IsName name) : read? (source name ++ rest) ≠ none := by
  intro hnone
  have hnil := takeWhile_eq_nil_of_read? hnone source_append h.dropWhile
  exact h.ne_nil (h.takeWhile.symm.trans hnil)

/-- What the reader finds, said by prefixes. Comparisons with tokens of columns go by this and not
by the reader's steps. -/
theorem piece?_eq_some_iff {piece : Text.Piece (List Char)} :
    TokenReader.piece? read? cs = some piece ↔
      ∃ name, IsName name ∧ source name <+: cs ∧ piece = .token name (source name) := by
  rw [TokenReader.piece?, Option.map_eq_some_iff]
  constructor
  · rintro ⟨t, hread, rfl⟩
    obtain ⟨hname, hsource⟩ := isName_of_read? hread
    exact ⟨t.value, hname, ⟨t.rest, hsource ▸ t.source_append_rest⟩, by rw [hsource]⟩
  · rintro ⟨name, hname, ⟨rest, rfl⟩, rfl⟩
    cases hread : read? (source name ++ rest) with
    | none => exact absurd hread hname.read?_ne_none
    | some t =>
      obtain ⟨hname', hsource⟩ := isName_of_read? hread
      have hsame := hname'.eq_of_isPrefix hname ⟨t.rest, hsource ▸ t.source_append_rest⟩
        (List.prefix_append _ rest)
      exact ⟨t, rfl, by rw [hsource, hsame]⟩

theorem scan_source_append (h : IsName name) :
    scan read? (source name ++ rest) = .token name (source name) :: scan read? rest :=
  Text.scan_of_piece? (piece?_eq_some_iff.mpr ⟨name, h, List.prefix_append _ rest, rfl⟩)

/-- A scan finds nothing but placeholders. -/
theorem isName_of_mem_scan {read : List Char} (h : .token name read ∈ scan read? cs) :
    IsName name ∧ read = source name := by
  obtain ⟨_, t, hread, rfl, rfl⟩ := Text.exists_read?_of_mem_scan h
  exact isName_of_read? hread

/-! ## Placeholders do not overlap -/

/-- A placeholder does not reach over the bracket that opens another. -/
theorem isPrefix_of_isPrefix_append_open (h : IsName name) {back : List Char} (hback : back ≠ [])
    (hstarts : source name <+: back ++ '<' :: rest) : source name <+: back := by
  rcases Text.isPrefix_or_of_isPrefix_append hstarts with hinside | ⟨tail, htail, hsource, hrest⟩
  · exact hinside
  · obtain ⟨d, back, rfl⟩ := List.exists_cons_of_ne_nil hback
    obtain ⟨e, tail, rfl⟩ := List.exists_cons_of_ne_nil htail
    obtain ⟨rfl, -⟩ := List.cons_prefix_cons.mp hrest
    have hmem : '<' ∈ name ++ ['>'] := by
      rw [(List.cons.inj hsource).2]
      simp
    exact absurd hmem (by simp [h.no_open])

/-- A placeholder in a text is found wherever it stands: what is before it cannot swallow its
bracket. -/
theorem scan_append_source (h : IsName name) :
    scan read? (first ++ (source name ++ rest)) =
      scan read? first ++ .token name (source name) :: scan read? rest := by
  rw [← scan_source_append h]
  refine Text.scan_append fun front back _ hback => Option.ext fun piece => ?_
  rw [piece?_eq_some_iff, piece?_eq_some_iff]
  refine exists_congr fun other => and_congr_right fun hother => and_congr_left fun _ => ?_
  constructor
  · rw [source_append]
    exact isPrefix_of_isPrefix_append_open hother hback
  · exact fun hstarts => hstarts.trans (List.prefix_append back _)

end Placeholder

/-! ## Cuts from pieces -/

namespace Text.Piece

variable {α β : Type}

def map (f : α → β) : Piece α → Piece β
  | char c => char c
  | token a cs => token (f a) cs

theorem value?_map (f : α → β) (piece : Piece α) : (piece.map f).value? = piece.value?.map f := by
  cases piece <;> rfl

theorem filterMap_value?_map_char (cs : List Char) :
    (cs.map Piece.char).filterMap value? = ([] : List α) :=
  List.filterMap_eq_nil_iff.mpr (List.forall_mem_map.mpr fun _ _ => rfl)

theorem replace_map (f : α → β) (g : β → Option (List Char)) (piece : Piece α) :
    (piece.map f).replace g = piece.replace (g ∘ f) := by
  cases piece <;> rfl

end Text.Piece

namespace Cut

/-- The names of the tokens in the cut, in order. -/
def names (cut : Cut) : List String :=
  cut.parts.map Prod.snd

theorem names_cons (c : Char) (cut : Cut) : (cons c cut).names = cut.names := by
  obtain ⟨_ | ⟨⟨literal, name⟩, parts⟩, last⟩ := cut <;> rfl

theorem names_ofPieces (pieces : List (Text.Piece String)) :
    (ofPieces pieces).names = pieces.filterMap Text.Piece.value? := by
  induction pieces with
  | nil => rfl
  | cons piece pieces ih =>
    cases piece with
    | char c => exact (names_cons c _).trans ih
    | token name source => exact congrArg (name :: ·) ih

theorem ofPieces_last (literal : List Char) : ofPieces (literal.map .char) = ⟨[], literal⟩ := by
  induction literal with
  | nil => rfl
  | cons c literal ih => exact congrArg (cons c) ih

theorem ofPieces_part (literal source : List Char) (name : String)
    (pieces : List (Text.Piece String)) :
    ofPieces (literal.map .char ++ .token name source :: pieces) =
      ⟨(literal, name) :: (ofPieces pieces).parts, (ofPieces pieces).last⟩ := by
  induction literal with
  | nil => rfl
  | cons c literal ih => exact congrArg (cons c) ih

end Cut

/-! ## The cut at the placeholders -/

namespace Placeholder

open Text (scan)

/-- The text cut at its placeholders. -/
def cut (cs : List Char) : Cut :=
  Cut.ofPieces ((scan read? cs).map (·.map String.ofList))

/-- The names of the placeholders that a scan finds. -/
def namesIn (cs : List Char) : List (List Char) :=
  (scan read? cs).filterMap Text.Piece.value?

theorem map_namesIn (text : String) : (namesIn text.toList).map String.ofList = names text := by
  rw [namesIn, names, List.map_filterMap]

theorem names_cut (cs : List Char) : (cut cs).names = (namesIn cs).map String.ofList := by
  rw [cut, Cut.names_ofPieces, List.filterMap_map, namesIn, List.map_filterMap]
  exact List.filterMap_congr fun piece _ => piece.value?_map String.ofList

/-- To fill the cut is to replace the placeholders in the pieces of the scan. -/
theorem fill_cut (value? : String → Option String) (cs : List Char) :
    (cut cs).fill value? =
      (scan read? cs).flatMap
        (·.replace fun name => (value? (String.ofList name)).map String.toList) := by
  rw [cut, Cut.fill_ofPieces, List.flatMap_map]
  · exact List.flatMap_congr fun piece _ => piece.replace_map String.ofList _
  · intro name source' hmem
    obtain ⟨piece, hpiece, heq⟩ := List.mem_map.mp hmem
    cases piece with
    | char c => exact nomatch heq
    | token value source =>
      obtain ⟨rfl, rfl⟩ := Text.Piece.token.inj heq
      rw [(isName_of_mem_scan hpiece).2, Matcher.token, String.toList_ofList]
      rfl

theorem text_cut (cs : List Char) : (cut cs).text = cs := by
  rw [← Cut.fill_none, fill_cut]
  exact Text.flatMap_source_scan read? cs

section Unique

variable {literal : List Char} {name : String} {parts : List (List Char × String)}
  {last : List Char}

/-- The names along a cut: those in the first literal text, the name of the first part, and those of
the rest. -/
theorem namesIn_part (h : IsName name.toList) :
    namesIn (Cut.text ⟨(literal, name) :: parts, last⟩) =
      namesIn literal ++ name.toList :: namesIn (Cut.text ⟨parts, last⟩) := by
  rw [Cut.text_part, namesIn]
  exact (congrArg _ (scan_append_source h)).trans List.filterMap_append

/-- A text has at least the placeholders that it is cut at. -/
theorem length_names_le {cut : Cut} (h : ∀ name ∈ cut.names, IsName name.toList) :
    cut.names.length ≤ (namesIn cut.text).length := by
  obtain ⟨parts, last⟩ := cut
  induction parts with
  | nil => exact Nat.zero_le _
  | cons part parts ih =>
    obtain ⟨hname, hnames⟩ := List.forall_mem_cons.mp h
    have hrest := ih hnames
    rw [namesIn_part hname, List.length_append, List.length_cons]
    simp only [Cut.names, List.map_cons, List.length_cons] at hrest ⊢
    omega

theorem cut_last (h : namesIn last = []) : cut last = ⟨[], last⟩ := by
  rw [cut, Text.scan_of_no_tokens h, List.map_map]
  exact Cut.ofPieces_last last

theorem cut_part (hname : IsName name.toList) (hliteral : namesIn literal = []) :
    cut (Cut.text ⟨(literal, name) :: parts, last⟩) =
      ⟨(literal, name) :: (cut (Cut.text ⟨parts, last⟩)).parts,
        (cut (Cut.text ⟨parts, last⟩)).last⟩ := by
  have hscan : scan read? (Cut.text ⟨(literal, name) :: parts, last⟩) =
      literal.map .char ++
        .token name.toList (source name.toList) :: scan read? (Cut.text ⟨parts, last⟩) := by
    rw [Cut.text_part, ← Text.scan_of_no_tokens hliteral]
    exact scan_append_source hname
  rw [cut, hscan, List.map_append, List.map_map, List.map_cons, Text.Piece.map,
    String.ofList_toList]
  exact Cut.ofPieces_part ..

/-- A cut at all placeholders of a text is the cut at its placeholders. -/
theorem cut_text {cut : Cut} (h : ∀ name ∈ cut.names, IsName name.toList)
    (hlength : (namesIn cut.text).length ≤ cut.names.length) :
    Placeholder.cut cut.text = cut := by
  obtain ⟨parts, last⟩ := cut
  induction parts with
  | nil => exact cut_last (List.eq_nil_of_length_eq_zero (Nat.le_zero.mp hlength))
  | cons part parts ih =>
    obtain ⟨hname, hnames⟩ := List.forall_mem_cons.mp h
    have hrest : (Cut.names ⟨parts, last⟩).length ≤ (namesIn (Cut.text ⟨parts, last⟩)).length :=
      length_names_le hnames
    rw [namesIn_part hname, List.length_append, List.length_cons] at hlength
    simp only [Cut.names, List.map_cons, List.length_cons] at hlength hrest
    -- The cut has a placeholder for each of its parts, so none is left for the literal text.
    have hliteral : namesIn part.1 = [] := List.eq_nil_of_length_eq_zero (by omega)
    have hsame := ih hnames (by simp only [Cut.names]; omega)
    rw [cut_part hname hliteral, hsame]

end Unique

/-- Of a text that is nothing but a placeholder. -/
theorem names_token {name text : String} (h : IsName name.toList)
    (htext : text.toList = Matcher.token name) : names text = [name] := by
  have hscan := Text.scan_of_piece? (piece?_eq_some_iff.mpr
    ⟨name.toList, h, List.prefix_append _ [], rfl⟩)
  rw [List.append_nil, scan] at hscan
  rw [names, htext]
  refine (congrArg (List.filterMap _) hscan).trans ?_
  exact congrArg ([·]) String.ofList_toList

theorem isName_of_mem_names {text name : String} (h : name ∈ names text) : IsName name.toList := by
  rw [← map_namesIn] at h
  obtain ⟨name, hmem, rfl⟩ := List.mem_map.mp h
  obtain ⟨piece, hpiece, hvalue⟩ := List.mem_filterMap.mp hmem
  cases piece with
  | char c => exact nomatch hvalue
  | token value source =>
    obtain rfl := Option.some.inj hvalue
    rw [String.toList_ofList]
    exact (isName_of_mem_scan hpiece).1

theorem names_eq_nil_of_not_occursIn {text : String} (h : occursIn text = false) :
    names text = [] := by
  refine List.filterMap_eq_nil_iff.mpr fun piece hpiece => ?_
  have hnone := List.any_eq_false.mp h piece hpiece
  rw [Option.not_isSome_iff_eq_none.mp hnone, Option.map_none]

/-- Where a text has been cut at its placeholders, it has been cut as it was here. -/
theorem eq_cut_of_names {other : Cut} {text : String} (htext : other.text = text.toList)
    (hnames : other.names = names text) : other = cut text.toList := by
  rw [← htext]
  refine (cut_text (fun name hname => ?_) ?_).symm
  · exact isName_of_mem_names (hnames ▸ hname)
  · rw [htext, hnames, ← map_namesIn, List.length_map]

end Placeholder

/-! ## The scan for columns -/

namespace Matcher

open Placeholder (IsName)
open Text (scan)

variable {columns : List String} (hnames : ∀ name ∈ columns, IsName name.toList)

/-- What a scan for columns makes of a piece of the scan for placeholders. A placeholder that names
no column falls apart. -/
def ofPiece (columns : List String) : Text.Piece (List Char) → List (Text.Piece String)
  | .char c => [.char c]
  | .token name source =>
    if String.ofList name ∈ columns then [.token (String.ofList name) source]
    else source.map .char

include hnames

/-- A column that a placeholder names has the only token there, so it is the longest. -/
theorem isLongest_of_isName {name cs : List Char} (hname : IsName name)
    (hmem : String.ofList name ∈ columns) (hstarts : Placeholder.source name <+: cs) :
    IsLongest columns (String.ofList name) cs where
  mem := hmem
  starts := by
    rw [token, String.toList_ofList]
    exact hstarts
  longest := by
    intro other hother hstarts'
    have hsame := (hnames other hother).eq_of_isPrefix hname hstarts' hstarts
    rw [token, token, String.toList_ofList, hsame]

/-- Inside a placeholder that names no column no token starts. -/
theorem noToken_of_notMem {name front back rest : List Char} (hname : IsName name)
    (hnone : String.ofList name ∉ columns) (hsplit : Placeholder.source name = front ++ back)
    (hback : back ≠ []) : NoToken columns (back ++ rest) := by
  intro other hother hstarts
  cases front with
  | nil =>
    have hsource : Placeholder.source name <+: back ++ rest := ⟨rest, by rw [hsplit]; rfl⟩
    have hsame := (hnames other hother).eq_of_isPrefix hname hstarts hsource
    rw [← hsame, String.ofList_toList] at hnone
    exact hnone hother
  | cons c front =>
    obtain ⟨d, back, rfl⟩ := List.exists_cons_of_ne_nil hback
    obtain ⟨rfl, -⟩ := List.cons_prefix_cons.mp hstarts
    have hmem : '<' ∈ name ++ ['>'] := by
      rw [(List.cons.inj hsplit).2]
      simp
    exact absurd hmem (by simp [hname.no_open])

theorem scan_source_append {name rest : List Char} (hname : IsName name) :
    scan (ofNames columns).read? (Placeholder.source name ++ rest) =
      ofPiece columns (.token name (Placeholder.source name)) ++
        scan (ofNames columns).read? rest := by
  rw [ofPiece]
  split
  · next hmem =>
    refine Text.scan_of_piece? (piece?_eq_some_iff.mpr ⟨String.ofList name, ?_, ?_⟩)
    · exact isLongest_of_isName hnames hname hmem (List.prefix_append _ rest)
    · rw [token, String.toList_ofList]
      rfl
  · next hnone =>
    refine Text.scan_append_of_none fun front back hfront hback => read?_eq_none_iff.mpr ?_
    exact noToken_of_notMem hnames hname hnone hfront hback

/-- The scan for columns, piece by piece of the scan for placeholders. -/
theorem scan_eq_flatMap_ofPiece (cs : List Char) :
    scan (ofNames columns).read? cs = (scan Placeholder.read? cs).flatMap (ofPiece columns) := by
  -- By the steps of the scan for placeholders: at its end, at a placeholder, and at a character
  -- that starts none.
  fun_induction scan Placeholder.read? cs with
  | case1 => rw [scan, List.flatMap_nil]
  | case2 c cs t hread ih =>
    obtain ⟨hname, hsource⟩ := Placeholder.isName_of_read? hread
    have hsplit : c :: cs = Placeholder.source t.value ++ t.rest := by
      rw [← hsource, t.source_append_rest]
    rw [List.flatMap_cons, ← ih, hsource]
    exact (congrArg (scan _) hsplit).trans (scan_source_append hnames hname)
  | case3 c cs hread ih =>
    -- A token that started here would be a placeholder, as its column has a name for one.
    have hnone : NoToken columns (c :: cs) := by
      intro name hname hstarts
      have hpiece := Placeholder.piece?_eq_some_iff.mpr
        ⟨name.toList, hnames name hname, hstarts, rfl⟩
      rw [Text.TokenReader.piece?, hread] at hpiece
      cases hpiece
    rw [Text.scan_cons_of_none (read?_eq_none_iff.mpr hnone), ih]
    rfl

end Matcher

/-! ## Rows -/

/-- The columns whose tokens a row replaces in the text, in the order of the tokens. -/
def Row.replaced (row : Row) (text : String) : List String :=
  ((Text.scan row.matcher.read? text.toList).filterMap Text.Piece.value?).filter fun name =>
    (row.get? name).isSome

namespace Header

variable [PatternEngine] {header : Header}

/-- A row of a header whose pattern was refused has no tokens to replace. -/
theorem replaced_row_of_refused (h : header.compiles = false) (cells : List String)
    (location : Location) (text : String) : (header.row cells location).replaced text = [] := by
  have hmatcher : (header.row cells location).matcher = .empty := matcher_of_refused h
  have hnone : ∀ cs, Matcher.empty.read? cs = none := fun _ => rfl
  have hvalues : (text.toList.map Text.Piece.char).filterMap Text.Piece.value? =
      ([] : List String) := Text.Piece.filterMap_value?_map_char text.toList
  rw [Row.replaced, hmatcher, Text.scan_of_reads_nothing hnone, hvalues, List.filter_nil]

section OrdinaryNames

variable (hnames : ∀ name ∈ header.cells, Placeholder.IsName name.toList)
  (hcompiles : header.compiles = true) (cells : List String) (location : Location) (text : String)
include hnames hcompiles

/-- Replacing tokens of columns fills the cut at placeholders: one that names no column has no value
and is put back as it was, character by character. -/
theorem expand_row_eq_fill_cut :
    (header.row cells location).expand text =
      String.ofList ((Placeholder.cut text.toList).fill (header.row cells location).get?) := by
  rw [Placeholder.fill_cut, expand_row_of_compiles hcompiles, Matcher.substitute_eq,
    Matcher.scan_eq_flatMap_ofPiece hnames, List.flatMap_assoc]
  refine congrArg String.ofList (List.flatMap_congr fun piece _ => ?_)
  cases piece with
  | char c => rfl
  | token name source =>
    rw [Matcher.ofPiece]
    split
    · exact List.flatMap_singleton ..
    · next hnone =>
      rw [Text.Piece.replace, get?_row_of_notMem hnone, List.flatMap_map]
      exact List.flatMap_singleton' source

/-- The columns that are replaced are the placeholders that have a value. Names of other
placeholders are dropped by both sides. -/
theorem replaced_row :
    (header.row cells location).replaced text =
      (Placeholder.names text).filter fun name =>
        ((header.row cells location).get? name).isSome := by
  have hmatcher : (header.row cells location).matcher = .ofNames header.cells :=
    matcher_of_compiles hcompiles
  rw [Row.replaced, hmatcher, Matcher.scan_eq_flatMap_ofPiece hnames, Placeholder.names,
    List.filterMap_flatMap, List.filter_flatMap, List.filterMap_eq_flatMap_toList,
    List.filter_flatMap]
  refine List.flatMap_congr fun piece _ => ?_
  cases piece with
  | char c => rfl
  | token name source =>
    rw [Matcher.ofPiece]
    split
    · rfl
    · next hnone =>
      rw [Text.Piece.filterMap_value?_map_char, Text.Piece.value?, Option.map_some,
        Option.toList_some, List.filter_singleton, get?_row_of_notMem hnone]
      rfl

/-- A text without placeholders has nothing in it for a row to fill. -/
theorem expand_row_of_not_occursIn (hnone : Placeholder.occursIn text = false) :
    (header.row cells location).expand text = text := by
  -- With no placeholder in it the cut has no parts, and so nothing to fill.
  have hnames' : (Placeholder.cut text.toList).names = [] := by
    rw [Placeholder.names_cut, Placeholder.map_namesIn,
      Placeholder.names_eq_nil_of_not_occursIn hnone]
  have hfill : (Placeholder.cut text.toList).fill (header.row cells location).get? =
      (Placeholder.cut text.toList).fill fun _ => none := by
    refine Cut.fill_congr fun part hpart => absurd hpart ?_
    rw [List.map_eq_nil_iff.mp hnames']
    exact List.not_mem_nil
  rw [expand_row_eq_fill_cut hnames hcompiles, hfill, Cut.fill_none, Placeholder.text_cut,
    String.ofList_toList]

end OrdinaryNames

/-- **A row replaces the placeholders that name its columns,** if those have names that placeholders
can hold and their header compiles. A text has one cut at its placeholders; the row fills it, and
what it replaces there are the placeholders it has a value for. If the header was refused, all texts
stay as they are. -/
theorem expand_row_of_placeholders
    (hnames : ∀ name ∈ header.cells, Placeholder.IsName name.toList) (cells : List String)
    (location : Location) (text : String) :
    (header.compiles = true →
      (∃ cut : Cut, (cut.text = text.toList ∧ cut.names = Placeholder.names text) ∧
        (∀ other : Cut, other.text = text.toList → other.names = Placeholder.names text →
          other = cut) ∧
        (header.row cells location).expand text =
          String.ofList (cut.fill (header.row cells location).get?)) ∧
      (header.row cells location).replaced text =
        (Placeholder.names text).filter fun name =>
          ((header.row cells location).get? name).isSome) ∧
    (header.compiles = false →
      (header.row cells location).expand text = text ∧
      (header.row cells location).replaced text = []) ∧
    (Placeholder.occursIn text = false → (header.row cells location).expand text = text) := by
  refine ⟨?_, ?_, ?_⟩
  · intro hcompiles
    have hcut : (Placeholder.cut text.toList).names = Placeholder.names text := by
      rw [Placeholder.names_cut, Placeholder.map_namesIn]
    exact ⟨⟨_, ⟨Placeholder.text_cut text.toList, hcut⟩, fun _ => Placeholder.eq_cut_of_names,
      expand_row_eq_fill_cut hnames hcompiles cells location text⟩,
      replaced_row hnames hcompiles cells location text⟩
  · intro hrefused
    exact ⟨expand_row_of_refused hrefused cells location text,
      replaced_row_of_refused hrefused cells location text⟩
  · intro hnone
    cases hcompiles : header.compiles with
    | true => exact expand_row_of_not_occursIn hnames hcompiles cells location text hnone
    | false => exact expand_row_of_refused hcompiles cells location text

end Header

/-- Brackets that open nothing stay, and so does the placeholder of a column without a cell. -/
theorem Header.expand_row_in_brackets :
    let _ : PatternEngine := .sizeLimited
    let header : Header := ⟨["a", "b"], ⟨"cart.feature", 8⟩⟩
    let row := header.row ["1"] ⟨"cart.feature", 9⟩
    (∀ name ∈ header.cells, Placeholder.IsName name.toList) ∧ header.compiles = true ∧
      row.expand "<x <a>> << <b> <c" = "<x 1> << <b> <c" ∧
      row.replaced "<x <a>> << <b> <c" = ["a"] ∧
      Placeholder.occursIn "a < b" = false ∧ row.expand "a < b" = "a < b" := by
  intro _ header row
  have hnames : ∀ name ∈ header.cells, Placeholder.IsName name.toList := by decide
  have hcompiles : header.compiles = true := Matcher.compiles_of_share_le (by decide)
  obtain ⟨hfilled, -, -⟩ :=
    expand_row_of_placeholders hnames ["1"] ⟨"cart.feature", 9⟩ "<x <a>> << <b> <c"
  obtain ⟨⟨cut, -, hunique, hexpand⟩, hreplaced⟩ := hfilled hcompiles
  obtain ⟨-, -, hunchanged⟩ :=
    expand_row_of_placeholders hnames ["1"] ⟨"cart.feature", 9⟩ "a < b"
  have hplaceholders : Placeholder.names "<x <a>> << <b> <c" = ["a", "b"] := by cbv
  have hcut := hunique ⟨[("<x ".toList, "a"), ("> << ".toList, "b")], " <c".toList⟩
    (by decide) hplaceholders.symm
  have hnone : Placeholder.occursIn "a < b" = false := by cbv
  refine ⟨hnames, hcompiles, ?_, ?_, hnone, hunchanged hnone⟩
  · rw [← hcut] at hexpand
    exact hexpand.trans (by decide)
  · rw [hplaceholders] at hreplaced
    exact hreplaced.trans (by decide)

/-- The placeholder of a column stays if its header was refused, although it is a placeholder and the
column has a value. -/
theorem Header.expand_row_token_of_refused [PatternEngine] {header : Header}
    (hrefused : header.compiles = false) {name value : String}
    (hname : Placeholder.IsName name.toList) {cells : List String} {location : Location}
    {text : String} (htext : text.toList = Matcher.token name)
    (hvalue : (header.row cells location).get? name = some value) :
    Placeholder.names text = [name] ∧ (header.row cells location).expand text = text ∧
      ∀ cut : Cut, cut.text = text.toList → cut.names = Placeholder.names text →
        String.ofList (cut.fill (header.row cells location).get?) = value := by
  have hnames : Placeholder.names text = [name] := Placeholder.names_token hname htext
  refine ⟨hnames, expand_row_of_refused hrefused cells location text, ?_⟩
  intro cut hcut hcutNames
  -- The text is cut at its only placeholder, with nothing before it and nothing behind.
  have hwhole : Cut.text ⟨[([], name)], []⟩ = text.toList := by
    rw [Cut.text_part, htext, List.nil_append]
    exact List.append_nil _
  have hsame : cut = ⟨[([], name)], []⟩ :=
    (Placeholder.eq_cut_of_names hcut hcutNames).trans
      (Placeholder.eq_cut_of_names hwhole hnames.symm).symm
  rw [hsame, Cut.fill, List.flatMap_singleton, hvalue, List.append_nil, List.nil_append]
  exact String.ofList_toList

/-- A column of that many letters has a name that a placeholder can hold. -/
theorem Placeholder.isName_replicate {n : Nat} (h : n ≠ 0) :
    IsName (List.replicate n 'a') where
  ne_nil hnil := h (List.length_replicate.symm.trans (congrArg List.length hnil))
  no_open hmem := absurd (List.eq_of_mem_replicate hmem) (by decide)
  no_close hmem := absurd (List.eq_of_mem_replicate hmem) (by decide)

/-- So it is for every number of letters over the limit: both the name and the value are there, and
the text is not what the cut filled with the value is. -/
theorem Header.expand_row_of_many_letters {n : Nat} (h : 10485760 < 32 * n) :
    let _ : PatternEngine := .sizeLimited
    let name := String.ofList (List.replicate n 'a')
    let header : Header := ⟨[name], ⟨"cart.feature", 8⟩⟩
    let row := header.row ["v"] ⟨"cart.feature", 9⟩
    let text := String.ofList (Matcher.token name)
    (∀ name ∈ header.cells, Placeholder.IsName name.toList) ∧
      Placeholder.names text = [name] ∧ row.get? name = some "v" ∧
      row.expand text = text ∧ row.replaced text = [] ∧
      ¬ ∃ cut : Cut, cut.text = text.toList ∧ cut.names = Placeholder.names text ∧
        row.expand text = String.ofList (cut.fill row.get?) := by
  intro _ name header row text
  have hletters : name.toList = List.replicate n 'a' := String.toList_ofList
  have hname : Placeholder.IsName name.toList := by
    rw [hletters]
    exact Placeholder.isName_replicate (by omega)
  have hrefused : header.compiles = false := Matcher.refused_of_many_letters h
  have hvalue : row.get? name = some "v" := List.lookup_cons_self
  have htext : text.toList = Matcher.token name := String.toList_ofList
  obtain ⟨hnames, hexpand, hfill⟩ := expand_row_token_of_refused hrefused hname htext hvalue
  refine ⟨List.forall_mem_singleton.mpr hname, hnames, hvalue, hexpand,
    replaced_row_of_refused hrefused ["v"] _ text, ?_⟩
  rintro ⟨cut, hcut, hcutNames, hfilled⟩
  -- Filled with its value the text would be that value, but it starts with a bracket.
  have hsame : text = "v" := hexpand.symm.trans (hfilled.trans (hfill cut hcut hcutNames))
  have hhead := congrArg List.head? (htext.symm.trans (congrArg String.toList hsame))
  exact absurd (Option.some.inj hhead) (by decide)

/-- The placeholder of half a million letters is a placeholder and names a column that has a value,
but the pattern of its header is over 10 MiB and it stays. -/
theorem Header.expand_row_over_limit :
    let _ : PatternEngine := .sizeLimited
    let name := String.ofList (List.replicate 500000 'a')
    let header : Header := ⟨[name], ⟨"cart.feature", 8⟩⟩
    let row := header.row ["v"] ⟨"cart.feature", 9⟩
    let text := String.ofList (Matcher.token name)
    (∀ name ∈ header.cells, Placeholder.IsName name.toList) ∧
      Placeholder.names text = [name] ∧ row.get? name = some "v" ∧
      row.expand text = text ∧ row.replaced text = [] ∧
      ¬ ∃ cut : Cut, cut.text = text.toList ∧ cut.names = Placeholder.names text ∧
        row.expand text = String.ofList (cut.fill row.get?) :=
  expand_row_of_many_letters (by decide)

end FeatureTree
