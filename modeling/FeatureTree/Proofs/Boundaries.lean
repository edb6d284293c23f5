import FeatureTree.Argument
import FeatureTree.Proofs.Limits
import FeatureTree.Proofs.Lines
import FeatureTree.Proofs.Matching
import FeatureTree.Proofs.Scanning

/-!
# Expanding a text in parts

A scan goes from left to right and never back, so what it does behind a boundary should depend on
what is before it only through a token that reaches across. **Where no token of the header lies
across the boundary, the two parts of a text can be expanded on their own.** Which tokens have
values plays no part in this: a longer token without a value swallows a shorter one with a value,
but it does so on both sides of the equation.

Lines are the case that matters: unless a column name holds a line feed, a doc string can be
expanded line by line.
-/

set_option autoImplicit false

namespace FeatureTree
namespace Matcher

variable {columns : List String} {cs ds first second : List Char}

/-! ## What is read, without the rest -/

theorem piece?_eq_some_iff {piece : Text.Piece String} :
    Text.TokenReader.piece? (ofNames columns).read? cs = some piece ↔
      ∃ name, IsLongest columns name cs ∧ piece = .token name (token name) := by
  rw [Text.TokenReader.piece?, Option.map_eq_some_iff]
  constructor
  · rintro ⟨t, hread, rfl⟩
    obtain ⟨hsource, hlongest⟩ := isLongest_of_read? hread
    exact ⟨t.value, hlongest, by rw [hsource]⟩
  · rintro ⟨name, hlongest, rfl⟩
    cases hread : (ofNames columns).read? cs with
    | none => exact absurd (read?_eq_none_iff.mp hread) hlongest.not_noToken
    | some t =>
      obtain ⟨hsource, hlongest'⟩ := isLongest_of_read? hread
      exact ⟨t, rfl, by rw [hsource, hlongest'.unique hlongest]⟩

/-- The matcher knows a text by the columns whose tokens it starts with. -/
theorem piece?_congr (h : ∀ name ∈ columns, token name <+: cs ↔ token name <+: ds) :
    Text.TokenReader.piece? (ofNames columns).read? cs =
      Text.TokenReader.piece? (ofNames columns).read? ds := by
  refine Option.ext fun piece => ?_
  rw [piece?_eq_some_iff, piece?_eq_some_iff]
  refine exists_congr fun name => and_congr_left fun _ => ?_
  constructor
  · rintro ⟨hmem, hstarts, hlongest⟩
    exact ⟨hmem, (h name hmem).mp hstarts, fun other hother hstarts' =>
      hlongest other hother ((h other hother).mpr hstarts')⟩
  · rintro ⟨hmem, hstarts, hlongest⟩
    exact ⟨hmem, (h name hmem).mpr hstarts, fun other hother hstarts' =>
      hlongest other hother ((h other hother).mp hstarts')⟩

/-! ## Tokens across a boundary -/

/-- A column's token lies across the boundary between the two texts: it starts in the first one and
ends in the second. -/
def Straddles (columns : List String) (first second : List Char) : Prop :=
  ∃ name ∈ columns, ∃ n < (token name).length,
    0 < n ∧ (token name).take n <:+ first ∧ (token name).drop n <+: second

instance : Decidable (Straddles columns first second) :=
  inferInstanceAs (Decidable (∃ name ∈ columns, ∃ n < (token name).length,
    0 < n ∧ (token name).take n <:+ first ∧ (token name).drop n <+: second))

theorem straddles_of_append {name : String} {head tail : List Char} (hname : name ∈ columns)
    (htoken : token name = head ++ tail) (hhead : head ≠ []) (htail : tail ≠ [])
    (hfirst : head <:+ first) (hsecond : tail <+: second) : Straddles columns first second := by
  have hhead' := List.length_pos_iff.mpr hhead
  have htail' := List.length_pos_iff.mpr htail
  refine ⟨name, hname, head.length, ?_, hhead', ?_, ?_⟩
  · rw [htoken, List.length_append]
    omega
  · rwa [htoken, List.take_left]
  · rwa [htoken, List.drop_left]

/-- A token that goes over the end of the first text lies across the boundary. -/
theorem isPrefix_of_not_straddles (h : ¬ Straddles columns first second) {front back : List Char}
    (hsplit : first = front ++ back) (hback : back ≠ []) {name : String} (hname : name ∈ columns)
    (hstarts : token name <+: back ++ second) : token name <+: back := by
  rcases Text.isPrefix_or_of_isPrefix_append hstarts with hinside | ⟨tail, htail, htoken, hsecond⟩
  · exact hinside
  · exact absurd
      (straddles_of_append hname htoken hback htail ⟨front, hsplit.symm⟩ hsecond) h

theorem scan_append_of_not_straddles (h : ¬ Straddles columns first second) :
    Text.scan (ofNames columns).read? (first ++ second) =
      Text.scan (ofNames columns).read? first ++ Text.scan (ofNames columns).read? second := by
  -- At every place in the first text the same tokens start, with the second text behind it and
  -- without.
  refine Text.scan_append fun front back hsplit hback => piece?_congr fun name hname => ?_
  constructor
  · exact isPrefix_of_not_straddles h hsplit hback hname
  · exact fun hstarts => hstarts.trans (List.prefix_append back second)

/-! ## Boundaries at a character -/

section Character

variable {c : Char} (h : ∀ name ∈ columns, c ∉ token name)
include h

/-- A token does not reach over a character that it does not hold. -/
theorem not_straddles_cons : ¬ Straddles columns first (c :: second) := by
  rintro ⟨name, hname, n, hn, -, -, hdrop⟩
  have hmem : c ∈ (token name).drop n := by
    -- The second part of a token that lies across would start with this character.
    cases htail : (token name).drop n with
    | nil => exact absurd (List.drop_eq_nil_iff.mp htail) (Nat.not_le.mpr hn)
    | cons d tail =>
      rw [htail] at hdrop
      obtain ⟨rfl, -⟩ := List.cons_prefix_cons.mp hdrop
      exact List.mem_cons_self
  exact h name hname (List.mem_of_mem_drop hmem)

theorem noToken_cons : NoToken columns (c :: second) := by
  intro name hname hstarts
  obtain ⟨rfl, -⟩ := List.cons_prefix_cons.mp hstarts
  exact h name hname List.mem_cons_self

theorem scan_append_cons :
    Text.scan (ofNames columns).read? (first ++ c :: second) =
      Text.scan (ofNames columns).read? first ++
        .char c :: Text.scan (ofNames columns).read? second := by
  rw [scan_append_of_not_straddles (not_straddles_cons h),
    Text.scan_cons_of_none (read?_eq_none_iff.mpr (noToken_cons h))]

end Character

/-! ## Substitution in parts -/

variable {value? : String → Option String} {s t : String}

/-- Of all tokens that a token starts with, it is itself the longest. -/
theorem substitute_token {name text : String} (h : name ∈ columns)
    (htext : text.toList = token name) :
    (ofNames columns).substitute value? text = (value? name).getD text := by
  have hlongest : IsLongest columns name (token name ++ []) := by
    rw [List.append_nil]
    exact ⟨h, List.prefix_rfl, fun _ _ hstarts => hstarts.length_le⟩
  have hscan := Text.scan_of_piece? (piece?_eq_some_iff.mpr ⟨name, hlongest, rfl⟩)
  rw [List.append_nil] at hscan
  rw [substitute_eq, htext, hscan, Text.scan, List.flatMap_singleton, Text.Piece.replace]
  cases value? name with
  | none => exact (congrArg String.ofList htext).symm.trans String.ofList_toList
  | some value => exact String.ofList_toList

theorem substitute_append (h : ¬ Straddles columns s.toList t.toList) :
    (ofNames columns).substitute value? (s ++ t) =
      (ofNames columns).substitute value? s ++ (ofNames columns).substitute value? t := by
  simp only [substitute_eq]
  rw [String.toList_append, scan_append_of_not_straddles h, List.flatMap_append,
    String.ofList_append]

/-- A token that holds a line feed is the token of a name that does. -/
theorem newline_notMem_token {name : String} (h : '\n' ∉ name.toList) : '\n' ∉ token name := by
  simp [token, h]

theorem substitute_append_newline (h : ∀ name ∈ columns, '\n' ∉ name.toList) :
    (ofNames columns).substitute value? (s ++ "\n" ++ t) =
      (ofNames columns).substitute value? s ++ "\n" ++ (ofNames columns).substitute value? t := by
  have htokens : ∀ name ∈ columns, '\n' ∉ token name :=
    fun name hname => newline_notMem_token (h name hname)
  have htext : (s ++ "\n" ++ t).toList = s.toList ++ '\n' :: t.toList := by simp
  simp only [substitute_eq]
  rw [htext, scan_append_cons htokens, List.flatMap_append, List.flatMap_cons,
    String.ofList_append, String.ofList_append, ← String.append_assoc]
  rfl

theorem substitute_intercalate (h : ∀ name ∈ columns, '\n' ∉ name.toList) (lines : List String) :
    (ofNames columns).substitute value? ("\n".intercalate lines) =
      "\n".intercalate (lines.map ((ofNames columns).substitute value?)) := by
  induction lines with
  | nil => simp [substitute_eq, Text.scan]
  | cons line lines ih =>
    cases lines with
    | nil => simp
    | cons next lines =>
      rw [String.intercalate_cons_cons, substitute_append_newline h, ih]
      exact String.intercalate_cons_cons.symm

end Matcher

/-! ## Rows -/

/-- The lines of a doc string, without the line feeds between them. -/
def DocString.lines (text : DocString) : List String :=
  (text.content.toList.splitOn '\n').map String.ofList

theorem DocString.intercalate_lines (text : DocString) :
    "\n".intercalate text.lines = text.content :=
  Text.intercalate_splitOn text.content

/-- **A text can be expanded in parts.** The boundary may be anywhere but inside a token of the
header; at line feeds it is always in order, unless a column name holds one. A header whose pattern
was refused is no exception, as its rows change nothing. -/
theorem Header.expand_append [PatternEngine] (header : Header) (cells : List String)
    (location : Location) :
    (∀ first second : String, ¬ Matcher.Straddles header.cells first.toList second.toList →
      (header.row cells location).expand (first ++ second) =
        (header.row cells location).expand first ++
          (header.row cells location).expand second) ∧
    ((∀ name ∈ header.cells, '\n' ∉ name.toList) → ∀ text : DocString,
      (Argument.docString text).mapTexts (header.row cells location).expand =
        .docString { text with
          content := "\n".intercalate (text.lines.map (header.row cells location).expand) }) := by
  refine ⟨?_, ?_⟩
  · intro first second h
    -- Either the tokens are those of all columns, or there are none and nothing changes.
    refine Matcher.compile_induction (motive := fun matcher =>
      matcher.substitute _ (first ++ second) =
        matcher.substitute _ first ++ matcher.substitute _ second) _ ?_ rfl
    exact Matcher.substitute_append h
  · intro h text
    have hlines : (header.row cells location).expand ("\n".intercalate text.lines) =
        "\n".intercalate (text.lines.map (header.row cells location).expand) := by
      refine Matcher.compile_induction (motive := fun matcher =>
        matcher.substitute _ ("\n".intercalate text.lines) =
          "\n".intercalate (text.lines.map (matcher.substitute _))) _ ?_ ?_
      · exact Matcher.substitute_intercalate h text.lines
      · exact congrArg "\n".intercalate (List.map_id text.lines).symm
    rw [text.intercalate_lines] at hlines
    exact congrArg (fun content => Argument.docString { text with content }) hlines

/-- A token without a value keeps what it holds from being read, on both sides of the equation. -/
theorem Header.expand_behind_unset_token :
    let _ : PatternEngine := .sizeLimited
    let header : Header := ⟨["a", "a>b"], ⟨"cart.feature", 8⟩⟩
    let row := header.row ["1"] ⟨"cart.feature", 9⟩
    let text : DocString := ⟨"<a>b>\n<a>", none, ⟨"cart.feature", 5⟩⟩
    ¬ Matcher.Straddles header.cells "<a>b>".toList "<a>".toList ∧
      row.expand ("<a>b>" ++ "<a>") = "<a>b>1" ∧
      (∀ name ∈ header.cells, '\n' ∉ name.toList) ∧
      (Argument.docString text).mapTexts row.expand =
        .docString { text with content := "<a>b>\n1" } := by
  intro _ header row text
  obtain ⟨hparts, hlines⟩ := expand_append header ["1"] ⟨"cart.feature", 9⟩
  have hcompiles : header.compiles = true := Matcher.compiles_of_share_le (by decide)
  have hlong : row.expand "<a>b>" = (row.get? "a>b").getD "<a>b>" :=
    (expand_row_of_compiles hcompiles ..).trans
      (Matcher.substitute_token (by decide) (by decide))
  have hshort : row.expand "<a>" = (row.get? "a").getD "<a>" :=
    (expand_row_of_compiles hcompiles ..).trans
      (Matcher.substitute_token (by decide) (by decide))
  have hinside : ¬ Matcher.Straddles header.cells "<a>b>".toList "<a>".toList := by decide
  have hnames : ∀ name ∈ header.cells, '\n' ∉ name.toList := by decide
  refine ⟨hinside, ?_, hnames, ?_⟩
  · rw [hparts "<a>b>" "<a>" hinside, hlong, hshort]
    rfl
  · have htext : text.lines = ["<a>b>", "<a>"] := by decide
    rw [hlines hnames, htext, List.map_cons, List.map_cons, hlong, hshort]
    rfl

end FeatureTree
