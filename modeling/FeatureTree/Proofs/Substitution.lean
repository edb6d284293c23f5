import FeatureTree.Proofs.Matching
import FeatureTree.Proofs.Scanning

/-!
# What expansion makes of a text

Expansion is said here without a scan. A text can be cut into tokens and the literal text between
them in many ways. **In one way exactly each token is the longest at its offset, and no token starts
at any offset inside the literal text;** expansion puts the row's values in the places of the tokens
of that cut, and nothing else changes.

Offsets are what the statement is about and not what the proofs go by. `Cut.reads_part_iff` takes
the first part off a cut; existence and uniqueness follow the list of parts from there.
-/

set_option autoImplicit false

namespace FeatureTree

open Matcher (token IsLongest NoToken)

/-- A text cut into tokens and the literal text between them. -/
structure Cut where
  /-- The columns whose tokens are in the text, each with the literal text before its token. -/
  parts : List (List Char × String)
  /-- The literal text behind the last token. -/
  last : List Char
deriving DecidableEq, Repr

namespace Cut

def text (cut : Cut) : List Char :=
  cut.parts.flatMap (fun part => part.1 ++ token part.2) ++ cut.last

/-- The text with values in the places of its tokens. A token without a value stays. -/
def fill (value? : String → Option String) (cut : Cut) : List Char :=
  cut.parts.flatMap (fun part =>
    part.1 ++ ((value? part.2).map String.toList).getD (token part.2)) ++ cut.last

/-- The cut has the given parts in front, and the given literal text comes next. -/
def HasLiteral (cut : Cut) (front : List (List Char × String)) (literal : List Char) : Prop :=
  cut = ⟨front, literal⟩ ∨ ∃ name back, cut.parts = front ++ (literal, name) :: back

/-- The cut is the one that a reader of the columns' tokens makes. What is before a token is itself
a cut, `⟨front, literal⟩`, so the token's offset is the length of that cut's text. -/
structure Reads (columns : List String) (cut : Cut) : Prop where
  /-- A token is the longest of those that start at its offset. -/
  token : ∀ front literal name back, cut.parts = front ++ (literal, name) :: back →
    IsLongest columns name (cut.text.drop (text ⟨front, literal⟩).length)
  /-- At no offset inside literal text does a token start. -/
  literal : ∀ front literal, cut.HasLiteral front literal →
    ∀ offset, (text ⟨front, []⟩).length ≤ offset → offset < (text ⟨front, literal⟩).length →
      NoToken columns (cut.text.drop offset)

variable {columns : List String}

/-! ## The first part of a cut -/

section FirstPart

variable {literal : List Char} {name : String} {parts : List (List Char × String)}
  {last : List Char}

/-- The text from the front: the first literal text, its token, and the text of the cut behind it.
-/
theorem text_part :
    text ⟨(literal, name) :: parts, last⟩ = literal ++ (token name ++ text ⟨parts, last⟩) := by
  simp [text]

theorem length_text_part :
    (text ⟨(literal, name) :: parts, last⟩).length =
      literal.length + ((token name).length + (text ⟨parts, last⟩).length) := by
  rw [text_part, List.length_append, List.length_append]

/-- Offsets behind the first part are offsets into the rest. All comparisons of offsets below come
down to this. -/
theorem drop_text_part (offset : Nat) :
    (text ⟨(literal, name) :: parts, last⟩).drop
        (literal.length + ((token name).length + offset)) =
      (text ⟨parts, last⟩).drop offset := by
  rw [text_part, List.drop_length_add_append, List.drop_length_add_append]

theorem hasLiteral_last_iff {front : List (List Char × String)} {literal : List Char} :
    HasLiteral ⟨[], last⟩ front literal ↔ front = [] ∧ literal = last := by
  constructor
  · rintro (hcut | ⟨name, back, hparts⟩)
    · exact ⟨(Cut.mk.inj hcut).1.symm, (Cut.mk.inj hcut).2.symm⟩
    · simp at hparts
  · rintro ⟨rfl, rfl⟩
    exact .inl rfl

theorem hasLiteral_part_nil_iff {first : List Char} :
    HasLiteral ⟨(literal, name) :: parts, last⟩ [] first ↔ first = literal := by
  constructor
  · rintro (hcut | ⟨other, back, hparts⟩)
    · exact nomatch (Cut.mk.inj hcut).1
    · exact (congrArg Prod.fst (List.cons.inj hparts).1).symm
  · rintro rfl
    exact .inr ⟨name, parts, rfl⟩

theorem hasLiteral_part_cons_iff {part first : List Char × String}
    {front : List (List Char × String)} :
    HasLiteral ⟨part :: parts, last⟩ (first :: front) literal ↔
      first = part ∧ HasLiteral ⟨parts, last⟩ front literal := by
  simp only [HasLiteral, Cut.mk.injEq, List.cons_append, List.cons.injEq]
  constructor
  · rintro (⟨⟨rfl, rfl⟩, rfl⟩ | ⟨name, back, rfl, hparts⟩)
    · exact ⟨rfl, .inl ⟨rfl, rfl⟩⟩
    · exact ⟨rfl, .inr ⟨name, back, hparts⟩⟩
  · rintro ⟨rfl, ⟨rfl, rfl⟩ | ⟨name, back, hparts⟩⟩
    · exact .inl ⟨⟨rfl, rfl⟩, rfl⟩
    · exact .inr ⟨name, back, rfl, hparts⟩

end FirstPart

/-- No token starts inside the literal text, which goes on with `rest`. -/
def Clear (columns : List String) (literal rest : List Char) : Prop :=
  ∀ front back, literal = front ++ back → back ≠ [] → NoToken columns (back ++ rest)

/-- The same by offsets. Splits of the literal text are easier to prove things by, offsets are what
a reader looks for. -/
theorem clear_iff {literal rest : List Char} :
    Clear columns literal rest ↔
      ∀ offset < literal.length, NoToken columns ((literal ++ rest).drop offset) := by
  constructor
  · intro h offset hlt
    rw [List.drop_append_of_le_length (Nat.le_of_lt hlt)]
    refine h (literal.take offset) _ (List.take_append_drop offset literal).symm ?_
    rw [ne_eq, List.drop_eq_nil_iff]
    omega
  · rintro h front back rfl hback
    have hlt : front.length < (front ++ back).length := by
      have hpos := List.length_pos_iff.mpr hback
      rw [List.length_append]
      omega
    have hnone := h front.length hlt
    rwa [List.append_assoc, List.drop_left] at hnone

/-- Reading a cut without tokens is finding no token in it. -/
theorem reads_last_iff {last : List Char} :
    Reads columns ⟨[], last⟩ ↔ Clear columns last [] := by
  rw [clear_iff, List.append_nil]
  constructor
  · intro h offset hlt
    exact h.literal [] last (hasLiteral_last_iff.mpr ⟨rfl, rfl⟩) offset (Nat.zero_le _) hlt
  · intro h
    refine ⟨?_, ?_⟩
    · intro front literal name back hparts
      simp at hparts
    · intro front literal hliteral offset _ hlt
      obtain ⟨rfl, rfl⟩ := hasLiteral_last_iff.mp hliteral
      exact h offset hlt

/-- Reading a cut is reading its first part and then the rest. The definition speaks of any part of
a cut by its offset; by this it can be used one part at a time. -/
theorem reads_part_iff {literal : List Char} {name : String}
    {parts : List (List Char × String)} {last : List Char} :
    Reads columns ⟨(literal, name) :: parts, last⟩ ↔
      Clear columns literal (token name ++ text ⟨parts, last⟩) ∧
        IsLongest columns name (token name ++ text ⟨parts, last⟩) ∧
          Reads columns ⟨parts, last⟩ := by
  have hdrop : (text ⟨(literal, name) :: parts, last⟩).drop literal.length =
      token name ++ text ⟨parts, last⟩ := by
    rw [text_part, List.drop_left]
  rw [clear_iff, ← text_part, ← hdrop]
  constructor
  · intro h
    refine ⟨?_, h.token [] literal name parts rfl, ?_, ?_⟩
    · intro offset hlt
      exact h.literal [] literal (hasLiteral_part_nil_iff.mpr rfl) offset (Nat.zero_le _) hlt
    · intro front next other back hparts
      have hlongest := h.token ((literal, name) :: front) next other back
        (congrArg ((literal, name) :: ·) hparts)
      rwa [length_text_part, drop_text_part] at hlongest
    · intro front next hnext offset hle hlt
      have hnone := h.literal _ next (hasLiteral_part_cons_iff.mpr ⟨rfl, hnext⟩)
        (literal.length + ((token name).length + offset))
      rw [length_text_part, length_text_part, drop_text_part] at hnone
      exact hnone (by omega) (by omega)
  · rintro ⟨hclear, hlongest, hrest⟩
    refine ⟨?_, ?_⟩
    · intro front next other back hparts
      cases front with
      | nil =>
        obtain ⟨hpart, -⟩ := List.cons.inj hparts
        obtain ⟨rfl, rfl⟩ := Prod.mk.inj hpart
        exact hlongest
      | cons part front =>
        obtain ⟨rfl, hback⟩ := List.cons.inj hparts
        rw [length_text_part, drop_text_part]
        exact hrest.token front next other back hback
    · intro front next hnext offset hle hlt
      cases front with
      | nil =>
        obtain rfl := hasLiteral_part_nil_iff.mp hnext
        exact hclear offset hlt
      | cons part front =>
        obtain ⟨rfl, hfront⟩ := hasLiteral_part_cons_iff.mp hnext
        rw [length_text_part] at hle hlt
        obtain ⟨offset, rfl⟩ := Nat.exists_eq_add_of_le
          (show literal.length + (token name).length ≤ offset by omega)
        rw [Nat.add_assoc, drop_text_part]
        exact hrest.literal front next hfront offset (by omega) (by omega)

/-! ## There is at most one -/

/-- Literal text ends where a token starts, or before. -/
theorem Clear.length_le {literal rest front back : List Char} (h : Clear columns literal rest)
    (heq : literal ++ rest = front ++ back) (hback : ¬ NoToken columns back) :
    literal.length ≤ front.length := by
  -- If the token started inside the literal text, the text would not be clear there.
  rcases List.append_eq_append_iff.mp heq with ⟨middle, rfl, -⟩ | ⟨middle, rfl, rfl⟩
  · rw [List.length_append]
    omega
  · by_cases hmiddle : middle = []
    · exact Nat.le_of_eq (by rw [hmiddle, List.append_nil])
    · exact absurd (h front middle rfl hmiddle) hback

/-- A text in which no token starts is not a text with a token in it. -/
theorem Clear.ne_token {last front rest : List Char} {name : String}
    (h : Clear columns last []) (hlongest : IsLongest columns name (token name ++ rest)) :
    last ≠ front ++ (token name ++ rest) := by
  intro heq
  have hle := h.length_le ((List.append_nil last).trans heq) hlongest.not_noToken
  have hpos := List.length_pos_iff.mpr (Matcher.token_ne_nil name)
  rw [heq, List.length_append, List.length_append] at hle
  omega

/-- The columns' tokens can be read in one way only, by induction on the parts of one of the cuts.
-/
theorem Reads.unique {a b : Cut} (ha : a.Reads columns) (hb : b.Reads columns)
    (h : a.text = b.text) : a = b := by
  -- One cut is taken apart by the induction, and the other follows as far as it has parts.
  obtain ⟨parts, last⟩ := a
  induction parts generalizing b with
  | nil =>
    obtain ⟨_ | ⟨⟨literal, name⟩, others⟩, last'⟩ := b
    · exact congrArg (Cut.mk []) h
    · obtain ⟨-, hlongest, -⟩ := reads_part_iff.mp hb
      exact absurd (h.trans text_part) ((reads_last_iff.mp ha).ne_token hlongest)
  | cons part parts ih =>
    obtain ⟨literal, name⟩ := part
    obtain ⟨hclear, hlongest, hrest⟩ := reads_part_iff.mp ha
    obtain ⟨_ | ⟨⟨literal', name'⟩, others⟩, last'⟩ := b
    · exact absurd (h.symm.trans text_part) ((reads_last_iff.mp hb).ne_token hlongest)
    · obtain ⟨hclear', hlongest', hrest'⟩ := reads_part_iff.mp hb
      rw [text_part, text_part] at h
      -- Each literal text ends no later than the other, so the first tokens are at one offset.
      have hlength := Nat.le_antisymm (hclear.length_le h hlongest'.not_noToken)
        (hclear'.length_le h.symm hlongest.not_noToken)
      obtain ⟨rfl, htokens⟩ := List.append_inj h hlength
      obtain rfl := (htokens ▸ hlongest).unique hlongest'
      have hcut := ih hrest' hrest (List.append_cancel_left htokens)
      obtain ⟨rfl, rfl⟩ := Cut.mk.inj hcut
      rfl

/-! ## The cut of a scan -/

/-- The cut with one more character in front. -/
def cons (c : Char) : Cut → Cut
  | ⟨[], last⟩ => ⟨[], c :: last⟩
  | ⟨(literal, name) :: parts, last⟩ => ⟨(c :: literal, name) :: parts, last⟩

def ofPieces : List (Text.Piece String) → Cut
  | [] => ⟨[], []⟩
  | .char c :: pieces => cons c (ofPieces pieces)
  | .token name _ :: pieces => ⟨([], name) :: (ofPieces pieces).parts, (ofPieces pieces).last⟩

theorem fill_cons (value? : String → Option String) (c : Char) (cut : Cut) :
    (cons c cut).fill value? = c :: cut.fill value? := by
  obtain ⟨_ | ⟨⟨literal, name⟩, parts⟩, last⟩ := cut <;> rfl

theorem fill_none (cut : Cut) : cut.fill (fun _ => none) = cut.text := rfl

/-- Literal text grows by a character at which no token starts. -/
theorem Clear.cons {c : Char} {literal rest : List Char} (h : Clear columns literal rest)
    (hc : NoToken columns (c :: literal ++ rest)) : Clear columns (c :: literal) rest := by
  intro front back heq hback
  cases front with
  | nil =>
    obtain rfl : c :: literal = back := heq
    exact hc
  | cons d front => exact h front back (List.cons.inj heq).2 hback

theorem Reads.cons {c : Char} {cut : Cut} (h : cut.Reads columns)
    (hc : NoToken columns (c :: cut.text)) : (cons c cut).Reads columns := by
  obtain ⟨_ | ⟨⟨literal, name⟩, parts⟩, last⟩ := cut
  · rw [← List.append_nil (text _)] at hc
    exact reads_last_iff.mpr ((reads_last_iff.mp h).cons hc)
  · obtain ⟨hclear, hlongest, hrest⟩ := reads_part_iff.mp h
    rw [text_part] at hc
    exact reads_part_iff.mpr ⟨hclear.cons hc, hlongest, hrest⟩

/-- A filled cut is what a scan puts together, if the tokens of the scan are written as those of the
columns. -/
theorem fill_ofPieces (value? : String → Option String) {pieces : List (Text.Piece String)}
    (h : ∀ name source, .token name source ∈ pieces → source = token name) :
    (ofPieces pieces).fill value? =
      pieces.flatMap (·.replace fun name => (value? name).map String.toList) := by
  induction pieces with
  | nil => rfl
  | cons piece pieces ih =>
    have hrest := ih fun name source hmem => h name source (List.mem_cons_of_mem _ hmem)
    cases piece with
    | char c => exact (fill_cons value? c _).trans (congrArg (c :: ·) hrest)
    | token name source =>
      rw [List.flatMap_cons, ← hrest, Text.Piece.replace, h name source List.mem_cons_self]
      exact List.append_assoc ..

theorem fill_ofPieces_scan (columns : List String) (value? : String → Option String)
    (cs : List Char) :
    (ofPieces (Text.scan (Matcher.ofNames columns).read? cs)).fill value? =
      (Text.scan (Matcher.ofNames columns).read? cs).flatMap
        (·.replace fun name => (value? name).map String.toList) := by
  refine fill_ofPieces value? fun name source hmem => ?_
  obtain ⟨_, t, hread, rfl, rfl⟩ := Text.exists_read?_of_mem_scan hmem
  exact (Matcher.isLongest_of_read? hread).1

/-- The cut of a scan is a cut of the text, as a scan loses nothing. -/
theorem text_ofPieces_scan (columns : List String) (cs : List Char) :
    (ofPieces (Text.scan (Matcher.ofNames columns).read? cs)).text = cs := by
  rw [← fill_none, fill_ofPieces_scan]
  exact Text.flatMap_source_scan (Matcher.ofNames columns).read? cs

/-- A scan reads the tokens, by induction along its own recursion: at each place it finds the
longest token or none. -/
theorem reads_ofPieces_scan (columns : List String) (cs : List Char) :
    (ofPieces (Text.scan (Matcher.ofNames columns).read? cs)).Reads columns := by
  fun_induction Text.scan (Matcher.ofNames columns).read? cs with
  | case1 =>
    refine reads_last_iff.mpr fun front back heq hback => ?_
    exact absurd (List.append_eq_nil_iff.mp heq.symm).2 hback
  | case2 c cs t h ih =>
    obtain ⟨hsource, hlongest⟩ := Matcher.isLongest_of_read? h
    -- A token found at once has no literal text before it, and the text behind it is read by
    -- induction.
    refine reads_part_iff.mpr ⟨fun front back heq hback => ?_, ?_, ih⟩
    · exact absurd (List.append_eq_nil_iff.mp heq.symm).2 hback
    · rw [text_ofPieces_scan, ← hsource, t.source_append_rest]
      exact hlongest
  | case3 c cs h ih =>
    refine ih.cons ?_
    rw [text_ofPieces_scan]
    exact Matcher.read?_eq_none_iff.mp h

/-- Only the values of the columns in a cut matter to filling it. -/
theorem fill_congr {value? value?' : String → Option String} {cut : Cut}
    (h : ∀ part ∈ cut.parts, value? part.2 = value?' part.2) :
    cut.fill value? = cut.fill value?' := by
  unfold fill
  rw [List.flatMap_congr fun part hpart => by rw [h part hpart]]

theorem Reads.mem_columns {cut : Cut} (h : cut.Reads columns) {part : List Char × String}
    (hpart : part ∈ cut.parts) : part.2 ∈ columns := by
  obtain ⟨front, back, hparts⟩ := List.append_of_mem hpart
  exact (h.token front part.1 part.2 back hparts).mem

end Cut

/-! ## Rows -/

/-- Where columns and cells are paired, a column's value is the cell below the first column of its
name. -/
theorem lookup_zip {columns : List String} {name : String} (h : name ∈ columns)
    (cells : List String) : (columns.zip cells).lookup name = cells[columns.idxOf name]? := by
  induction columns generalizing cells with
  | nil => exact nomatch h
  | cons column columns ih =>
    cases cells with
    | nil => rfl
    | cons cell cells =>
      by_cases heq : name = column
      · subst heq
        simp
      · have hmem := (List.mem_cons.mp h).resolve_left heq
        rw [List.zip_cons_cons, List.lookup_cons, beq_false_of_ne heq,
          List.idxOf_cons_ne columns (Ne.symm heq), List.getElem?_cons_succ]
        exact ih hmem cells

theorem Header.get?_row_of_notMem [PatternEngine] {header : Header} {name : String}
    (h : name ∉ header.cells) (cells : List String) (location : Location) :
    (header.row cells location).get? name = none := by
  refine List.lookup_eq_none_iff.mpr fun pair hpair => ?_
  rw [bne_iff_ne]
  rintro rfl
  exact h (List.of_mem_zip hpair).1

/-- **A row expands a text at the tokens of one cut.** Each token stands for the cell below the
first column of its name, and for itself where the row has no such cell. If the pattern of the
header was refused, every token stands for itself. -/
theorem Header.expand_row [PatternEngine] (header : Header) (cells : List String)
    (location : Location) (text : String) :
    ∃ cut : Cut, (cut.text = text.toList ∧ cut.Reads header.cells) ∧
      (∀ other : Cut, other.text = text.toList → other.Reads header.cells → other = cut) ∧
      (header.row cells location).expand text =
        String.ofList (cut.fill fun name =>
          if header.compiles then cells[header.cells.idxOf name]? else none) := by
  -- The cut is that of all columns, whether the engine takes their pattern or not: what is refused
  -- is the filling and not the reading.
  have htext := Cut.text_ofPieces_scan header.cells text.toList
  have hreads := Cut.reads_ofPieces_scan header.cells text.toList
  refine ⟨_, ⟨htext, hreads⟩, ?_, ?_⟩
  · intro other hother hreads'
    exact hreads'.unique hreads (hother.trans htext.symm)
  · cases hcompiles : header.compiles with
    | true =>
      have hvalue : ∀ part ∈ (Cut.ofPieces _).parts, (header.row cells location).get? part.2 =
          cells[header.cells.idxOf part.2]? :=
        fun part hpart => lookup_zip (hreads.mem_columns hpart) cells
      simp only [if_true]
      rw [← Cut.fill_congr hvalue, Cut.fill_ofPieces_scan, expand_row_of_compiles hcompiles,
        Matcher.substitute_eq]
    | false =>
      simp only [Bool.false_eq_true, if_false]
      rw [Cut.fill_none, htext, String.ofList_toList]
      exact expand_row_of_refused hcompiles cells location text

end FeatureTree
