import FeatureTree.Text.Scan

/-!
# Scans without their recursion

Readers of tokens differ in what they take for a token, and some things about scans do not depend on
it. **A text can be scanned in parts if the reader reads at each offset of the first part what it
would read without the second.** The readers of header tokens and of placeholders each have their
own reason why they do.
-/

set_option autoImplicit false

namespace FeatureTree
namespace Text

variable {α : Type} {read? : TokenReader α}

/-- What is read at the start of a text, without what is left of it. -/
def TokenReader.piece? (read? : TokenReader α) (cs : List Char) : Option (Piece α) :=
  (read? cs).map fun t => .token t.value t.source

/-! ## One step -/

theorem scan_of_some {cs : List Char} {t : Token α cs} (h : read? cs = some t) :
    scan read? cs = .token t.value t.source :: scan read? t.rest := by
  cases cs with
  | nil => exact absurd (List.append_eq_nil_iff.mp t.source_append_rest).1 t.source_ne_nil
  | cons c cs => rw [scan, h]

theorem scan_cons_of_none {c : Char} {cs : List Char} (h : read? (c :: cs) = none) :
    scan read? (c :: cs) = .char c :: scan read? cs := by
  rw [scan, h]

theorem scan_of_piece? {a : α} {source rest : List Char}
    (h : TokenReader.piece? read? (source ++ rest) = some (.token a source)) :
    scan read? (source ++ rest) = .token a source :: scan read? rest := by
  obtain ⟨t, hread, hsame⟩ := Option.map_eq_some_iff.mp h
  obtain ⟨hvalue, hsource⟩ := Piece.token.inj hsame
  have hrest : t.rest = rest :=
    List.append_cancel_left ((congrArg (· ++ t.rest) hsource).symm.trans t.source_append_rest)
  rw [scan_of_some hread, hvalue, hsource, hrest]

/-- Every token of a scan was read somewhere. -/
theorem exists_read?_of_mem_scan {cs : List Char} {a : α} {source : List Char}
    (h : .token a source ∈ scan read? cs) :
    ∃ (rest : List Char) (t : Token α rest),
      read? rest = some t ∧ t.value = a ∧ t.source = source := by
  fun_induction scan read? cs with
  | case1 => cases h
  | case2 c cs t hread ih =>
    rcases List.mem_cons.mp h with heq | hmem
    · obtain ⟨rfl, rfl⟩ := Piece.token.inj heq
      exact ⟨_, t, hread, rfl, rfl⟩
    · exact ih hmem
  | case3 c cs hread ih =>
    rcases List.mem_cons.mp h with heq | hmem
    · cases heq
    · exact ih hmem

/-! ## Two parts -/

/-- A text is scanned in two parts if at no offset inside the first one it matters to the reader
that there is a second one. -/
theorem scan_append {first second : List Char}
    (h : ∀ front back, first = front ++ back → back ≠ [] →
      TokenReader.piece? read? (back ++ second) = TokenReader.piece? read? back) :
    scan read? (first ++ second) = scan read? first ++ scan read? second := by
  fun_induction scan read? first with
  | case1 => rfl
  | case2 c cs t hread ih =>
    have hpiece := h [] (c :: cs) rfl (List.cons_ne_nil c cs)
    have hread' : TokenReader.piece? read? (c :: cs) = some (.token t.value t.source) := by
      rw [TokenReader.piece?, hread, Option.map_some]
    have hsplit : c :: cs ++ second = t.source ++ (t.rest ++ second) := by
      rw [← List.append_assoc, t.source_append_rest]
    rw [hread', hsplit] at hpiece
    rw [hsplit, scan_of_piece? hpiece, ih, List.cons_append]
    intro front back heq hback
    refine h (t.source ++ front) back ?_ hback
    rw [List.append_assoc, ← heq, t.source_append_rest]
  | case3 c cs hread ih =>
    have hpiece := h [] (c :: cs) rfl (List.cons_ne_nil c cs)
    rw [TokenReader.piece?, TokenReader.piece?, hread, Option.map_none,
      Option.map_eq_none_iff] at hpiece
    refine (scan_cons_of_none hpiece).trans (congrArg (Piece.char c :: ·) (ih ?_))
    intro front back heq hback
    exact h (c :: front) back (congrArg (c :: ·) heq) hback

/-! ## No tokens -/

/-- Where no token starts, every character stands for itself. -/
theorem scan_append_of_none {literal rest : List Char}
    (h : ∀ front back, literal = front ++ back → back ≠ [] → read? (back ++ rest) = none) :
    scan read? (literal ++ rest) = literal.map .char ++ scan read? rest := by
  induction literal with
  | nil => rfl
  | cons c literal ih =>
    have hnone := h [] (c :: literal) rfl (List.cons_ne_nil c literal)
    refine (scan_cons_of_none hnone).trans (congrArg (Piece.char c :: ·) (ih ?_))
    intro front back heq hback
    exact h (c :: front) back (congrArg (c :: ·) heq) hback

theorem scan_of_no_tokens {cs : List Char} (h : (scan read? cs).filterMap Piece.value? = []) :
    scan read? cs = cs.map .char := by
  fun_induction scan read? cs with
  | case1 => rfl
  | case2 c cs t hread ih => cases h
  | case3 c cs hread ih => exact congrArg (Piece.char c :: ·) (ih h)

/-- A reader that reads nothing leaves every text in characters. -/
theorem scan_of_reads_nothing (h : ∀ cs, read? cs = none) (cs : List Char) :
    scan read? cs = cs.map .char := by
  induction cs with
  | nil => rw [scan, List.map_nil]
  | cons c cs ih => rw [scan_cons_of_none (h (c :: cs)), ih, List.map_cons]

/-! ## Words over a boundary -/

/-- A word at the start of two texts put together is in the first one, or it reaches over its
end. -/
theorem isPrefix_or_of_isPrefix_append {word back second : List Char} (h : word <+: back ++ second) :
    word <+: back ∨ ∃ tail, tail ≠ [] ∧ word = back ++ tail ∧ tail <+: second := by
  obtain ⟨rest, hrest⟩ := h
  rcases List.append_eq_append_iff.mp hrest with ⟨middle, hmiddle, -⟩ | ⟨tail, hword, hsecond⟩
  · exact .inl ⟨middle, hmiddle.symm⟩
  · by_cases htail : tail = []
    · exact .inl ⟨[], by rw [hword, htail, List.append_nil, List.append_nil]⟩
    · exact .inr ⟨tail, htail, hword, rest, hsecond.symm⟩

end Text
end FeatureTree
