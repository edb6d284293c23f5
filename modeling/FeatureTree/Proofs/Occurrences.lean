import FeatureTree.Proofs.Placeholders

/-!
# Where the placeholders of a text are

A scan finds a placeholder, goes on behind it and never comes back. What a placeholder is can be
said of two offsets of a text without any scan: there is an opening bracket at the one and a closing
bracket at the other, and between them are characters of which none is a bracket. **The scan finds
all such pairs.** It would miss one that starts inside another, but the other has no bracket inside
to start it with.
-/

set_option autoImplicit false

namespace FeatureTree
namespace Placeholder

open Text (Piece scan)

/-- Two offsets of a text, counted in characters. -/
structure Span where
  start : Nat
  stop : Nat
deriving DecidableEq, Repr

variable {cs : List Char} {span : Span} {offset : Nat}
  {pieces more : List (Piece (List Char))}

/-! ## Spans of placeholders -/

/-- The characters between the offsets, without those at the offsets. -/
def Span.inside (span : Span) (cs : List Char) : List Char :=
  cs.extract (span.start + 1) span.stop

/-- At the offsets are the brackets of a placeholder. -/
structure Span.IsPlaceholder (cs : List Char) (span : Span) : Prop where
  opens : cs[span.start]? = some '<'
  closes : cs[span.stop]? = some '>'
  nonempty : span.start + 1 < span.stop
  no_open : '<' ∉ span.inside cs
  no_close : '>' ∉ span.inside cs

/-- The span of a name's placeholder behind so many characters. -/
def Span.ofName (offset : Nat) (name : List Char) : Span :=
  ⟨offset, offset + name.length + 1⟩

theorem Span.inside_ofName (front name rest : List Char) :
    (ofName front.length name).inside (front ++ (source name ++ rest)) = name := by
  simp [inside, ofName, source]

theorem drop_of_getElem? {c : Char} {i : Nat} (h : cs[i]? = some c) :
    cs.drop i = c :: cs.drop (i + 1) := by
  obtain ⟨hlt, rfl⟩ := List.getElem?_eq_some_iff.mp h
  exact List.drop_eq_getElem_cons hlt

/-- A placeholder's span cuts the text in three. -/
theorem Span.IsPlaceholder.eq_append (h : span.IsPlaceholder cs) :
    cs = cs.take span.start ++ (source (span.inside cs) ++ cs.drop (span.stop + 1)) := by
  have hinside : cs.drop (span.start + 1) = span.inside cs ++ cs.drop span.stop := by
    have hdrop : (cs.drop (span.start + 1)).drop (span.stop - (span.start + 1)) =
        cs.drop span.stop := by
      rw [List.drop_drop, Nat.add_sub_cancel' (Nat.le_of_lt h.nonempty)]
    rw [inside, List.extract_eq_take_drop, ← hdrop, List.take_append_drop]
  rw [source_append, ← drop_of_getElem? h.closes, ← hinside, ← drop_of_getElem? h.opens,
    List.take_append_drop]

/-- What is said of two offsets and what is said of three parts of the text, with a name in the
middle one. -/
theorem Span.isPlaceholder_iff :
    span.IsPlaceholder cs ↔
      ∃ front name rest, IsName name ∧ cs = front ++ (source name ++ rest) ∧
        span = ofName front.length name := by
  constructor
  · intro h
    have hstop := (List.getElem?_eq_some_iff.mp h.closes).1
    have hnonempty := h.nonempty
    have hlength : (span.inside cs).length = span.stop - (span.start + 1) := by
      rw [inside, List.extract_eq_take_drop, List.length_take, List.length_drop]
      omega
    refine ⟨_, _, _, ⟨?_, h.no_open, h.no_close⟩, h.eq_append, ?_⟩
    · rw [← List.length_pos_iff, hlength]
      omega
    · obtain ⟨start, stop⟩ := span
      simp only [ofName, mk.injEq, hlength, List.length_take] at hstop hnonempty ⊢
      omega
  · rintro ⟨front, name, rest, hname, rfl, rfl⟩
    have hinside := inside_ofName front name rest
    have hlength := List.length_pos_iff.mpr hname.ne_nil
    exact
      { opens := by simp [ofName, source]
        closes := by simp [ofName, source, Nat.add_assoc]
        nonempty := by
          simp only [ofName]
          omega
        no_open := hinside.symm ▸ hname.no_open
        no_close := hinside.symm ▸ hname.no_close }

/-! ## The spans that a scan goes over -/

/-- The spans of the placeholders among the pieces, the first of which is at the offset. -/
def spansFrom (offset : Nat) : List (Piece (List Char)) → List Span
  | [] => []
  | .char _ :: pieces => spansFrom (offset + 1) pieces
  | .token name read :: pieces =>
    .ofName offset name :: spansFrom (offset + read.length) pieces

/-- The spans of the placeholders that a scan finds. -/
def spans (cs : List Char) : List Span :=
  spansFrom 0 (scan read? cs)

theorem spansFrom_append :
    spansFrom offset (pieces ++ more) =
      spansFrom offset pieces ++
        spansFrom (offset + (pieces.flatMap Piece.source).length) more := by
  induction pieces generalizing offset with
  | nil => rfl
  | cons piece pieces ih =>
    cases piece with
    | char c =>
      rw [List.cons_append, spansFrom, ih, spansFrom, List.flatMap_cons, List.length_append,
        ← Nat.add_assoc]
      rfl
    | token name read =>
      rw [List.cons_append, spansFrom, ih, spansFrom, List.flatMap_cons, List.length_append,
        ← Nat.add_assoc]
      rfl

theorem exists_of_mem_spansFrom (h : span ∈ spansFrom offset pieces) :
    ∃ before name read after, pieces = before ++ .token name read :: after ∧
      span = .ofName (offset + (before.flatMap Piece.source).length) name := by
  induction pieces generalizing offset with
  | nil => exact nomatch h
  | cons piece pieces ih =>
    -- What is found later is behind this piece, whatever it is.
    have hlater {offset' : Nat} (hoffset : offset' = offset + piece.source.length)
        (h : span ∈ spansFrom offset' pieces) : ∃ before name read after,
          piece :: pieces = before ++ .token name read :: after ∧
            span = .ofName (offset + (before.flatMap Piece.source).length) name := by
      obtain ⟨before, name, read, after, rfl, rfl⟩ := ih h
      refine ⟨piece :: before, name, read, after, rfl, ?_⟩
      rw [List.flatMap_cons, List.length_append, ← Nat.add_assoc, hoffset]
    cases piece with
    | char c => exact hlater rfl h
    | token name read =>
      rcases List.mem_cons.mp h with rfl | h
      · exact ⟨[], name, read, pieces, rfl, rfl⟩
      · exact hlater rfl h

/-- **A scan finds the placeholders that there are.** -/
theorem mem_spans_iff : span ∈ spans cs ↔ span.IsPlaceholder cs := by
  rw [Span.isPlaceholder_iff]
  constructor
  · intro h
    obtain ⟨before, name, read, after, hscan, rfl⟩ := exists_of_mem_spansFrom h
    obtain ⟨hname, rfl⟩ := isName_of_mem_scan (hscan ▸ List.mem_append_right _ List.mem_cons_self)
    refine ⟨before.flatMap Piece.source, name, after.flatMap Piece.source, hname, ?_, ?_⟩
    · have hsource := Text.flatMap_source_scan read? cs
      rw [hscan, List.flatMap_append, List.flatMap_cons] at hsource
      exact hsource.symm
    · rw [Nat.zero_add]
  · rintro ⟨front, name, rest, hname, rfl, rfl⟩
    rw [spans, scan_append_source hname, spansFrom_append, Text.flatMap_source_scan, Nat.zero_add]
    exact List.mem_append_right _ List.mem_cons_self

/-- One placeholder ends before the next one starts. -/
theorem pairwise_spansFrom (offset : Nat)
    (h : ∀ name read, Piece.token name read ∈ pieces → read = source name) :
    (spansFrom offset pieces).Pairwise fun first second => first.stop < second.start := by
  induction pieces generalizing offset with
  | nil => exact .nil
  | cons piece pieces ih =>
    have hlater := fun name read hmem => h name read (List.mem_cons_of_mem _ hmem)
    cases piece with
    | char c => exact ih _ hlater
    | token name read =>
      refine List.pairwise_cons.mpr ⟨?_, ih _ hlater⟩
      intro second hsecond
      obtain ⟨before, name', -, -, -, rfl⟩ := exists_of_mem_spansFrom hsecond
      -- A later span starts behind all of this placeholder, its closing bracket included.
      have hlength : read.length = name.length + 2 := by
        rw [h name read List.mem_cons_self]
        simp [source]
      simp only [Span.ofName]
      omega

/-- Between the offsets of the spans are the values of the pieces. -/
theorem map_inside_spansFrom (front : List Char)
    (h : ∀ name read, Piece.token name read ∈ pieces → read = source name) :
    (spansFrom front.length pieces).map (·.inside (front ++ pieces.flatMap Piece.source)) =
      pieces.filterMap Piece.value? := by
  induction pieces generalizing front with
  | nil => rfl
  | cons piece pieces ih =>
    -- The text in front grows by the piece that has been passed, so that offsets stay those of the
    -- whole text.
    have hlater := ih (front ++ piece.source) fun name read hmem =>
      h name read (List.mem_cons_of_mem _ hmem)
    rw [List.append_assoc, ← List.flatMap_cons, List.length_append] at hlater
    cases piece with
    | char c => exact hlater
    | token name read =>
      obtain rfl := h name read List.mem_cons_self
      exact List.cons_eq_cons.mpr ⟨Span.inside_ofName front name _, hlater⟩

theorem occursIn_iff {text : String} : occursIn text = true ↔ names text ≠ [] := by
  constructor
  · intro h
    obtain ⟨piece, hpiece, hsome⟩ := List.any_eq_true.mp h
    obtain ⟨name, hvalue⟩ := Option.isSome_iff_exists.mp hsome
    have hmem : String.ofList name ∈ names text :=
      List.mem_filterMap.mpr ⟨piece, hpiece, by rw [hvalue, Option.map_some]⟩
    exact List.ne_nil_of_mem hmem
  · intro h
    by_contra hnone
    exact h (names_eq_nil_of_not_occursIn (Bool.eq_false_iff.mpr hnone))

/-- **No placeholder is hidden by another.** The names are those of all placeholders of the text, in
the order of their offsets, one of them ending before the next one starts. -/
theorem names_of_spans (text : String) :
    (∃ spans : List Span,
      (∀ span, span ∈ spans ↔ span.IsPlaceholder text.toList) ∧
      spans.Pairwise (fun first second => first.stop < second.start) ∧
      names text = spans.map fun span => String.ofList (span.inside text.toList)) ∧
    (occursIn text = true ↔ names text ≠ []) := by
  have hread : ∀ name read, Piece.token name read ∈ scan read? text.toList → read = source name :=
    fun _ _ hmem => (isName_of_mem_scan hmem).2
  have hinside := map_inside_spansFrom [] hread
  rw [List.nil_append, Text.flatMap_source_scan] at hinside
  refine ⟨⟨spans text.toList, fun _ => mem_spans_iff, pairwise_spansFrom 0 hread, ?_⟩, occursIn_iff⟩
  rw [← map_namesIn, namesIn, ← hinside, List.map_map]
  rfl

/-- Brackets without a name between them are part of no placeholder. -/
example : spans "<<a>> <b<>".toList = [⟨1, 3⟩] := by cbv

end Placeholder
end FeatureTree
