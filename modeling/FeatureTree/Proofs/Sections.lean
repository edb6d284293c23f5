import Mathlib.Data.List.Induction
import Mathlib.Data.List.TakeWhile

/-!
# The sections of a list

Some elements of a list open a section: what follows belongs to them until the next one opens.
**What stands before the first opening is in no section,** and an opening with nothing behind it has
a section of its own all the same.

The sections are defined from the front, where the recursion is. Proofs about runs need them from
the back, where the next element arrives: `sections_append_section` is that view, and
`sections_induction` is the induction that goes with it.
-/

set_option autoImplicit false

namespace FeatureTree

variable {α β : Type}

/-- The elements that open a section, each with what follows it up to the next of them. -/
def sections (opens : α → Bool) : List α → List (α × List α)
  | [] => []
  | a :: as =>
    if opens a then (a, as.takeWhile fun b => !opens b) :: sections opens as
    else sections opens as

variable {opens : α → Bool}

theorem sections_eq_nil {l : List α} (h : ∀ a ∈ l, opens a = false) : sections opens l = [] := by
  induction l with
  | nil => rfl
  | cons a l ih =>
    obtain ⟨ha, hl⟩ := List.forall_mem_cons.mp h
    rw [sections, ha, if_neg Bool.false_ne_true]
    exact ih hl

/-- A section is a place in the list, with all behind it up to the next opening. -/
theorem exists_append_of_mem_sections {l : List α} {part : α × List α}
    (h : part ∈ sections opens l) :
    ∃ front rest, l = front ++ part.1 :: rest ∧ part.2 = rest.takeWhile fun b => !opens b := by
  induction l with
  | nil => exact nomatch h
  | cons a l ih =>
    -- A section of the tail is one of the whole list, with one element more in front.
    have hrest : part ∈ sections opens l →
        ∃ front rest, a :: l = front ++ part.1 :: rest ∧
          part.2 = rest.takeWhile fun b => !opens b := by
      intro hmem
      obtain ⟨front, rest, hl, hbody⟩ := ih hmem
      exact ⟨a :: front, rest, congrArg (a :: ·) hl, hbody⟩
    rw [sections] at h
    split at h
    · rcases List.mem_cons.mp h with rfl | h
      · exact ⟨[], l, rfl, rfl⟩
      · exact hrest h
    · exact hrest h

/-- The opening of a section is in the list, and so is its body by the next lemma. -/
theorem mem_of_mem_sections {l : List α} {part : α × List α} (h : part ∈ sections opens l) :
    part.1 ∈ l := by
  obtain ⟨front, rest, hl, -⟩ := exists_append_of_mem_sections h
  rw [hl]
  exact List.mem_append_right front List.mem_cons_self

theorem mem_of_mem_body {l : List α} {part : α × List α} (h : part ∈ sections opens l) {b : α}
    (hb : b ∈ part.2) : b ∈ l := by
  obtain ⟨front, rest, hl, hbody⟩ := exists_append_of_mem_sections h
  rw [hbody] at hb
  rw [hl]
  exact List.mem_append_right front
    (List.mem_cons_of_mem _ ((List.takeWhile_prefix _).subset hb))

/-! ## From the back -/

/-- A body ends where an opening comes, whatever there is behind that. -/
theorem takeWhile_append_opening {l rest : List α} {a : α} (ha : opens a = true) :
    (l ++ a :: rest).takeWhile (fun b => !opens b) = l.takeWhile fun b => !opens b := by
  induction l with
  | nil => rw [List.nil_append, List.takeWhile_cons, ha]; rfl
  | cons b l ih => rw [List.cons_append, List.takeWhile_cons, List.takeWhile_cons, ih]

theorem sections_append_opening {l rest : List α} {a : α} (ha : opens a = true) :
    sections opens (l ++ a :: rest) = sections opens l ++ sections opens (a :: rest) := by
  induction l with
  | nil => rfl
  | cons b l ih =>
    rw [List.cons_append, sections, sections.eq_2 opens b l, takeWhile_append_opening ha, ih]
    by_cases hb : opens b = true
    · rw [if_pos hb, if_pos hb]
      rfl
    · rw [if_neg hb, if_neg hb]

/-- A new section is the last, and those before it are as they were. -/
theorem sections_append_section {l body : List α} {a : α} (ha : opens a = true)
    (hbody : ∀ b ∈ body, opens b = false) :
    sections opens (l ++ a :: body) = sections opens l ++ [(a, body)] := by
  have hall : body.takeWhile (fun b => !opens b) = body := by
    refine List.takeWhile_eq_self_iff.mpr ?_
    intro b hb
    rw [hbody b hb]
    rfl
  rw [sections_append_opening ha, sections, if_pos ha, hall, sections_eq_nil hbody]

example : sections (· == 0) [1, 0, 2, 3, 0] = [(0, [2, 3]), (0, [])] := by decide

/-- A list has no opening or a last one, with a body behind it. -/
theorem exists_last_opening (opens : α → Bool) (l : List α) :
    (∀ a ∈ l, opens a = false) ∨
      ∃ front a body, l = front ++ a :: body ∧ opens a = true ∧ ∀ b ∈ body, opens b = false := by
  induction l using List.reverseRecOn with
  | nil => exact .inl fun a ha => absurd ha List.not_mem_nil
  | append_singleton l a ih =>
    by_cases ha : opens a = true
    · exact .inr ⟨l, a, [], rfl, ha, fun b hb => absurd hb List.not_mem_nil⟩
    · have hlast : ∀ b ∈ [a], opens b = false :=
        fun b hb => by rw [List.mem_singleton.mp hb]; exact Bool.eq_false_iff.mpr ha
      rcases ih with hl | ⟨front, o, body, rfl, ho, hbody⟩
      · exact .inl (List.forall_mem_append.mpr ⟨hl, hlast⟩)
      · exact .inr ⟨front, o, body ++ [a], by simp, ho,
          List.forall_mem_append.mpr ⟨hbody, hlast⟩⟩

/-- What holds of a list without openings, and goes on to hold when a section is added at the end,
holds of every list. -/
theorem sections_induction {motive : List α → Prop} (opens : α → Bool)
    (preamble : ∀ l, (∀ a ∈ l, opens a = false) → motive l)
    (addSection : ∀ l a body, opens a = true → (∀ b ∈ body, opens b = false) → motive l →
      motive (l ++ a :: body))
    (l : List α) : motive l := by
  -- On the length: what is before the last opening is no tail of the list.
  induction hn : l.length using Nat.strongRecOn generalizing l with
  | _ n ih =>
    rcases exists_last_opening opens l with hl | ⟨front, a, body, rfl, ha, hbody⟩
    · exact preamble l hl
    · have hshort : front.length < n := by rw [← hn, List.length_append]; simp
      exact addSection front a body ha hbody (ih _ hshort front rfl)

/-! ## Images -/

/-- Mapping a list maps its sections, if the images open where the elements do. -/
theorem sections_map (opens : β → Bool) (f : α → β) (l : List α) :
    sections opens (l.map f) =
      (sections (fun a => opens (f a)) l).map fun part => (f part.1, part.2.map f) := by
  induction l with
  | nil => rfl
  | cons a l ih =>
    rw [List.map_cons, sections, sections, ih, List.takeWhile_map]
    by_cases ha : opens (f a) = true
    · rw [if_pos ha, if_pos ha]; rfl
    · rw [if_neg ha, if_neg ha]

/-- A list that was put together from sections falls into these. -/
theorem sections_append_flatMap {l : List α} {parts : List β} {first : β → α}
    {body : β → List α} (hfirst : ∀ part ∈ parts, opens (first part) = true)
    (hbody : ∀ part ∈ parts, ∀ a ∈ body part, opens a = false) :
    sections opens (l ++ parts.flatMap fun part => first part :: body part) =
      sections opens l ++ parts.map fun part => (first part, body part) := by
  induction parts generalizing l with
  | nil => simp
  | cons part parts ih =>
    obtain ⟨hf, hfs⟩ := List.forall_mem_cons.mp hfirst
    obtain ⟨hb, hbs⟩ := List.forall_mem_cons.mp hbody
    rw [List.flatMap_cons, ← List.append_assoc, ih hfs hbs, sections_append_section hf hb,
      List.map_cons, List.append_assoc, List.singleton_append]

end FeatureTree
