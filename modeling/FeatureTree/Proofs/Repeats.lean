import Mathlib.Data.List.Basic
import Mathlib.Data.List.Induction

/-!
# Lists without repeats

Where a list may hold each key once, **an entry stays if none before it has its key.** Put like this
it is a fact about the entry and its place in the list; the library's loops, which drop repeats as
they go along, leave the same list.
-/

set_option autoImplicit false

namespace FeatureTree

/-- The entries of the list whose key no entry before them has. -/
def firstsBy {α β : Type} [DecidableEq β] (key : α → β) (l : List α) : List α :=
  (l.zipIdx.filter fun entry => key entry.1 ∉ (l.take entry.2).map key).map Prod.fst

section Firsts

variable {α β : Type} [DecidableEq β] (key : α → β)

/-- From the back: the last entry is kept unless its key has been there before. Both descriptions of
the list are compared by this recursion. -/
theorem firstsBy_append_singleton (l : List α) (a : α) :
    firstsBy key (l ++ [a]) = firstsBy key l ++ if key a ∈ l.map key then [] else [a] := by
  have hbefore : ∀ entry ∈ l.zipIdx, (l ++ [a]).take entry.2 = l.take entry.2 :=
    fun entry hentry =>
      List.take_append_of_le_length (Nat.le_of_lt (List.snd_lt_of_mem_zipIdx hentry))
  rw [firstsBy, List.zipIdx_append, List.filter_append, List.map_append, firstsBy]
  congr 1
  · refine congrArg _ (List.filter_congr fun entry hentry => ?_)
    rw [hbefore entry hentry]
  · by_cases ha : key a ∈ l.map key
    · simp [ha]
    · simp [ha]

/-- Dropping repeats on the way: with an entry go all later ones of its key. -/
theorem eraseDupsBy_append_singleton (a : α) : ∀ l : List α,
    (l ++ [a]).eraseDupsBy (fun a b => key a == key b) =
      l.eraseDupsBy (fun a b => key a == key b) ++ if key a ∈ l.map key then [] else [a]
  | [] => by simp [List.eraseDupsBy_cons]
  | b :: l => by
    rw [List.cons_append, List.eraseDupsBy_cons, List.eraseDupsBy_cons, List.filter_append,
      List.cons_append]
    by_cases hab : key a = key b
    · simp [hab]
    -- Entries with the first key are gone, and the last entry is not among them.
    · have hmem : key a ∈ (l.filter fun c => decide ((key c == key b) = false)).map key ↔
          key a ∈ (b :: l).map key := by
        simp only [List.mem_map, List.mem_filter, List.mem_cons]
        grind
      have hother : [a].filter (fun c => decide ((key c == key b) = false)) = [a] := by
        simp [hab]
      rw [hother, eraseDupsBy_append_singleton a (l.filter _)]
      simp only [hmem]
termination_by l => l.length
decreasing_by exact Nat.lt_succ_of_le (List.length_filter_le _ _)

/-- The library's loop keeps the firsts of each key. -/
theorem eraseDupsBy_eq_firstsBy (l : List α) :
    l.eraseDupsBy (fun a b => key a == key b) = firstsBy key l := by
  induction l using List.reverseRecOn with
  | nil => rfl
  | append_singleton l a ih =>
    rw [eraseDupsBy_append_singleton, firstsBy_append_singleton, ih]

theorem eraseDups_eq_firstsBy (l : List β) : l.eraseDups = firstsBy id l :=
  eraseDupsBy_eq_firstsBy id l

/-- Dropping repeated keys can be done before the keys are taken or after. -/
theorem map_firstsBy (l : List α) : (firstsBy key l).map key = firstsBy id (l.map key) := by
  induction l using List.reverseRecOn with
  | nil => rfl
  | append_singleton l a ih =>
    rw [firstsBy_append_singleton, List.map_append, ih, List.map_append, List.map_singleton,
      firstsBy_append_singleton, List.map_id, id]
    split <;> rfl

/-- An entry that is kept is the one that a search by its key finds. -/
theorem find?_of_mem_firstsBy {l : List α} {a : α} (h : a ∈ firstsBy key l) :
    l.find? (fun b => key b == key a) = some a := by
  induction l using List.reverseRecOn with
  | nil => exact nomatch h
  | append_singleton l b ih =>
    rw [firstsBy_append_singleton, List.mem_append] at h
    rw [List.find?_append]
    rcases h with h | h
    · rw [ih h, Option.some_or]
    · by_cases hb : key b ∈ l.map key
      · rw [if_pos hb] at h
        exact nomatch h
      · rw [if_neg hb] at h
        obtain rfl := List.mem_singleton.mp h
        -- The kept entry is the last of the list, and none before it has its key.
        have hnone : l.find? (fun b => key b == key a) = none := by
          rw [List.find?_eq_none]
          intro b hmem heq
          exact hb (beq_iff_eq.mp heq ▸ List.mem_map_of_mem hmem)
        rw [hnone, Option.none_or, List.find?_singleton, if_pos (beq_self_eq_true _)]

end Firsts

theorem nodup_eraseDups {α : Type} [BEq α] [LawfulBEq α] :
    ∀ l : List α, l.eraseDups.Nodup
  | [] => by simp
  | a :: l => by
    have hshorter := List.length_filter_le (fun b => !b == a) l
    rw [List.eraseDups_cons]
    refine List.nodup_cons.mpr ⟨?_, nodup_eraseDups (l.filter fun b => !b == a)⟩
    rw [List.mem_eraseDups, List.mem_filter]
    simp
termination_by l => l.length

theorem eraseDups_of_nodup {α : Type} [BEq α] [LawfulBEq α] {l : List α} (h : l.Nodup) :
    l.eraseDups = l := by
  induction l with
  | nil => rfl
  | cons a l ih =>
    obtain ⟨hnotMem, hnodup⟩ := List.nodup_cons.mp h
    have hother : ∀ b ∈ l, (!b == a) = true := by
      intro b hb
      rw [Bool.not_eq_true', beq_eq_false_iff_ne]
      exact fun heq => hnotMem (heq ▸ hb)
    rw [List.eraseDups_cons, List.filter_eq_self.mpr hother, ih hnodup]

end FeatureTree
