import FeatureTree.Text.Blank
import Mathlib.Data.List.TakeWhile

/-!
# Blanks at the ends

What trimming takes away is blanks, all of them at one end or at both, **and what is left neither
starts nor ends with one.** A text that does not is left as it is.
-/

set_option autoImplicit false

namespace FeatureTree

/-- The second text is the first without the blanks at its start. -/
structure Text.LosesStart (s t : String) : Prop where
  blanks : ∃ blanks, s.toList = blanks ++ t.toList ∧ ∀ c ∈ blanks, isBlank c = true
  none : ∀ c ∈ t.toList.head?, isBlank c = false

/-- The second text is the first without the blanks at its end. -/
structure Text.LosesEnd (s t : String) : Prop where
  blanks : ∃ blanks, s.toList = t.toList ++ blanks ∧ ∀ c ∈ blanks, isBlank c = true
  none : ∀ c ∈ t.toList.getLast?, isBlank c = false

/-- The text neither starts nor ends with a blank. -/
structure Text.Trimmed (s : String) : Prop where
  start : ∀ c ∈ s.toList.head?, isBlank c = false
  stop : ∀ c ∈ s.toList.getLast?, isBlank c = false

/-- The second text is the first without the blanks around it. -/
structure Text.LosesEnds (s t : String) : Prop where
  blanks : ∃ before after, s.toList = before ++ t.toList ++ after ∧
    (∀ c ∈ before, isBlank c = true) ∧ ∀ c ∈ after, isBlank c = true
  none : Trimmed t

theorem not_of_mem_head?_dropWhile {α : Type} {p : α → Bool} {l : List α} {a : α}
    (h : a ∈ (l.dropWhile p).head?) : p a = false := by
  have hnot := List.head?_dropWhile_not p l
  rw [Option.mem_def.mp h] at hnot
  exact hnot

theorem dropWhile_eq_self_of_head? {α : Type} {p : α → Bool} {l : List α}
    (h : ∀ a ∈ l.head?, p a = false) : l.dropWhile p = l := by
  cases l with
  | nil => rfl
  | cons a l => exact List.dropWhile_cons_of_neg (Bool.not_eq_true _ ▸ h a rfl)

/-- What is taken is the longest run of blanks in front, so no blank is left there. -/
theorem Text.losesStart_trimStart (s : String) : LosesStart s (trimStart s) where
  blanks := by
    rw [trimStart, String.toList_ofList]
    exact ⟨_, List.takeWhile_append_dropWhile.symm, fun _ => List.mem_takeWhile_imp⟩
  none := by
    rw [trimStart, String.toList_ofList]
    exact fun _ => not_of_mem_head?_dropWhile

/-- The end is trimmed as the start of the reversed text. -/
theorem Text.losesEnd_trimEnd (s : String) : LosesEnd s (trimEnd s) where
  blanks := by
    rw [trimEnd, String.toList_ofList]
    refine ⟨(s.toList.reverse.takeWhile isBlank).reverse, ?_, ?_⟩
    · rw [← List.reverse_append, List.takeWhile_append_dropWhile, List.reverse_reverse]
    · intro c hc
      exact List.mem_takeWhile_imp (List.mem_reverse.mp hc)
  none := by
    rw [trimEnd, String.toList_ofList, List.getLast?_reverse]
    exact fun _ => not_of_mem_head?_dropWhile

/-- Trimming the end last does not bring a blank to the start: the first character that is left was
the first before. -/
theorem Text.losesEnds_trim (s : String) : LosesEnds s (trim s) := by
  obtain ⟨⟨before, hbefore, hblank⟩, hstart⟩ := losesStart_trimStart s
  obtain ⟨⟨after, hafter, hblank'⟩, hstop⟩ := losesEnd_trimEnd (trimStart s)
  refine ⟨⟨before, after, ?_, hblank, hblank'⟩, ⟨fun c hc => hstart c ?_, hstop⟩⟩
  · rw [hbefore, hafter, trim, List.append_assoc]
  · rw [hafter, List.head?_append]
    exact Option.or_eq_some_iff.mpr (.inl hc)

/-- There is one text without the blanks around it. -/
theorem Text.LosesEnds.trim_eq {s t : String} (h : LosesEnds s t) : trim s = t := by
  obtain ⟨⟨before, after, hs, hbefore, hafter⟩, htrimmed⟩ := h
  have hstart : s.toList.dropWhile isBlank = (t.toList ++ after).dropWhile isBlank := by
    rw [hs, List.append_assoc, List.dropWhile_append_of_pos hbefore]
  rw [← String.toList_inj, trim, trimEnd, trimStart, String.toList_ofList, String.toList_ofList,
    hstart]
  cases ht : t.toList with
  | nil => rw [List.nil_append, List.dropWhile_eq_nil_iff.mpr hafter]; rfl
  | cons c rest =>
    -- With a character left, the first and the last of what is left stop both runs of blanks.
    have hhead : ∀ a ∈ (c :: rest ++ after).head?, isBlank a = false := by
      rintro a ⟨⟩
      exact htrimmed.start c (ht ▸ rfl)
    have hlast : ∀ a ∈ (c :: rest).reverse.head?, isBlank a = false := by
      rw [List.head?_reverse, ← ht]
      exact htrimmed.stop
    have hafter' : ∀ a ∈ after.reverse, isBlank a = true :=
      fun a ha => hafter a (List.mem_reverse.mp ha)
    rw [dropWhile_eq_self_of_head? hhead, List.reverse_append,
      List.dropWhile_append_of_pos hafter', dropWhile_eq_self_of_head? hlast,
      List.reverse_reverse]

/-- In particular trimming twice is trimming once. -/
theorem Text.Trimmed.trim_eq {s : String} (h : Trimmed s) : trim s = s :=
  LosesEnds.trim_eq ⟨⟨[], [], (List.append_nil _).symm, by simp, by simp⟩, h⟩

end FeatureTree
