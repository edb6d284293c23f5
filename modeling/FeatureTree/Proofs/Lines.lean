import FeatureTree.Comment

/-!
# Lines and the text they make

Lines are joined to a text by line feeds, and a text is cut into lines at its line feeds. **From a
text to its lines and back nothing is lost. From lines to their text and back a line comes back as
it was unless it holds a line feed itself.** A cut has one line at least, so that no lines at all are
a case of their own.

A comment is where this shows: it keeps the text alone. Having no lines and having one empty line
are the same to it, and it takes them for no lines.
-/

set_option autoImplicit false

namespace FeatureTree

/-! ## Texts -/

namespace Text

theorem notMem_of_mem_splitOn {c : Char} {cs part : List Char} (h : part ∈ cs.splitOn c) :
    c ∉ part := by
  induction cs generalizing part with
  | nil =>
    rw [List.splitOn_nil, List.mem_singleton] at h
    rw [h]
    exact List.not_mem_nil
  | cons d cs ih =>
    rw [List.splitOn_cons_eq_if_modifyHead] at h
    split at h
    · rcases List.mem_cons.mp h with rfl | h
      · exact List.not_mem_nil
      · exact ih h
    · next hd =>
      -- The character goes in front of the first part of the rest.
      obtain ⟨first, parts, hparts⟩ := List.exists_cons_of_ne_nil (List.splitOn_ne_nil c cs)
      rw [hparts, List.modifyHead_cons] at h
      rw [hparts] at ih
      rcases List.mem_cons.mp h with rfl | h
      · rw [List.mem_cons]
        rintro (rfl | hmem)
        · exact hd BEq.rfl
        · exact ih List.mem_cons_self hmem
      · exact ih (List.mem_cons_of_mem _ h)

/-- Every text is what its lines make. -/
theorem intercalate_splitOn (s : String) :
    "\n".intercalate ((s.toList.splitOn '\n').map String.ofList) = s := by
  have hid : String.toList ∘ String.ofList = id := funext fun _ => String.toList_ofList
  rw [← String.toList_inj, String.toList_intercalate, List.map_map, hid, List.map_id]
  exact List.intercalate_splitOn '\n'

/-- A text is cut into the lines that it was made of, if there were any and they hold no line
feed. -/
theorem splitOn_intercalate {lines : List String} (hne : lines ≠ [])
    (h : ∀ line ∈ lines, '\n' ∉ line.toList) :
    (("\n".intercalate lines).toList.splitOn '\n').map String.ofList = lines := by
  have hid : String.ofList ∘ String.toList = id := funext fun _ => String.ofList_toList
  have hsplit : ("\n".intercalate lines).toList.splitOn '\n' = lines.map String.toList := by
    rw [String.toList_intercalate]
    refine List.splitOn_intercalate '\n' ?_ (mt List.map_eq_nil_iff.mp hne)
    exact List.forall_mem_map.mpr h
  rw [hsplit, List.map_map, hid, List.map_id]

end Text

/-! ## Comments -/

namespace Comment

theorem lines_of_text_ne {comment : Comment} (h : comment.text ≠ "") :
    comment.lines = (comment.text.toList.splitOn '\n').map String.ofList := by
  rw [lines, if_neg (mt String.isEmpty_iff.mp h)]

theorem newline_notMem_of_mem_lines {comment : Comment} {line : String}
    (h : line ∈ comment.lines) : '\n' ∉ line.toList := by
  by_cases htext : comment.text = ""
  · rw [lines, htext] at h
    exact nomatch h
  · rw [lines_of_text_ne htext] at h
    obtain ⟨part, hpart, rfl⟩ := List.mem_map.mp h
    rw [String.toList_ofList]
    exact Text.notMem_of_mem_splitOn hpart

theorem ofLines_lines (comment : Comment) : ofLines comment.lines = comment := by
  obtain ⟨text⟩ := comment
  by_cases htext : text = ""
  · rw [htext]
    rfl
  · rw [lines_of_text_ne htext]
    exact congrArg mk (Text.intercalate_splitOn text)

theorem lines_ofLines {ls : List String} (h : ∀ line ∈ ls, '\n' ∉ line.toList)
    (hblank : ls ≠ [""]) : (ofLines ls).lines = ls := by
  by_cases hnone : ls = []
  · rw [hnone]
    rfl
  · have hsplit := Text.splitOn_intercalate hnone h
    rw [lines_of_text_ne, ofLines, hsplit]
    -- The empty text is cut into one empty line.
    intro htext
    change "\n".intercalate ls = "" at htext
    rw [htext] at hsplit
    exact hblank hsplit.symm

/-- **The lines of a comment come back as they were if each of them is a line,** and if they are not
a single empty one. A comment itself always comes back from its lines. -/
theorem lines_round_trip :
    (∀ ls : List String,
      (ofLines ls).lines = ls ↔ (∀ line ∈ ls, '\n' ∉ line.toList) ∧ ls ≠ [""]) ∧
    ∀ comment : Comment, ofLines comment.lines = comment := by
  refine ⟨?_, ofLines_lines⟩
  intro ls
  constructor
  · intro h
    refine ⟨?_, ?_⟩
    · intro line hline
      rw [← h] at hline
      exact newline_notMem_of_mem_lines hline
    · rintro rfl
      exact nomatch h
  · rintro ⟨hlines, hblank⟩
    exact lines_ofLines hlines hblank

end Comment
end FeatureTree
