import FeatureTree.Notice

/-!
# The lines of the log

A notice is written as one line: its level, a blank and its message. Whoever reads the log has only
the lines, and much of a line is text of the document, such as paths and the names of rules.
**What kind of notice a line was written for can be told from its two ends all the same:** a warning
begins as no other line does, and of the warnings those that report a loss end as no other does.
-/

set_option autoImplicit false

namespace FeatureTree

namespace LogLine

def IsWarning (line : String) : Prop :=
  "WARN ".toList <+: line.toList

/-- The line warns of something that was dropped. -/
def ReportsLoss (line : String) : Prop :=
  IsWarning line ∧ "; dropped".toList <:+ line.toList

instance : DecidablePred IsWarning :=
  fun line => inferInstanceAs (Decidable ("WARN ".toList <+: line.toList))

instance : DecidablePred ReportsLoss :=
  fun line => inferInstanceAs (Decidable (IsWarning line ∧ "; dropped".toList <:+ line.toList))

/-! ## Ends of texts

A message is put together from the left, so its last part is what it ends in. -/

theorem ends_append {last : List Char} (front : String) {back : String}
    (h : last <:+ back.toList) : last <:+ (front ++ back).toList := by
  rw [String.toList_append]
  exact h.trans (List.suffix_append _ _)

theorem not_ends_append {last : List Char} (front : String) {back : String}
    (hlength : last.length ≤ back.toList.length) (h : ¬ last <:+ back.toList) :
    ¬ last <:+ (front ++ back).toList := by
  rw [String.toList_append]
  intro hlast
  exact h (List.suffix_of_suffix_length_le hlast (List.suffix_append _ _) hlength)

/-- A number ends in a digit. -/
theorem not_ends_number {letter : Char} (hletter : letter.isDigit = false) (init : List Char)
    (front : String) (n : Nat) : ¬ (init ++ [letter]) <:+ (front ++ toString n).toList := by
  intro hlast
  have hone : [letter] <:+ (front ++ toString n).toList :=
    (List.suffix_append init [letter]).trans hlast
  rw [String.toList_append, Nat.toString_eq_ofList_toDigits, String.toList_ofList] at hone
  have hdigits : [letter] <:+ Nat.toDigits 10 n :=
    List.suffix_of_suffix_length_le hone (List.suffix_append _ _) Nat.length_toDigits_pos
  have hdigit : letter.isDigit = true :=
    Nat.isDigit_of_mem_toDigits (by decide) (by decide) (hdigits.mem List.mem_cons_self)
  exact Bool.noConfusion (hletter.symm.trans hdigit)

end LogLine

namespace Notice

/-- Whether the notice is about a record that no tree will have. -/
def isLoss : Notice → Bool
  | beforeFeature .. | secondBackground _ | stepWithoutBackground _ | stepWithoutContainer _
  | examplesWithoutOutline _ => true
  | _ => false

theorem isWarning_render_iff (notice : Notice) :
    LogLine.IsWarning notice.render ↔ notice.level = .warn := by
  unfold LogLine.IsWarning render
  cases notice.level with
  | warn => simp [Level.name]
  | debug => simp [Level.name]

theorem render_of_message {notice : Notice} {front back : String}
    (h : notice.message = front ++ back) :
    notice.render = notice.level.name ++ " " ++ front ++ back := by
  rw [render, h]
  exact String.append_assoc.symm

/-- A line reports a loss exactly if its notice does. -/
theorem reportsLoss_render_iff (notice : Notice) :
    LogLine.ReportsLoss notice.render ↔ notice.isLoss := by
  unfold LogLine.ReportsLoss
  rw [isWarning_render_iff]
  cases notice with
  | beforeFeature | secondBackground | stepWithoutBackground | stepWithoutContainer
  | examplesWithoutOutline =>
    rw [render_of_message rfl]
    exact iff_of_true ⟨rfl, LogLine.ends_append _ (by decide)⟩ rfl
  | featureOpened | languageChanged | documentEnded | rejected | finished =>
    exact iff_of_false (fun h => nomatch h.1) Bool.false_ne_true
  | secondFeature | examplesWithoutHeader | ruleBackground =>
    rw [render_of_message rfl]
    exact iff_of_false (fun h => LogLine.not_ends_append _ (by decide) (by decide) h.2)
      Bool.false_ne_true
  | headerTooLarge =>
    rw [render_of_message rfl]
    -- The message ends in fewer characters than a loss does, so only the last one is compared.
    exact iff_of_false (fun h => LogLine.not_ends_append _ (by decide) (by decide)
      ((List.suffix_append "; droppe".toList ['d']).trans h.2)) Bool.false_ne_true
  | raggedRow =>
    rw [render_of_message rfl]
    exact iff_of_false (fun h => LogLine.not_ends_number rfl "; droppe".toList _ _ h.2)
      Bool.false_ne_true

theorem not_reportsLoss_of_mem_map {notices : List Notice}
    (h : ∀ notice ∈ notices, notice.isLoss = false) {line : String}
    (hline : line ∈ notices.map render) : ¬ LogLine.ReportsLoss line := by
  obtain ⟨notice, hnotice, rfl⟩ := List.mem_map.mp hline
  rw [notice.reportsLoss_render_iff, h notice hnotice]
  exact Bool.false_ne_true

/-- The warnings among the lines of a log are the lines of the warnings. -/
theorem filter_isWarning_map_render (notices : List Notice) :
    (notices.map Notice.render).filter (LogLine.IsWarning ·) =
      (notices.filter (·.level = .warn)).map Notice.render := by
  rw [List.filter_map]
  refine congrArg (List.map Notice.render) (List.filter_congr ?_)
  intro notice _
  exact decide_eq_decide.mpr notice.isWarning_render_iff

end Notice
end FeatureTree
