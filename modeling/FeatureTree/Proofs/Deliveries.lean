import FeatureTree.Proofs.Conservation

/-!
# What steps and examples can reach

The cursor is a bare index, kept apart from the list that it is an index of. **It is the index of the
last child at all times, or it stands for a background that there is.** So what a step or an examples
block is for is always found, and the answer that a session has for a background that is not there
is never given.

It follows that the children before the last one are finished. No event reaches them, and they stay
as they are for as long as the feature is open.
-/

set_option autoImplicit false

namespace FeatureTree

/-- Whatever a feature takes, there is no change before its last child. -/
theorem FeatureDraft.Takes.dropLast_isPrefix [PatternEngine] {file : String}
    {cursor : Option Cursor} {event : Event} {draft draft' : FeatureDraft} (h : Takes file cursor event draft draft') :
    draft.children.dropLast <+: draft'.children.dropLast := by
  cases h with
  | background | backgroundStep => exact List.prefix_rfl
  | scenario | outline =>
    rw [List.dropLast_concat]
    exact List.dropLast_prefix _
  | scenarioStep children | outlineStep children | table children =>
    simp only [children, List.dropLast_concat, List.prefix_rfl]

/-- A step or a block goes behind what is there, in the last child if in any. -/
theorem FeatureDraft.Takes.same_children [PatternEngine] {file : String} {cursor : Option Cursor}
    {event : Event} {draft draft' : FeatureDraft} (h : Takes file cursor event draft draft')
    (hadds : event.step?.isSome ∨ event.block?.isSome) :
    draft'.children.length = draft.children.length ∧
      draft'.children.dropLast = draft.children.dropLast := by
  cases h with
  | background | scenario | outline => simp [Event.step?, Event.block?] at hadds
  | backgroundStep => exact ⟨rfl, rfl⟩
  | scenarioStep children | outlineStep children | table children =>
    rw [children, List.dropLast_concat, List.dropLast_concat, List.length_append,
      List.length_append]
    exact ⟨rfl, rfl⟩

namespace Session

variable {σ : Type}

/-- The cursor is at something that is there, and at no child but the last. -/
structure CursorAtEnd (session : Session σ) : Prop where
  nowhere : session.draft = none → session.cursor = none
  background : session.cursor = some .background →
    ∃ draft background, session.draft = some draft ∧ draft.background = some background
  child : ∀ index, session.cursor = some (.child index) →
    ∃ draft child, session.draft = some draft ∧ index + 1 = draft.children.length ∧
      draft.children[index]? = some child

theorem CursorFits.atEnd {session : Session σ} (h : session.CursorFits) : session.CursorAtEnd := by
  unfold CursorFits at h
  -- In each case one side is known, and the other has to be a variable to be told by the first.
  constructor
  · intro hd
    rw [hd] at h
    generalize session.cursor = cursor at h ⊢
    cases h
    rfl
  · intro hc
    rw [hc] at h
    generalize session.draft = draft at h ⊢
    cases h with
    | background declared => exact ⟨_, _, rfl, declared⟩
  · intro index hc
    rw [hc] at h
    generalize session.draft = draft at h ⊢
    cases h with
    | child children =>
      refine ⟨_, _, rfl, ?_, FeatureDraft.getElem?_last children⟩
      rw [children, List.length_append, List.length_singleton]

variable [PatternEngine] [DiagnosticSink σ]

/-! ## Lookups -/

/-- A step is lost only where there is no cursor. -/
theorem CursorFits.notices_addStep {session : Session σ} {draft : FeatureDraft}
    (h : session.CursorFits) (hd : session.draft = some draft) (record : Record) :
    (session.handle (.addStep record)).notices =
      if session.cursor.isSome then [] else [.stepWithoutContainer record.line] := by
  cases hc : session.cursor with
  | none =>
    rw [handle_addStep hd, addStep, hc]
    rfl
  | some cursor =>
    -- With a cursor the session has a place for the step, so the second way to react is none.
    cases reacts_addStep record h hd with
    | taken _ _ _ _ _ notices => exact notices
    | lost refuses =>
      rcases refuses with hnone | hnone
      · exact nomatch hd.symm.trans hnone
      · exact nomatch hc.symm.trans hnone

/-- What is lost on its way to another place is not reported as a step. -/
theorem CursorFits.stepWithoutBackground_notMem_of_place {session : Session σ}
    (h : session.CursorFits) (hopen : session.draft.isSome) {event : Event}
    (hplace : event.place?.isSome) (hother : event.place? ≠ some .steps) (line : Nat) :
    .stepWithoutBackground line ∉ (session.handle event).notices := by
  intro hmem
  cases h.reacts hplace with
  | taken _ _ _ _ _ notices =>
    rw [notices] at hmem
    exact Bool.noConfusion (Event.isLoss_of_mem_remarks hmem)
  | lost _ _ notices _ place =>
    rw [notices, List.mem_singleton] at hmem
    have hfrom := place hopen
    rw [← hmem] at hfrom
    exact hother hfrom.symm

theorem CursorFits.stepWithoutBackground_notMem_handle {session : Session σ}
    (h : session.CursorFits) (event : Event) (line : Nat) :
    .stepWithoutBackground line ∉ (session.handle event).notices := by
  cases hd : session.draft with
  -- Before the first feature the one notice says so and names no place; behind it what is lost says
  -- which place it was meant for.
  | none => cases event <;> simp [Session.handle, Session.inFeature, Session.drop, hd]
  | some draft =>
    have hopen := Option.isSome_of_eq_some hd
    cases event with
    | setPath | setLanguage | openFeature | endOfDocument | syntaxError => simp [Session.handle]
    | openBackground | openScenario | openOutline | addExamples =>
      exact h.stepWithoutBackground_notMem_of_place hopen rfl (by simp [Event.place?]) line
    | addStep record =>
      rw [h.notices_addStep hd]
      split <;> simp

omit [PatternEngine] [DiagnosticSink σ] in
theorem stepWithoutBackground_notMem_settle (session : Session σ) (line : Nat) :
    .stepWithoutBackground line ∉ session.settle.notices := by
  unfold settle
  split <;> simp

theorem CursorFits.stepWithoutBackground_notMem_notices {session : Session σ}
    (h : session.CursorFits) (calls : List Call) (line : Nat) :
    .stepWithoutBackground line ∉ session.notices calls := by
  induction calls generalizing session with
  | nil => exact List.not_mem_nil
  | cons c calls ih =>
    have hnow : .stepWithoutBackground line ∉ (session.call c).notices := by
      cases c with
      | event event => exact h.stepWithoutBackground_notMem_handle event line
      | result => exact session.stepWithoutBackground_notMem_settle line
    show _ ∉ (session.call c).notices ++ (session.call c).session.notices calls
    rw [List.mem_append]
    rintro (hmem | hmem)
    · exact hnow hmem
    · exact ih (h.call c) hmem

/-! ## Children that are finished -/

theorem CursorFits.dropLast_isPrefix_call {session : Session σ} {draft : FeatureDraft}
    (h : session.CursorFits) (hd : session.draft = some draft) {c : Call}
    (hc : ∀ event, c = .event event → event.opensFeature = false) :
    ∃ draft', (session.call c).session.draft = some draft' ∧
      draft.children.dropLast <+: draft'.children.dropLast := by
  cases c with
  | event event =>
    show ∃ draft', (session.handle event).session.draft = some draft' ∧ _
    by_cases hplace : event.place?.isSome
    -- What is taken goes behind the finished children, and what is lost changes nothing.
    · cases h.reacts hplace with
      | taken _ before _ after takes =>
        obtain rfl := Option.some.inj (hd.symm.trans before)
        exact ⟨_, after, takes.dropLast_isPrefix⟩
      | lost _ same => exact ⟨draft, same.trans hd, List.prefix_rfl⟩
    · have hnone := Option.not_isSome_iff_eq_none.mp hplace
      obtain ⟨same, -⟩ := session.handle_of_no_place hnone (hc event rfl)
      exact ⟨draft, same.trans hd, List.prefix_rfl⟩
  | result =>
    show ∃ draft', session.settle.session.draft = some draft' ∧ _
    unfold Session.settle
    split
    · next hd' =>
      obtain rfl := Option.some.inj (hd.symm.trans hd')
      exact ⟨_, rfl, List.prefix_rfl⟩
    · exact ⟨draft, hd, List.prefix_rfl⟩

theorem CursorFits.dropLast_isPrefix_run {session : Session σ} {draft : FeatureDraft}
    (h : session.CursorFits) (hd : session.draft = some draft) {calls : List Call}
    (hcalls : OpensNoFeature calls) :
    ∃ draft', (session.run calls).draft = some draft' ∧
      draft.children.dropLast <+: draft'.children.dropLast := by
  induction calls generalizing session draft with
  | nil => exact ⟨draft, hd, List.prefix_rfl⟩
  | cons c calls ih =>
    obtain ⟨hc, hrest⟩ := hcalls.cons
    obtain ⟨middle, hmiddle, hfirst⟩ := h.dropLast_isPrefix_call hd hc
    obtain ⟨draft', hd', hlater⟩ := ih (h.call c) hmiddle hrest
    exact ⟨draft', hd', hfirst.trans hlater⟩

/-- **The cursor is at the last child or at the background.** Steps and examples therefore find what
they are for, unless there is no cursor, and reach no other child than the last: they add to that
child or to the background, or are lost. A child that another one follows is never touched again. -/
theorem cursor_run_start (settings : Settings) (sink : σ) (calls : List Call) :
    let session := (start settings sink).run calls
    session.CursorAtEnd ∧
    (∀ line, .stepWithoutBackground line ∉ (start settings sink).notices calls) ∧
    ∀ draft, session.draft = some draft →
      (∀ record, (session.handle (.addStep record)).notices =
        if session.cursor.isSome then [] else [.stepWithoutContainer record.line]) ∧
      (∀ event, event.step?.isSome ∨ event.block?.isSome →
        ∃ draft', (session.handle event).session.draft = some draft' ∧
          (draft' = draft ∨ draft.Takes session.path session.cursor event draft') ∧
          draft'.children.length = draft.children.length ∧
          draft'.children.dropLast = draft.children.dropLast) ∧
      ∀ later, OpensNoFeature later →
        ∃ draft', (session.run later).draft = some draft' ∧
          draft.children.dropLast <+: draft'.children.dropLast := by
  intro session
  have hfits : session.CursorFits := (cursorFits_start settings sink).run calls
  refine ⟨hfits.atEnd, ?_, ?_⟩
  · exact (cursorFits_start settings sink).stepWithoutBackground_notMem_notices calls
  · intro draft hd
    refine ⟨hfits.notices_addStep hd, ?_, ?_⟩
    · intro event hadds
      have hplace : event.place?.isSome := by
        cases event <;> simp [Event.step?, Event.block?, Event.place?] at hadds ⊢
      cases hfits.reacts hplace with
      | @taken _ draft' cursor _ before current after takes =>
        obtain rfl := Option.some.inj (hd.symm.trans before)
        exact ⟨draft', after, .inr (current ▸ takes), takes.same_children hadds⟩
      | lost _ same => exact ⟨draft, same.trans hd, .inl rfl, rfl, rfl⟩
    · intro later hlater
      exact hfits.dropLast_isPrefix_run hd hlater

/-- Behind a second outline the cursor is at index one, and what follows leaves the first outline
alone. -/
theorem cursor_behind_second_outline :
    let opening : Record := { line := 1, keyword := "Feature", name := "" }
    let outline : Record := { line := 2, keyword := "Scenario Outline", name := "an outline" }
    let step : Record := { line := 3, keyword := "Given ", name := "a step" }
    let calls : List Call := [.event (.openFeature opening), .event (.openOutline outline),
      .event (.addStep step), .result, .event (.openOutline { outline with line := 5 })]
    let later : List Call := [.event (.addStep { step with line := 6 }),
      .event (.openBackground { line := 7, keyword := "Background", name := "" }),
      .event (.addExamples { line := 8, keyword := "Examples", name := "" })]
    let session := (start {} IgnoreErrors.mk).run calls
    session.cursor = some (.child 1) ∧ OpensNoFeature later ∧
      ∃ draft, session.draft = some draft ∧ draft.children.length = 2 ∧
        (session.handle (.addStep step)).notices = [] ∧
        ∃ draft', (session.run later).draft = some draft' ∧
          draft.children.dropLast <+: draft'.children.dropLast := by
  intro opening outline step calls later session
  have hcursor : session.cursor = some (.child 1) := rfl
  have hlater : OpensNoFeature later := by simp [OpensNoFeature, later]
  obtain ⟨hend, -, hopen⟩ := cursor_run_start {} IgnoreErrors.mk calls
  obtain ⟨draft, _, hd, hlength, -⟩ := hend.child 1 hcursor
  obtain ⟨hnotices, -, hfinished⟩ := hopen draft hd
  exact ⟨hcursor, hlater, draft, hd, hlength.symm, hnotices step, hfinished later hlater⟩

end Session
end FeatureTree
