import FeatureTree.Proofs.Cursor
import FeatureTree.Proofs.LogLines

/-!
# Taken or dropped

An event that opens or adds something inside a feature has one of two effects. It puts one element
at the end of one place of the open feature, or it leaves the feature alone and says so in one
warning. **Nothing is taken twice, nothing is taken and reported lost, and nothing is lost in
silence.**
-/

set_option autoImplicit false

namespace FeatureTree

/-! ## Places -/

/-- The places of a feature that records go to. -/
inductive Place where
  | background
  | children
  | steps
  | tables
deriving DecidableEq, Repr

/-- The place that the event is meant for, if it is for a place inside a feature. -/
def Event.place? : Event → Option Place
  | openBackground _ => some .background
  | openScenario _ | openOutline _ => some .children
  | addStep _ => some .steps
  | addExamples _ => some .tables
  | _ => none

/-- The place that the lost record was meant for, where that is a place of the open feature. -/
def Notice.lostFrom? : Notice → Option Place
  | secondBackground _ => some .background
  | stepWithoutBackground _ | stepWithoutContainer _ => some .steps
  | examplesWithoutOutline _ => some .tables
  | _ => none

namespace FeatureDraft

/-- The feature after it has taken an event: there is one element more at the end of one place, and
all else is as before. The file is that of the event's record. -/
inductive Takes [PatternEngine] (file : String) :
    Option Cursor → Event → FeatureDraft → FeatureDraft → Prop
  | background {cursor : Option Cursor} {record : Record} {draft : FeatureDraft}
      (vacant : draft.background = none) :
      Takes file cursor (.openBackground record) draft
        { draft with background := some ⟨⟨file, record⟩, []⟩ }
  | scenario {cursor : Option Cursor} {record : Record} {draft : FeatureDraft} :
      Takes file cursor (.openScenario record) draft
        { draft with children := draft.children ++ [.scenario ⟨file, record⟩ []] }
  | outline {cursor : Option Cursor} {record : Record} {draft : FeatureDraft} :
      Takes file cursor (.openOutline record) draft
        { draft with children := draft.children ++ [.outline ⟨file, record⟩ [] []] }
  | backgroundStep {record : Record} {draft : FeatureDraft} {placed : Placed}
      {steps : List Placed} (declared : draft.background = some ⟨placed, steps⟩) :
      Takes file (some .background) (.addStep record) draft
        { draft with background := some ⟨placed, steps ++ [⟨file, record⟩]⟩ }
  | scenarioStep {record : Record} {draft : FeatureDraft} {front : List ChildDraft}
      {placed : Placed} {steps : List Placed}
      (children : draft.children = front ++ [.scenario placed steps]) :
      Takes file (some (.child front.length)) (.addStep record) draft
        { draft with children := front ++ [.scenario placed (steps ++ [⟨file, record⟩])] }
  | outlineStep {record : Record} {draft : FeatureDraft} {front : List ChildDraft}
      {placed : Placed} {steps : List Placed} {tables : List ExamplesTable}
      (children : draft.children = front ++ [.outline placed steps tables]) :
      Takes file (some (.child front.length)) (.addStep record) draft
        { draft with children := front ++ [.outline placed (steps ++ [⟨file, record⟩]) tables] }
  | table {record : Record} {draft : FeatureDraft} {front : List ChildDraft}
      {placed : Placed} {steps : List Placed} {tables : List ExamplesTable}
      (children : draft.children = front ++ [.outline placed steps tables]) :
      Takes file (some (.child front.length)) (.addExamples record) draft
        { draft with
          children := front ++ [.outline placed steps (tables ++ [.ofPlaced ⟨file, record⟩])] }

/-- The last child is the one that a lookup at its position finds. -/
theorem getElem?_last {draft : FeatureDraft} {front : List ChildDraft} {last : ChildDraft}
    (children : draft.children = front ++ [last]) : draft.children[front.length]? = some last := by
  rw [children]
  exact List.getElem?_concat_length

theorem set_last {draft : FeatureDraft} {front : List ChildDraft} {last : ChildDraft}
    (children : draft.children = front ++ [last]) (child : ChildDraft) :
    draft.children.set front.length child = front ++ [child] := by
  rw [children, List.set_append_right _ _ (Nat.le_refl _), Nat.sub_self]
  rfl

end FeatureDraft

/-! ## One event -/

/-- What there is to say about an event that is taken into a feature. -/
def Event.remarks [PatternEngine] (file : String) : Event → List Notice
  | addExamples record => ExamplesTable.notices ⟨file, record⟩
  | _ => []

theorem Header.isLoss_of_mem_notices [PatternEngine] {header : Header} {notice : Notice}
    (h : notice ∈ header.notices) : notice.isLoss = false := by
  unfold notices at h
  split at h
  · exact nomatch h
  · rw [List.mem_singleton.mp h]
    rfl

theorem Header.isLoss_of_mem_rowNotices {header : Header} {cells : List String}
    {location : Location} {notice : Notice} (h : notice ∈ header.rowNotices cells location) :
    notice.isLoss = false := by
  unfold rowNotices at h
  split at h
  · exact nomatch h
  · rw [List.mem_singleton.mp h]
    rfl

/-- A header that is missing or too large and a row of the wrong length are worth saying, but nothing
is lost by them. -/
theorem ExamplesTable.isLoss_of_mem_notices [PatternEngine] {placed : Placed} {notice : Notice}
    (h : notice ∈ ExamplesTable.notices placed) : notice.isLoss = false := by
  unfold ExamplesTable.notices at h
  cases hrows : placed.record.rows with
  | nil =>
    rw [hrows] at h
    rw [List.mem_singleton.mp h]
    rfl
  | cons first rows =>
    rw [hrows] at h
    rcases List.mem_append.mp h with hheader | hrows
    · exact Header.isLoss_of_mem_notices hheader
    · obtain ⟨row, -, hrow⟩ := List.mem_flatMap.mp hrows
      exact Header.isLoss_of_mem_rowNotices hrow

theorem Event.isLoss_of_mem_remarks [PatternEngine] {file : String} {event : Event}
    {notice : Notice} (h : notice ∈ event.remarks file) : notice.isLoss = false := by
  cases event with
  | addExamples record => exact ExamplesTable.isLoss_of_mem_notices h
  | _ => exact nomatch h

namespace Session

variable {σ : Type}

/-- The child that steps and examples go to at the moment. -/
def currentChild? (session : Session σ) : Option ChildDraft :=
  match session.draft, session.cursor with
  | some draft, some (.child index) => draft.children[index]?
  | _, _ => none

/-- The session has no place for the event. -/
def Refuses (session : Session σ) (event : Event) : Prop :=
  session.draft = none ∨
    match event with
    | .openBackground _ => ∃ draft, session.draft = some draft ∧ draft.background.isSome
    | .addStep _ => session.cursor = none
    | .addExamples _ => ¬ session.currentChild?.any ChildDraft.isOutline
    | _ => False

/-- A child is refused for want of a feature and for no other reason. -/
theorem not_refuses_child {session : Session σ} {event : Event} (hd : session.draft.isSome)
    (hchild : event.place? = some .children) : ¬ session.Refuses event := by
  rintro (hnone | hrefuses)
  · exact Option.isSome_iff_ne_none.mp hd hnone
  · cases event with
    | openScenario | openOutline => exact hrefuses
    | _ => simp [Event.place?] at hchild

theorem not_refuses_background {session : Session σ} {draft : FeatureDraft}
    (hd : session.draft = some draft) (hvacant : draft.background = none) (record : Record) :
    ¬ session.Refuses (.openBackground record) := by
  rintro (hnone | ⟨other, hother, hsome⟩)
  · exact nomatch hd.symm.trans hnone
  · obtain rfl := Option.some.inj (hd.symm.trans hother)
    rw [hvacant] at hsome
    exact Bool.noConfusion hsome

variable [PatternEngine] [DiagnosticSink σ]

/-- What becomes of an event that is meant for a place: the feature takes it, or it is lost with one
notice. -/
inductive Reacts (session : Session σ) (event : Event) : Prop
  | taken {draft draft' : FeatureDraft} {cursor : Option Cursor}
      (accepts : ¬ session.Refuses event) (before : session.draft = some draft)
      (current : session.cursor = cursor)
      (after : (session.handle event).session.draft = some draft')
      (takes : draft.Takes session.path cursor event draft')
      (notices : (session.handle event).notices = event.remarks session.path)
  | lost {notice : Notice} (refuses : session.Refuses event)
      (same : (session.handle event).session.draft = session.draft)
      (notices : (session.handle event).notices = [notice]) (loss : notice.isLoss = true)
      (place : session.draft.isSome → notice.lostFrom? = event.place?)

/-- Before the first feature all events for a place are lost alike. Their notice names no place, as
there is none. -/
theorem Reacts.of_no_feature {session : Session σ} {event : Event} {line : Nat}
    {react : FeatureDraft → Reaction σ}
    (hhandle : session.handle event = session.inFeature event line react)
    (hd : session.draft = none) : session.Reacts event := by
  have hdrop : session.handle event = session.drop (.beforeFeature event.name line) := by
    rw [hhandle, inFeature, hd]
  refine .lost (.inl hd) ?_ (by rw [hdrop]; rfl) rfl ?_
  · rw [hdrop]
    rfl
  · rw [hd]
    exact fun h => Bool.noConfusion h

/-- The two cases are those of the reaction: the place is vacant or taken. -/
theorem reacts_openBackground {session : Session σ} {draft : FeatureDraft} (record : Record)
    (hd : session.draft = some draft) : session.Reacts (.openBackground record) := by
  have hhandle := handle_openBackground hd record
  unfold openBackground at hhandle
  cases hb : draft.background with
  | none =>
    rw [hb] at hhandle
    have haccepts := not_refuses_background hd hb record
    exact .taken haccepts hd rfl (congrArg (·.session.draft) hhandle) (.background hb)
      (congrArg Reaction.notices hhandle)
  | some background =>
    rw [hb] at hhandle
    have hrefuses : session.Refuses (.openBackground record) :=
      .inr ⟨draft, hd, by rw [hb]; rfl⟩
    exact .lost hrefuses (congrArg (·.session.draft) hhandle)
      (congrArg Reaction.notices hhandle) rfl fun _ => rfl

theorem reacts_openScenario {session : Session σ} {draft : FeatureDraft} (record : Record)
    (hd : session.draft = some draft) : session.Reacts (.openScenario record) := by
  have hhandle := handle_openScenario hd record
  have haccepts : ¬ session.Refuses (.openScenario record) :=
    not_refuses_child (Option.isSome_iff_exists.mpr ⟨draft, hd⟩) rfl
  exact .taken haccepts hd rfl (congrArg (·.session.draft) hhandle) .scenario
    (congrArg Reaction.notices hhandle)

theorem reacts_openOutline {session : Session σ} {draft : FeatureDraft} (record : Record)
    (hd : session.draft = some draft) : session.Reacts (.openOutline record) := by
  have hhandle := handle_openOutline hd record
  have haccepts : ¬ session.Refuses (.openOutline record) :=
    not_refuses_child (Option.isSome_iff_exists.mpr ⟨draft, hd⟩) rfl
  exact .taken haccepts hd rfl (congrArg (·.session.draft) hhandle) .outline
    (congrArg Reaction.notices hhandle)

/-- By what the cursor is at. That it fits rules out the lookups that find nothing, so that no step
is lost behind an open container. -/
theorem reacts_addStep {session : Session σ} {draft : FeatureDraft} (record : Record)
    (h : session.CursorFits) (hd : session.draft = some draft) :
    session.Reacts (.addStep record) := by
  have hhandle := handle_addStep hd record
  -- The notice is looked at in the reaction and the draft in what the cursor is at, case by case.
  unfold addStep at hhandle
  unfold CursorFits at h
  rw [hd] at h
  cases hc : session.cursor with
  | none =>
    rw [hc] at hhandle
    exact .lost (.inr hc) (congrArg (·.session.draft) hhandle)
      (congrArg Reaction.notices hhandle) rfl fun _ => rfl
  | some cursor =>
    have haccepts : ¬ session.Refuses (.addStep record) := by
      rintro (hnone | hnone)
      · exact nomatch hd.symm.trans hnone
      · exact nomatch hc.symm.trans hnone
    rw [hc] at h hhandle
    cases h with
    | @background _ background declared =>
      simp only [declared] at hhandle
      exact .taken haccepts hd hc (congrArg (·.session.draft) hhandle) (.backgroundStep declared)
        (congrArg Reaction.notices hhandle)
    | @child _ front last children =>
      simp only [FeatureDraft.getElem?_last children, FeatureDraft.set_last children] at hhandle
      cases last with
      | scenario placed steps =>
        exact .taken haccepts hd hc (congrArg (·.session.draft) hhandle) (.scenarioStep children)
          (congrArg Reaction.notices hhandle)
      | outline placed steps tables =>
        exact .taken haccepts hd hc (congrArg (·.session.draft) hhandle) (.outlineStep children)
          (congrArg Reaction.notices hhandle)

/-- Four ways to lose the examples and one to take them: the last child has to be an outline and the
cursor at it. -/
theorem reacts_addExamples {session : Session σ} {draft : FeatureDraft} (record : Record)
    (h : session.CursorFits) (hd : session.draft = some draft) :
    session.Reacts (.addExamples record) := by
  have hhandle := handle_addExamples hd record
  unfold addExamples at hhandle
  unfold CursorFits at h
  rw [hd] at h
  -- Unless there is an outline, the examples are lost.
  have hlost : ∀ child?, session.currentChild? = child? → ¬ child?.any ChildDraft.isOutline →
      session.handle (.addExamples record) =
        session.drop (.examplesWithoutOutline record.line) →
      session.Reacts (.addExamples record) := by
    rintro _ rfl hnot hdrop
    exact .lost (.inr hnot) (congrArg (·.session.draft) hdrop)
      (congrArg Reaction.notices hdrop) rfl fun _ => rfl
  cases hc : session.cursor with
  | none =>
    rw [hc] at hhandle
    refine hlost none ?_ Bool.false_ne_true hhandle
    rw [currentChild?, hd, hc]
  | some cursor =>
    rw [hc] at h hhandle
    cases h with
    | background declared =>
      refine hlost none ?_ Bool.false_ne_true hhandle
      rw [currentChild?, hd, hc]
    | @child _ front last children =>
      have hcurrent : session.currentChild? = some last := by
        rw [currentChild?, hd, hc]
        exact FeatureDraft.getElem?_last children
      simp only [FeatureDraft.getElem?_last children, FeatureDraft.set_last children] at hhandle
      cases last with
      | scenario placed steps => exact hlost _ hcurrent Bool.false_ne_true hhandle
      | outline placed steps tables =>
        have haccepts : ¬ session.Refuses (.addExamples record) := by
          rintro (hnone | hnot)
          · exact nomatch hd.symm.trans hnone
          · exact hnot (by rw [hcurrent]; rfl)
        exact .taken haccepts hd hc (congrArg (·.session.draft) hhandle) (.table children)
          (congrArg Reaction.notices hhandle)

/-- **What an event can do to a feature.** -/
theorem CursorFits.reacts {session : Session σ} (h : session.CursorFits) {event : Event}
    (hplace : event.place?.isSome) : session.Reacts event := by
  -- Without a feature all events are lost in one way. With one, each kind has its own.
  cases hd : session.draft with
  | none =>
    cases event with
    | setPath | setLanguage | openFeature | endOfDocument | syntaxError =>
      exact Bool.noConfusion hplace
    | _ => exact .of_no_feature rfl hd
  | some draft =>
    cases event with
    | setPath | setLanguage | openFeature | endOfDocument | syntaxError =>
      exact Bool.noConfusion hplace
    | openBackground record => exact reacts_openBackground record hd
    | openScenario record => exact reacts_openScenario record hd
    | openOutline record => exact reacts_openOutline record hd
    | addStep record => exact reacts_addStep record h hd
    | addExamples record => exact reacts_addExamples record h hd

/-! ## What the log says of it -/

/-- The event is taken, and the log reports no loss. -/
structure Accepts (session : Session σ) (event : Event) : Prop where
  takes : ∃ draft draft', session.draft = some draft ∧
    (session.handle event).session.draft = some draft' ∧
    draft.Takes session.path session.cursor event draft'
  silent : ∀ line ∈ (session.handle event).notices.map Notice.render, ¬ LogLine.ReportsLoss line

/-- The feature stays as it is, and the one warning in the log reports a loss. -/
structure Drops (session : Session σ) (event : Event) : Prop where
  same : (session.handle event).session.draft = session.draft
  warning : ∃ line,
    ((session.handle event).notices.map Notice.render).filter (LogLine.IsWarning ·) = [line] ∧
    LogLine.ReportsLoss line

/-- The two effects exclude each other by the log alone. -/
theorem not_accepts_and_drops (session : Session σ) (event : Event) :
    ¬ (session.Accepts event ∧ session.Drops event) := by
  rintro ⟨haccepts, hdrops⟩
  obtain ⟨line, hwarnings, hloss⟩ := hdrops.warning
  have hline : line ∈ (session.handle event).notices.map Notice.render :=
    (List.mem_filter.mp (hwarnings ▸ List.mem_cons_self)).1
  exact haccepts.silent line hline hloss

/-- Taken events say at most what is wrong with their examples, and none of that is a loss. -/
theorem Reacts.accepts {session : Session σ} {event : Event} (h : session.Reacts event)
    (haccepts : ¬ session.Refuses event) : session.Accepts event := by
  cases h with
  | lost refuses => exact absurd refuses haccepts
  | @taken draft draft' _ _ before current after takes notices =>
    refine ⟨⟨draft, draft', before, after, current ▸ takes⟩, ?_⟩
    intro line hline
    rw [notices] at hline
    exact Notice.not_reportsLoss_of_mem_map (fun _ => Event.isLoss_of_mem_remarks) hline

theorem Reacts.drops {session : Session σ} {event : Event} (h : session.Reacts event)
    (hrefuses : session.Refuses event) : session.Drops event := by
  cases h with
  | taken accepts => exact absurd hrefuses accepts
  | @lost notice _ same notices loss _ =>
    have hloss : LogLine.ReportsLoss notice.render := notice.reportsLoss_render_iff.mpr loss
    refine ⟨same, notice.render, ?_, hloss⟩
    rw [notices, List.map_singleton]
    refine List.filter_eq_self.mpr ?_
    intro line hline
    rw [List.mem_singleton.mp hline]
    exact decide_eq_true hloss.1

end Session

end FeatureTree
