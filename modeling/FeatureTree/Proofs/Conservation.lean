import FeatureTree.Proofs.Acceptance
import FeatureTree.Proofs.Routing
import Mathlib.Algebra.GroupWithZero.Nat

/-!
# Counting what arrived

Every event that is for a place of a feature is either in the feature or in the log. **So the events
since the feature opened can be counted without looking at them:** they are as many as the feature
has elements and the log reports losses, at each place and in all.
-/

set_option autoImplicit false

namespace FeatureTree

/-! ## How much a feature has -/

def ChildDraft.tables : ChildDraft → List ExamplesTable
  | scenario .. => []
  | outline _ _ tables => tables

namespace FeatureDraft

/-- How much there is at a place; steps and tables are counted over the whole feature. -/
def count (draft : FeatureDraft) : Place → Nat
  | .background => draft.background.toList.length
  | .children => draft.children.length
  | .steps =>
    (draft.background.elim [] BackgroundDraft.steps).length +
      (draft.children.map fun child => child.steps.length).sum
  | .tables => (draft.children.map fun child => child.tables.length).sum

def size (draft : FeatureDraft) : Nat :=
  draft.count .background + draft.count .children + draft.count .steps + draft.count .tables

/-- Taking an event adds one at its place and none elsewhere: by the ways to take an event, and for
each by the places. -/
theorem Takes.count [PatternEngine] {file : String} {cursor : Option Cursor} {event : Event}
    {draft draft' : FeatureDraft} (h : Takes file cursor event draft draft') (place : Place) :
    draft'.count place = draft.count place + if event.place? = some place then 1 else 0 := by
  cases h with
  | background vacant => cases place <;> simp [FeatureDraft.count, Event.place?, vacant]
  | scenario | outline =>
    cases place <;> simp [FeatureDraft.count, Event.place?, ChildDraft.steps, ChildDraft.tables]
  | backgroundStep declared =>
    cases place <;> simp [FeatureDraft.count, Event.place?, declared]
    omega
  | scenarioStep children | outlineStep children | table children =>
    cases place <;>
      simp [FeatureDraft.count, Event.place?, ChildDraft.steps, ChildDraft.tables, children]
    all_goals omega

theorem Takes.place?_isSome [PatternEngine] {file : String} {cursor : Option Cursor} {event : Event}
    {draft draft' : FeatureDraft} (h : Takes file cursor event draft draft') :
    event.place?.isSome := by
  cases h <;> rfl

theorem Takes.size [PatternEngine] {file : String} {cursor : Option Cursor} {event : Event}
    {draft draft' : FeatureDraft} (h : Takes file cursor event draft draft') :
    draft'.size = draft.size + 1 := by
  unfold FeatureDraft.size
  rw [h.count, h.count, h.count, h.count]
  cases h <;> simp [Event.place?] <;> omega

end FeatureDraft

/-! ## Counting

Events that go to a feature are counted on one side, and on the other what the feature has and what
is lost. The two counts needed, over all places and at one place, differ in which events and notices
count and in what a feature weighs. -/

/-- Taking an event adds its count to the weight of the feature, and nothing else is counted. -/
structure Balances [PatternEngine] (counted : Event → Bool) (lost : Notice → Bool)
    (weight : FeatureDraft → Nat) : Prop where
  event : ∀ event, event.place? = none → counted event = false
  notice : ∀ notice, notice.isLoss = false → lost notice = false
  settle : ∀ draft language, weight (draft.settle language) = weight draft
  takes : ∀ {file cursor event draft draft'}, FeatureDraft.Takes file cursor event draft draft' →
    weight draft' = weight draft + if counted event then 1 else 0

/-- Notices that report no loss do not count on the side of losses. -/
theorem Balances.countP_lost [PatternEngine] {counted : Event → Bool} {lost : Notice → Bool}
    {weight : FeatureDraft → Nat} (hb : Balances counted lost weight) {notices : List Notice}
    (h : ∀ notice ∈ notices, notice.isLoss = false) : notices.countP lost = 0 := by
  refine List.countP_eq_zero.mpr ?_
  intro notice hnotice
  rw [hb.notice notice (h notice hnotice)]
  exact Bool.false_ne_true

namespace Session

variable [PatternEngine] {σ : Type} [DiagnosticSink σ]

/-- An event that is not for a place leaves the feature alone, and nothing is lost. -/
theorem handle_of_no_place (session : Session σ) {event : Event} (hplace : event.place? = none)
    (hf : event.opensFeature = false) :
    (session.handle event).session.draft = session.draft ∧
      ∀ notice ∈ (session.handle event).notices, notice.isLoss = false := by
  cases event with
  | openFeature => exact Bool.noConfusion hf
  | openBackground | openScenario | openOutline | addExamples | addStep => exact nomatch hplace
  | setPath path => exact ⟨rfl, fun _ h => nomatch h⟩
  | setLanguage code =>
    refine ⟨rfl, ?_⟩
    intro notice hnotice
    obtain ⟨previous, -, rfl⟩ := List.mem_map.mp hnotice
    rfl
  | endOfDocument | syntaxError =>
    refine ⟨rfl, ?_⟩
    intro notice hnotice
    rw [List.mem_singleton.mp hnotice]
    rfl

/-- Whether a feature is open changes only when one opens. -/
theorem isSome_draft_call {session : Session σ} (h : session.CursorFits) {c : Call}
    (hc : ∀ event, c = .event event → event.opensFeature = false) :
    (session.call c).session.draft.isSome = session.draft.isSome := by
  cases c with
  | event event =>
    show (session.handle event).session.draft.isSome = _
    by_cases hplace : event.place?.isSome
    · cases h.reacts hplace with
      | taken _ before _ after => rw [before, after]; rfl
      | lost _ same => rw [same]
    · rw [(session.handle_of_no_place (Option.not_isSome_iff_eq_none.mp hplace) (hc event rfl)).1]
  | result =>
    show session.settle.session.draft.isSome = _
    unfold settle
    split
    · next hd => rw [hd]; rfl
    · rfl

section Balance

variable {counted : Event → Bool} {lost : Notice → Bool} {weight : FeatureDraft → Nat}
  (hb : Balances counted lost weight)

include hb

omit [DiagnosticSink σ] in
/-- An answer neither gives a feature an element nor loses one. -/
theorem settle_balance (session : Session σ) :
    session.draft.elim 0 weight =
      session.settle.session.draft.elim 0 weight + session.settle.notices.countP lost := by
  unfold settle
  split
  · next language draft _ hd =>
    have hlost : lost (.finished (Text.trimStart draft.placed.record.name) draft.children.length) =
        false := hb.notice _ rfl
    rw [hd, Option.elim_some, List.countP_singleton, hlost]
    exact (hb.settle draft language).symm
  · rfl

/-- One event: taken, it adds to the feature what it counts for; lost, its one notice counts for the
same. -/
theorem handle_balance {session : Session σ} (h : session.CursorFits) {event : Event}
    (hf : event.opensFeature = false)
    (hlost : ∀ notice : Notice, event.place?.isSome → notice.isLoss →
      (session.draft.isSome → notice.lostFrom? = event.place?) → lost notice = counted event) :
    (if counted event then 1 else 0) + session.draft.elim 0 weight =
      (session.handle event).session.draft.elim 0 weight +
        (session.handle event).notices.countP lost := by
  by_cases hplace : event.place?.isSome
  · cases h.reacts hplace with
    | @taken draft draft' cursor _ before _ after takes notices =>
      rw [before, after, notices, hb.countP_lost fun _ => Event.isLoss_of_mem_remarks]
      show _ + weight draft = weight draft' + 0
      rw [hb.takes takes]
      omega
    | lost _ same notices loss place =>
      rw [same, notices, List.countP_singleton, hlost _ hplace loss place]
      exact Nat.add_comm ..
  · have hnone := Option.not_isSome_iff_eq_none.mp hplace
    obtain ⟨same, hnotices⟩ := session.handle_of_no_place hnone hf
    rw [same, hb.countP_lost hnotices, hb.event event hnone]
    exact Nat.add_comm ..

/-- What balances at every call balances over a run. -/
theorem run_balance {session : Session σ} {calls : List Call} (h : session.CursorFits)
    (hcalls : OpensNoFeature calls)
    (hlost : ∀ event (notice : Notice), event.place?.isSome → notice.isLoss →
      (session.draft.isSome → notice.lostFrom? = event.place?) → lost notice = counted event) :
    (events calls).countP counted + session.draft.elim 0 weight =
      (session.run calls).draft.elim 0 weight + (session.notices calls).countP lost := by
  induction calls generalizing session with
  | nil => exact Nat.add_comm ..
  | cons c calls ih =>
    obtain ⟨hc, hrest⟩ := hcalls.cons
    -- The first call balances by the lemmas above, and the rest by the hypothesis of the induction.
    -- A feature that is open stays open, so what losses count for is the same all along.
    have hone : (events [c]).countP counted + session.draft.elim 0 weight =
        (session.call c).session.draft.elim 0 weight + (session.call c).notices.countP lost := by
      cases c with
      | event event =>
        rw [events_cons_event, events_nil, List.countP_singleton]
        exact handle_balance hb h (hc event rfl) (hlost event)
      | result =>
        rw [events_cons_result, events_nil, List.countP_nil, Nat.zero_add]
        exact settle_balance hb session
    -- Whether a feature is open decides what counts as lost from a place.
    have hsome := isSome_draft_call h hc
    have hrun := ih (h.call c) hrest (by rw [hsome]; exact hlost)
    rw [← List.singleton_append, events_append, List.countP_append]
    show _ = ((session.call c).session.run calls).draft.elim 0 weight +
      ((session.call c).notices ++ (session.call c).session.notices calls).countP lost
    rw [List.countP_append]
    omega

end Balance

/-- How many lines of the log report a loss, while the session takes the calls. -/
def losses (session : Session σ) (calls : List Call) : Nat :=
  ((session.notices calls).map Notice.render).countP (LogLine.ReportsLoss ·)

end Session

/-- Whether the line of a notice reports that a record was lost which was meant for the place. -/
def Notice.IsLossFrom (place : Place) (notice : Notice) : Prop :=
  LogLine.ReportsLoss notice.render ∧ notice.lostFrom? = some place

instance (place : Place) : DecidablePred (Notice.IsLossFrom place) :=
  fun _ => inferInstanceAs (Decidable (_ ∧ _))

/-- Over all places, a feature weighs as much as it has elements. -/
theorem balances_places [PatternEngine] :
    Balances (·.place?.isSome) (fun notice => LogLine.ReportsLoss notice.render)
      FeatureDraft.size where
  event event h := by rw [h]; rfl
  notice notice h := by
    rw [decide_eq_false_iff_not, notice.reportsLoss_render_iff, h]
    exact Bool.false_ne_true
  settle _ _ := rfl
  takes h := by rw [h.size, h.place?_isSome, if_pos rfl]

/-- At one place, losses are told apart by where they are from. -/
theorem balances_place [PatternEngine] (place : Place) :
    Balances (fun event => event.place? = some place) (fun notice => notice.IsLossFrom place)
      (·.count place) where
  event event h := by rw [h]; rfl
  notice notice h := by
    rw [decide_eq_false_iff_not, Notice.IsLossFrom, notice.reportsLoss_render_iff, h]
    exact fun hloss => Bool.false_ne_true hloss.1
  settle _ _ := by cases place <;> rfl
  takes h := by simp only [h.count, decide_eq_true_eq]

namespace Session

variable [PatternEngine] {σ : Type} [DiagnosticSink σ]

theorem countP_places {session : Session σ} {calls : List Call} (h : session.CursorFits)
    (hcalls : OpensNoFeature calls) :
    (events calls).countP (·.place?.isSome) + session.draft.elim 0 FeatureDraft.size =
      (session.run calls).draft.elim 0 FeatureDraft.size + session.losses calls := by
  unfold losses
  rw [List.countP_map]
  refine run_balance balances_places h hcalls ?_
  intro event notice hplace hloss _
  rw [hplace]
  exact decide_eq_true (notice.reportsLoss_render_iff.mpr hloss)

/-- At one place the counts agree if a feature is open; before that no loss is from a place. -/
theorem countP_place {session : Session σ} {calls : List Call} (h : session.CursorFits)
    (hopen : session.draft.isSome) (hcalls : OpensNoFeature calls) (place : Place) :
    (events calls).countP (·.place? = some place) + session.draft.elim 0 (·.count place) =
      (session.run calls).draft.elim 0 (·.count place) +
        (session.notices calls).countP (·.IsLossFrom place) := by
  refine run_balance (balances_place place) h hcalls ?_
  intro event notice _ hloss hfrom
  rw [decide_eq_decide, Notice.IsLossFrom, notice.reportsLoss_render_iff, hfrom hopen]
  exact and_iff_right hloss

/-- **Taken or dropped.** An event for a place of a feature is one or the other, and which is decided
by what there is. So the events since the feature opened are as many as the feature has elements and
the log reports losses, at each place and in all. -/
theorem accepts_or_drops (settings : Settings) (sink : σ) (calls : List Call) :
    let session := (start settings sink).run calls
    (∀ event, event.place?.isSome →
      (session.Accepts event ∨ session.Drops event) ∧
      ¬ (session.Accepts event ∧ session.Drops event) ∧
      (session.Drops event ↔ session.Refuses event)) ∧
    (OpensNoFeature calls →
      (events calls).countP (·.place?.isSome) = (start settings sink).losses calls) ∧
    ∀ before record after, calls = before ++ .event (.openFeature record) :: after →
      OpensNoFeature after →
      let opened := (start settings sink).run (before ++ [.event (.openFeature record)])
      ∃ draft, session.draft = some draft ∧
        (events after).countP (·.place?.isSome) = draft.size + opened.losses after ∧
        ∀ place, (events after).countP (·.place? = some place) =
          draft.count place + (opened.notices after).countP (·.IsLossFrom place) := by
  intro session
  have hfits : session.CursorFits := (cursorFits_start settings sink).run calls
  refine ⟨?_, ?_, ?_⟩
  · intro event hplace
    have hreacts := hfits.reacts hplace
    have hnot := session.not_accepts_and_drops event
    refine ⟨?_, hnot, ?_, hreacts.drops⟩
    · by_cases hrefuses : session.Refuses event
      · exact .inr (hreacts.drops hrefuses)
      · exact .inl (hreacts.accepts hrefuses)
    · intro hdrops
      by_contra haccepts
      exact hnot ⟨hreacts.accepts haccepts, hdrops⟩
  · intro hnone
    have hcount := countP_places (cursorFits_start settings sink) hnone
    have hdraft := (draft_run_start_eq_none_iff settings sink calls).mpr hnone
    rw [hdraft] at hcount
    exact hcount.trans (Nat.zero_add _)
  · rintro before record after rfl hafter opened
    have hopened : opened.CursorFits := (cursorFits_start settings sink).run _
    -- A feature opens with nothing in it, so the counts start at zero on both sides.
    have hempty : opened.draft = some { placed := ⟨settings.fileAfter before, record⟩ } := by
      show ((start settings sink).run (before ++ _)).draft = _
      rw [run_append, ← path_run_start settings sink before]
      rfl
    have hrun : session = opened.run after := by
      rw [← run_append, List.append_assoc, List.singleton_append]
    obtain ⟨settled, hd⟩ :=
      ((start settings sink).run before).draft_run_openFeature record hafter
    rw [← run_append] at hd
    refine ⟨_, hd, ?_, ?_⟩
    · have hcount := countP_places hopened hafter
      rw [← hrun, hd, hempty] at hcount
      exact hcount
    · intro place
      have hcount := countP_place hopened (by rw [hempty]; rfl) hafter place
      rw [← hrun, hd, hempty] at hcount
      cases place <;> exact hcount

/-- A second background is no container, so a step below it is dropped. -/
theorem drops_step_below_second_background :
    let opening : Record := { line := 1, keyword := "Feature", name := "" }
    let background : Record := { line := 2, keyword := "Background", name := "" }
    let step : Record := { line := 4, keyword := "Given ", name := "a step" }
    let calls : List Call := [.event (.openFeature opening), .event (.openBackground background),
      .event (.openBackground { background with line := 3 })]
    (Event.addStep step).place?.isSome ∧
      ((start {} IgnoreErrors.mk).run calls).Drops (.addStep step) := by
  intro opening background step calls
  have hplace : (Event.addStep step).place?.isSome := rfl
  have hrefuses : ((start {} IgnoreErrors.mk).run calls).Refuses (.addStep step) := .inr rfl
  exact ⟨hplace, ((accepts_or_drops {} IgnoreErrors.mk calls).1 _ hplace).2.2.mpr hrefuses⟩

end Session
end FeatureTree
