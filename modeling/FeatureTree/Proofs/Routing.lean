import FeatureTree.Proofs.Arrivals
import Mathlib.Data.List.Basic

/-!
# Routing

What answer a session gives, and of which records the tree in it is made, for every list of calls in
any order. **A session answers as soon as it knows a language; the tree is that of the feature which
was opened last, and a child has the steps and the examples of its own section.** Everything else
that arrived is in no tree.

The history is given from the end: it is `before`, then the feature that opens last, then `after`.
`exists_last_feature` says that every history in which a feature opens has this form.
-/

set_option autoImplicit false

namespace FeatureTree

/-! ## The last feature -/

/-- Every history has the form that this file speaks of, or opens no feature. The search goes from
the end, as only the last opening matters. -/
theorem exists_last_feature (calls : List Call) :
    OpensNoFeature calls ∨ ∃ before record after,
      calls = before ++ .event (.openFeature record) :: after ∧ OpensNoFeature after := by
  let opens : Call → Bool := fun c => (c.event?.map Event.opensFeature).getD false
  have hopens : ∀ {list : List Call}, (∀ c ∈ list, opens c = false) → OpensNoFeature list := by
    intro list h record hmem
    exact Bool.noConfusion (h _ hmem)
  -- A question opens nothing, so the test on calls is that on events.
  rcases exists_last_opening opens calls with hnone | ⟨before, c, after, rfl, hc, hafter⟩
  · exact .inl (hopens hnone)
  · refine .inr ⟨before, ?_⟩
    rcases c with event | _
    · cases event with
      | openFeature record => exact ⟨record, after, rfl, hopens hafter⟩
      | _ => exact Bool.noConfusion hc
    · exact Bool.noConfusion hc

namespace Session

variable {σ : Type}

/-- The error says that there is no language, and nothing else makes it. -/
theorem result_eq_error_iff (session : Session σ) :
    session.result = .error .languageNotSet ↔ session.language = none := by
  unfold result
  cases session.language with
  | none => exact ⟨fun _ => rfl, fun _ => rfl⟩
  | some language => exact ⟨fun h => (nomatch h), fun h => (nomatch h)⟩

/-- With a language the answer is no tree exactly if there is no draft to finish. -/
theorem result_eq_none_iff (session : Session σ) :
    session.result = .ok none ↔ session.language ≠ none ∧ session.draft = none := by
  unfold result
  cases session.language with
  | none => exact ⟨fun h => (nomatch h), fun h => absurd rfl h.1⟩
  | some language =>
    cases session.draft with
    | none => exact ⟨fun _ => ⟨Option.some_ne_none language, rfl⟩, fun _ => rfl⟩
    | some draft => exact ⟨fun h => (nomatch h), fun h => (nomatch h.2)⟩

theorem result_of_draft {session : Session σ} {language : Language} {draft : FeatureDraft}
    (hl : session.language = some language) (hd : session.draft = some draft) :
    session.result = .ok (some (draft.finish language)) := by
  unfold result
  rw [hl, hd]
  rfl

/-- An answer with a tree gives back what it was made from; proofs about answers start here and go
on about drafts. -/
theorem exists_draft_of_result {session : Session σ} {feature : Feature}
    (h : session.result = .ok (some feature)) :
    ∃ language draft, session.language = some language ∧ session.draft = some draft ∧
      feature = draft.finish language := by
  unfold result at h
  cases hl : session.language with
  | none =>
    rw [hl] at h
    exact nomatch h
  | some language =>
    rw [hl] at h
    obtain ⟨draft, hd, rfl⟩ := Option.map_eq_some_iff.mp (Except.ok.inj h)
    exact ⟨language, draft, rfl, hd, rfl⟩

theorem draft_settle_of_none {session : Session σ} (hd : session.draft = none) :
    session.settle.session.draft = none := by
  unfold settle
  rw [hd]
  cases session.language <;> exact hd

variable [PatternEngine] [DiagnosticSink σ]

/-- Only `openFeature` makes a draft. -/
theorem draft_handle_of_none {session : Session σ} {event : Event}
    (hd : session.draft = none) (hf : event.opensFeature = false) :
    (session.handle event).session.draft = none := by
  cases event with
  | openFeature => exact Bool.noConfusion hf
  | setPath | setLanguage | endOfDocument | syntaxError => exact hd
  | _ =>
    unfold handle inFeature
    rw [hd]
    exact hd

theorem draft_run_of_none {session : Session σ} {calls : List Call}
    (hd : session.draft = none) (h : OpensNoFeature calls) : (session.run calls).draft = none := by
  induction calls generalizing session with
  | nil => exact hd
  | cons c calls ih =>
    obtain ⟨hc, hrest⟩ := h.cons
    rw [run_cons]
    refine ih ?_ hrest
    cases c with
    | event event => exact draft_handle_of_none hd (hc event rfl)
    | result => exact draft_settle_of_none hd

/-- There is a draft exactly if a feature has been opened; it is never closed again. -/
theorem draft_run_start_eq_none_iff (settings : Settings) (sink : σ) (calls : List Call) :
    ((start settings sink).run calls).draft = none ↔ OpensNoFeature calls := by
  constructor
  · intro hd
    rcases exists_last_feature calls with hnone | ⟨before, record, after, rfl, hafter⟩
    · exact hnone
    · obtain ⟨settled, hsome⟩ :=
        ((start settings sink).run before).draft_run_openFeature record hafter
      rw [run_append, hsome] at hd
      exact nomatch hd
  · exact draft_run_of_none rfl

/-- The answer behind the last feature is the tree of the arrivals since it opened. What the
questions in between have settled is all that is left open here. -/
theorem result_run_openFeature (settings : Settings) (sink : σ) (before : List Call)
    (record : Record) {after : List Call} {language : Language} (h : OpensNoFeature after)
    (hl : (languages (before ++ .event (.openFeature record) :: after)).getLast? =
      some language) :
    ∃ settled,
      ((start settings sink).run (before ++ .event (.openFeature record) :: after)).result =
        .ok (some ((FeatureDraft.ofArrivals ⟨settings.fileAfter before, record⟩
          (arrivals settings.style (settings.fileAfter before) (events after)) settled).finish
            language)) := by
  obtain ⟨settled, hd⟩ := ((start settings sink).run before).draft_run_openFeature record h
  rw [path_run_start, settings_run, ← run_append] at hd
  have hlanguage := (language_run_start settings sink _).trans hl
  exact ⟨settled, result_of_draft hlanguage hd⟩

end Session

/-! ## What the children are made of -/

/-- The records a child of a feature is made of. -/
inductive Origin where
  | scenario (opening : Record) (steps : List Record)
  | outline (opening : Record) (steps blocks : List Record)
deriving DecidableEq, Repr

def Child.origin : Child → Origin
  | scenario s => .scenario s.record (s.steps.map (·.record))
  | outline o => .outline o.record (o.steps.map (·.record)) (o.tables.map (·.record))

/-- The origin that a section of the history gives a child, if it makes one. -/
def Origin.ofSection? : Event × List Event → Option Origin
  | (.openScenario record, body) => some (scenario record (body.filterMap Event.step?))
  | (.openOutline record, body) =>
    some (outline record (body.filterMap Event.step?) (body.filterMap Event.block?))
  | _ => none

/-- Files do not matter for origins: the records of the placed steps are those of the events. -/
theorem map_record_steps (body : List Arrival) :
    (body.filterMap Arrival.step?).map Placed.record =
      (body.map Arrival.event).filterMap Event.step? := by
  simp only [List.map_filterMap, List.filterMap_map, Arrival.step?, Option.map_map,
    Function.comp_def, Option.map_id']

theorem map_record_blocks (body : List Arrival) :
    (body.filterMap Arrival.block?).map Placed.record =
      (body.map Arrival.event).filterMap Event.block? := by
  simp only [List.map_filterMap, List.filterMap_map, Arrival.block?, Option.map_map,
    Function.comp_def, Option.map_id']

variable [PatternEngine]

/-- A finished child has the origin of the section that made it. -/
theorem origin_ofSection? (part : Arrival × List Arrival) (background : Background)
    (language : Language) (featureTags : TagSet) :
    (ChildDraft.ofSection? part).map (fun child =>
        (child.finish background language featureTags).origin) =
      Origin.ofSection? (part.1.event, part.2.map Arrival.event) := by
  -- By what opens the section: the two kinds that make a child, and all others.
  obtain ⟨⟨file, event⟩, body⟩ := part
  cases event with
  | openScenario record =>
    show some (Origin.scenario record _) = some (Origin.scenario record _)
    rw [← map_record_steps, List.map_map]
    rfl
  | openOutline record =>
    show some (Origin.outline record _ _) = some (Origin.outline record _ _)
    rw [← map_record_steps, ← map_record_blocks, List.map_map, List.map_map]
    rfl
  | _ => rfl

/-- The children of a tree have the origins of the sections, in order. Sections that make no child
have no origin either. -/
theorem map_origin_children (placed : Placed) (list : List Arrival)
    (settled : Option Background) (language : Language) :
    ((FeatureDraft.ofArrivals placed list settled).finish language).children.map Child.origin =
      (sections Event.opensContainer (list.map Arrival.event)).filterMap Origin.ofSection? := by
  -- Both sides go over the same sections, and `origin_ofSection?` compares them one by one.
  rw [sections_map, List.filterMap_map]
  show List.map _ (List.map _ (List.filterMap ChildDraft.ofSection?
    (sections Arrival.opensContainer list))) = _
  rw [List.map_map, List.map_filterMap]
  exact List.filterMap_congr fun part _ => origin_ofSection? part _ language _

variable {σ : Type} [DiagnosticSink σ]

/-- **The answer of any run.** Without a language it is an error, without a feature it is no tree,
and else it is the tree of the last feature, its children those of the sections since then. -/
theorem Session.result_run_start (settings : Settings) (sink : σ) (calls : List Call) :
    let answer := ((start settings sink).run calls).result
    (answer = .error .languageNotSet ↔ ¬ SetsLanguage calls) ∧
    (answer = .ok none ↔ SetsLanguage calls ∧ OpensNoFeature calls) ∧
    (SetsLanguage calls → ¬ OpensNoFeature calls →
      ∃ before record after feature,
        calls = before ++ .event (.openFeature record) :: after ∧ OpensNoFeature after ∧
        answer = .ok (some feature) ∧ feature.record = record ∧
        feature.children.map Child.origin =
          (sections Event.opensContainer (events after)).filterMap Origin.ofSection?) := by
  intro answer
  have hlanguage : ((start settings sink).run calls).language = none ↔ ¬ SetsLanguage calls := by
    rw [language_run_start, List.getLast?_eq_none_iff, setsLanguage_iff, not_not]
  refine ⟨?_, ?_, ?_⟩
  · rw [result_eq_error_iff, hlanguage]
  · rw [result_eq_none_iff, ne_eq, hlanguage, not_not, draft_run_start_eq_none_iff]
  · intro hset hopens
    rcases exists_last_feature calls with hnone | ⟨before, record, after, rfl, hafter⟩
    · exact absurd hnone hopens
    · obtain ⟨language, hl⟩ := Option.ne_none_iff_exists'.mp
        (mt List.getLast?_eq_none_iff.mp (setsLanguage_iff.mp hset))
      obtain ⟨settled, hresult⟩ :=
        result_run_openFeature settings sink before record hafter hl
      refine ⟨before, record, after, _, rfl, hafter, hresult, rfl, ?_⟩
      rw [map_origin_children, map_event_arrivals]

end FeatureTree
