import FeatureTree.Proofs.Resolution

/-!
# What a tree is made of

Every tree that a session answers with is made in one way. **Its feature is the one that opened
last, its children are those of all events since then, and its background is that of some first part
of these events:** the part up to the first question that was answered with a tree, or all of them
if there was none.

What there is to say about the nodes of a tree is said of trees made this way, and then holds of
every answer.
-/

set_option autoImplicit false

namespace FeatureTree

/-- The tree is that of a feature and what has arrived since it opened. -/
structure Feature.MadeFrom [PatternEngine] (placed : Placed) (since : List Arrival)
    (feature : Feature) : Prop where
  finish : ∃ settled, feature =
    (FeatureDraft.ofArrivals placed since settled).finish feature.language
  /-- What has arrived after the background was settled does not change it. -/
  background : ∃ early language, early <+: since ∧ feature.background =
    (FeatureDraft.ofArrivals placed early).resolve language

/-- What the children of a feature are made of. -/
theorem FeatureDraft.cases_of_mem_children [PatternEngine] {placed : Placed} {list : List Arrival}
    {settled : Option Background} {draft : ChildDraft}
    (h : draft ∈ (ofArrivals placed list settled).children) :
    (∃ placed steps, draft = .scenario placed steps) ∨
      ∃ placed steps, ∃ blocks : List Placed,
        draft = .outline placed steps (blocks.map .ofPlaced) := by
  obtain ⟨⟨⟨file, event⟩, body⟩, -, hpart⟩ := List.mem_filterMap.mp h
  cases event with
  | openScenario record => exact .inl ⟨_, _, (Option.some.inj hpart).symm⟩
  | openOutline record => exact .inr ⟨_, _, _, (Option.some.inj hpart).symm⟩
  | _ => exact nomatch hpart

namespace Session

variable [PatternEngine] {σ : Type} [DiagnosticSink σ]

theorem Answers.exists_first {session : Session σ} {calls : List Call}
    (h : session.Answers calls) :
    ∃ asked rest feature, calls = asked ++ .result :: rest ∧
      (session.run asked).result = .ok (some feature) ∧ ¬ session.Answers asked := by
  -- On the length: what is before an answered question is shorter.
  induction hn : calls.length using Nat.strongRecOn generalizing calls with
  | _ n ih =>
    obtain ⟨asked, rest, feature, rfl, hresult⟩ := h
    by_cases hasked : session.Answers asked
    · have hshort : asked.length < n := by rw [← hn, List.length_append]; simp
      obtain ⟨first, between, answer, rfl, hfirst⟩ := ih asked.length hshort hasked rfl
      exact ⟨first, between ++ .result :: rest, answer, List.append_assoc .., hfirst⟩
    · exact ⟨asked, rest, feature, rfl, hresult, hasked⟩

theorem getLast?_languages_of_result {settings : Settings} {sink : σ} {calls : List Call}
    {feature : Feature} (h : ((start settings sink).run calls).result = .ok (some feature)) :
    (languages calls).getLast? = some feature.language := by
  obtain ⟨language, draft, hl, -, rfl⟩ := exists_draft_of_result h
  rw [← language_run_start settings sink, hl]
  rfl

theorem run_append_cons (session : Session σ) (before : List Call) (c : Call) (after : List Call) :
    session.run (before ++ c :: after) = (session.run (before ++ [c])).run after := by
  rw [← run_append, List.append_assoc, List.singleton_append]

/-- As long as nothing is settled, the background is that of everything since the feature opened. -/
theorem background_of_not_answers {settings : Settings} {sink : σ} {before after : List Call}
    {record : Record} (hafter : OpensNoFeature after)
    (hnone : ¬ ((start settings sink).run (before ++ [.event (.openFeature record)])).Answers after)
    {feature : Feature}
    (h : ((start settings sink).run (before ++ .event (.openFeature record) :: after)).result =
      .ok (some feature)) :
    feature.background =
      (FeatureDraft.ofArrivals ⟨settings.fileAfter before, record⟩
        (arrivals settings.style (settings.fileAfter before) (events after))).resolve
          feature.language := by
  obtain ⟨answer, hanswer, hbackground⟩ := background_run_of_not_answers settings sink before record
    hafter (getLast?_languages_of_result h) hnone
  obtain rfl := Option.some.inj (Except.ok.inj (hanswer.symm.trans h))
  exact hbackground

theorem exists_early_background {settings : Settings} {sink : σ} {before after : List Call}
    {record : Record} (hafter : OpensNoFeature after) {feature : Feature}
    (h : ((start settings sink).run (before ++ .event (.openFeature record) :: after)).result =
      .ok (some feature)) :
    ∃ early language, early <+: arrivals settings.style (settings.fileAfter before) (events after) ∧
      feature.background =
        (FeatureDraft.ofArrivals ⟨settings.fileAfter before, record⟩ early).resolve language := by
  by_cases hanswers :
      ((start settings sink).run (before ++ [.event (.openFeature record)])).Answers after
  -- The first answer was made from what had arrived by then, and later ones repeat its background.
  · obtain ⟨asked, rest, first, rfl, hfirst, hnone⟩ := hanswers.exists_first
    have hasked : OpensNoFeature asked := fun r hmem => hafter r (by simp [hmem])
    have hrest : OpensNoFeature rest := fun r hmem => hafter r (by simp [hmem])
    obtain ⟨later, hlater, hbackground⟩ := background_run_of_answered hrest hfirst
    rw [run_append_cons] at h
    obtain rfl := Option.some.inj (Except.ok.inj (hlater.symm.trans h))
    rw [← run_append_cons] at hfirst
    refine ⟨_, _, ?_, hbackground.trans (background_of_not_answers hasked hnone hfirst)⟩
    rw [events_append, arrivals_append]
    exact List.prefix_append ..
  · exact ⟨_, _, List.prefix_rfl, background_of_not_answers hafter hanswers h⟩

/-- Every tree that a session answers with is made from the history. -/
theorem madeFrom_of_result {settings : Settings} {sink : σ} {calls : List Call} {feature : Feature}
    (h : ((start settings sink).run calls).result = .ok (some feature)) :
    ∃ before record after, calls = before ++ .event (.openFeature record) :: after ∧
      OpensNoFeature after ∧
      feature.MadeFrom ⟨settings.fileAfter before, record⟩
        (arrivals settings.style (settings.fileAfter before) (events after)) := by
  rcases exists_last_feature calls with hnone | ⟨before, record, after, rfl, hafter⟩
  · obtain ⟨-, draft, -, hd, -⟩ := exists_draft_of_result h
    rw [(draft_run_start_eq_none_iff settings sink calls).mpr hnone] at hd
    exact nomatch hd
  · obtain ⟨settled, hresult⟩ := result_run_openFeature settings sink before record hafter
      (getLast?_languages_of_result h)
    exact ⟨before, record, after, rfl, hafter,
      ⟨settled, Option.some.inj (Except.ok.inj (h.symm.trans hresult))⟩,
      exists_early_background hafter h⟩

end Session
end FeatureTree
