import FeatureTree.Proofs.Routing

/-!
# Which background a tree has

The background is settled by the first answer that is a tree. **Up to there it is what the sections
say, and from there on it is what that answer said,** until the next feature opens. A question that
gets no tree settles nothing.
-/

set_option autoImplicit false

namespace FeatureTree

/-! ## The first background of a history -/

section History

variable [PatternEngine]

theorem background_ofArrivals_of_none (placed : Placed) {list : List Arrival}
    (settled : Option Background)
    (h : ∀ arrival ∈ list, ∀ record, arrival.event ≠ .openBackground record) :
    (FeatureDraft.ofArrivals placed list settled).background = none := by
  refine List.findSome?_eq_none_iff.mpr ?_
  rintro ⟨⟨file, event⟩, body⟩ hpart
  have hmem : ⟨file, event⟩ ∈ list := mem_of_mem_sections hpart
  cases event with
  | openBackground record => exact absurd rfl (h _ hmem record)
  | _ => rfl

/-- The background is that of the first section which a background opens; sections in front of it
make none, and sections behind it come too late. -/
theorem background_ofArrivals_of_first (placed : Placed) {front rest : List Arrival}
    {file : String} {record : Record} (settled : Option Background)
    (h : ∀ arrival ∈ front, ∀ record, arrival.event ≠ .openBackground record) :
    (FeatureDraft.ofArrivals placed (front ++ ⟨file, .openBackground record⟩ :: rest)
      settled).background =
        some ⟨⟨file, record⟩,
          (rest.takeWhile fun arrival => !arrival.opensContainer).filterMap Arrival.step?⟩ := by
  have hfront : (sections Arrival.opensContainer front).findSome? BackgroundDraft.ofSection? =
      none := background_ofArrivals_of_none placed settled h
  have hopens : Arrival.opensContainer ⟨file, .openBackground record⟩ = true := rfl
  unfold FeatureDraft.ofArrivals
  show (sections Arrival.opensContainer (front ++ _ :: rest)).findSome? _ = _
  rw [sections_append_opening hopens, List.findSome?_append, hfront, Option.none_or, sections,
    if_pos hopens]
  rfl

/-- A tree without a declared background has an empty one, in the language of the question. -/
theorem resolve_ofArrivals_of_none (placed : Placed) {list : List Arrival} (language : Language)
    (h : ∀ arrival ∈ list, ∀ record, arrival.event ≠ .openBackground record) :
    (FeatureDraft.ofArrivals placed list).resolve language = .empty language := by
  unfold FeatureDraft.resolve
  rw [background_ofArrivals_of_none placed none h]
  rfl

theorem resolve_ofArrivals_of_first (placed : Placed) {front rest : List Arrival} {file : String}
    {record : Record} (language : Language)
    (h : ∀ arrival ∈ front, ∀ record, arrival.event ≠ .openBackground record) :
    (FeatureDraft.ofArrivals placed
      (front ++ ⟨file, .openBackground record⟩ :: rest)).resolve language =
        .declared (.ofPlaced ⟨file, record⟩) language
          (((rest.takeWhile fun arrival => !arrival.opensContainer).filterMap
            Arrival.step?).map fun step => ⟨.ofPlaced step language⟩) := by
  unfold FeatureDraft.resolve
  rw [background_ofArrivals_of_first placed none h]
  rfl

end History

namespace Session

variable {σ : Type}

/-! ## What is settled -/

/-- The background that the trees of the open feature have had so far. -/
def settled? (session : Session σ) : Option Background :=
  session.draft.bind (·.settled)

/-- What is settled takes precedence over what the sections say by now. -/
theorem background_of_settled {session : Session σ} {feature : Feature} {background : Background}
    (h : session.result = .ok (some feature)) (hs : session.settled? = some background) :
    feature.background = background := by
  obtain ⟨language, draft, -, hd, rfl⟩ := exists_draft_of_result h
  have hset : draft.settled = some background := by
    rw [settled?, hd] at hs
    exact hs
  show draft.resolve language = background
  unfold FeatureDraft.resolve
  rw [hset]

/-- An answer with a tree settles the background of that tree. -/
theorem settled?_settle_of_result {session : Session σ} {feature : Feature}
    (h : session.result = .ok (some feature)) :
    session.settle.session.settled? = some feature.background := by
  obtain ⟨language, draft, hl, hd, rfl⟩ := exists_draft_of_result h
  unfold settle
  rw [hl, hd]
  rfl

/-- A question that is answered with an error or with no tree leaves the session as it was, to the
last field. -/
theorem settle_of_no_tree {session : Session σ}
    (h : ∀ feature, session.result ≠ .ok (some feature)) : session.settle.session = session := by
  unfold settle
  cases hl : session.language with
  | none => rfl
  | some language =>
    cases hd : session.draft with
    | none => rfl
    | some draft => exact absurd (result_of_draft hl hd) (h _)

/-- A background is not settled twice: the next answer settles what was settled, since it shows it.
-/
theorem settled?_settle_of_some {session : Session σ} {background : Background}
    (hs : session.settled? = some background) :
    session.settle.session.settled? = some background := by
  -- Either the question has a tree, which shows what is settled, or it changes nothing.
  by_cases h : ∃ feature, session.result = .ok (some feature)
  · obtain ⟨feature, hfeature⟩ := h
    rw [settled?_settle_of_result hfeature, background_of_settled hfeature hs]
  · rw [settle_of_no_tree (not_exists.mp h), hs]

variable [PatternEngine] [DiagnosticSink σ]

/-- Events of an open feature settle nothing. Those that open a container and those that open
nothing reach the draft by different lemmas, hence the case split. -/
theorem settled?_handle {session : Session σ} {event : Event}
    (hf : event.opensFeature = false) :
    (session.handle event).session.settled? = session.settled? := by
  by_cases hc : event.opensContainer = true
  · unfold settled?
    cases hd : session.draft with
    | none => rw [draft_handle_of_none hd hf]
    | some draft =>
      -- A section without a body leaves what its opening event leaves.
      have hsection := draft_run_section [] hd hc (fun _ h => nomatch h)
        (fun _ h => nomatch h)
      have hdraft : (session.handle event).session.draft = some (draft.addSection _) := hsection
      rw [hdraft]
      rfl
  · have hdraft := (handle_of_not_opens session hf (Bool.eq_false_iff.mpr hc)).2
    unfold settled?
    rw [hdraft]
    cases session.draft with
    | none => rfl
    | some draft => rcases session.cursor with _ | _ | index <;> rfl

/-- Some question among the calls is answered with a tree. -/
def Answers (session : Session σ) (calls : List Call) : Prop :=
  ∃ asked rest feature, calls = asked ++ .result :: rest ∧
    (session.run asked).result = .ok (some feature)

/-- Answers among the later calls are answers among all of them; for the induction it is needed the
other way around, as a contraposition. -/
theorem Answers.cons {session : Session σ} {c : Call} {calls : List Call}
    (h : (session.call c).session.Answers calls) : session.Answers (c :: calls) := by
  obtain ⟨asked, rest, feature, rfl, hresult⟩ := h
  exact ⟨c :: asked, rest, feature, rfl, hresult⟩

/-- What is settled stays so until a feature opens. The step is `settled?_handle` for events and
`settled?_settle_of_some` for questions. -/
theorem settled?_run_of_some {session : Session σ} {calls : List Call} {background : Background}
    (h : OpensNoFeature calls) (hs : session.settled? = some background) :
    (session.run calls).settled? = some background := by
  induction calls generalizing session with
  | nil => exact hs
  | cons c calls ih =>
    obtain ⟨hc, hrest⟩ := h.cons
    rw [run_cons]
    refine ih hrest ?_
    cases c with
    | event event => exact (settled?_handle (hc event rfl)).trans hs
    | result => exact settled?_settle_of_some hs

/-- Without an answer that has a tree nothing is settled by a run. -/
theorem settled?_run_of_not_answers {session : Session σ} {calls : List Call}
    (h : OpensNoFeature calls) (ha : ¬ session.Answers calls) :
    (session.run calls).settled? = session.settled? := by
  induction calls generalizing session with
  | nil => rfl
  | cons c calls ih =>
    obtain ⟨hc, hrest⟩ := h.cons
    rw [run_cons, ih hrest (mt Answers.cons ha)]
    cases c with
    | event event => exact settled?_handle (hc event rfl)
    | result =>
      -- A tree here would be an answer among the calls, with nothing asked before it.
      have hnone : ∀ feature, session.result ≠ .ok (some feature) := by
        intro feature hfeature
        exact ha ⟨[], calls, feature, rfl, hfeature⟩
      exact congrArg settled? (settle_of_no_tree hnone)

/-! ## The runs up to the last feature -/

/-- What a feature opens on is decided by the events before it. -/
theorem run_openFeature_congr (settings : Settings) (sink : σ) {before before' : List Call}
    (record : Record) (after : List Call) (h : events before = events before') :
    (start settings sink).run (before ++ .event (.openFeature record) :: after) =
      (start settings sink).run (before' ++ .event (.openFeature record) :: after) := by
  -- The new draft takes the place of the old one, and with it goes what was settled.
  have hforget : ∀ calls, ((start settings sink).run
      (calls ++ .event (.openFeature record) :: after)) =
        ((start settings sink).run calls).unsettled.run
          (.event (.openFeature record) :: after) := by
    intro calls
    rw [run_append]
    rfl
  rw [hforget, hforget, run_unsettled, run_unsettled, h]

/-- Questions move nothing but the background: two runs over the same events have the same answer up
to that. -/
theorem result_run_congr (settings : Settings) (sink : σ) {calls calls' : List Call}
    (h : events calls = events calls') (background : Background) :
    withBackground background ((start settings sink).run calls).result =
      withBackground background ((start settings sink).run calls').result := by
  have hforget : ∀ list, withBackground background ((start settings sink).run list).result =
      withBackground background
        ((start settings sink).unsettled.run ((events list).map Call.event)).result := by
    intro list
    rw [← withBackground_result_unsettled, run_unsettled]
  rw [hforget, hforget, h]

theorem warnings_start_congr (settings : Settings) (sink : σ) {calls calls' : List Call}
    (h : events calls = events calls') :
    (start settings sink).warnings calls = (start settings sink).warnings calls' := by
  have hforget : ∀ list, (start settings sink).warnings list =
      (start settings sink).unsettled.warnings ((events list).map Call.event) :=
    fun list => (warnings_unsettled _ list).symm
  rw [hforget, hforget, h]

/-! ## The background of an answer -/

theorem background_run_of_not_answers (settings : Settings) (sink : σ) (before : List Call)
    (record : Record) {after : List Call} {language : Language} (hafter : OpensNoFeature after)
    (hl : (languages (before ++ .event (.openFeature record) :: after)).getLast? = some language)
    (ha : ¬ ((start settings sink).run (before ++ [.event (.openFeature record)])).Answers after) :
    ∃ feature,
      ((start settings sink).run (before ++ .event (.openFeature record) :: after)).result =
        .ok (some feature) ∧
      feature.background =
        (FeatureDraft.ofArrivals ⟨settings.fileAfter before, record⟩
          (arrivals settings.style (settings.fileAfter before) (events after))).resolve
            language := by
  obtain ⟨settled, hd⟩ := ((start settings sink).run before).draft_run_openFeature record hafter
  rw [path_run_start, settings_run, ← run_append] at hd
  have hresult := result_of_draft ((language_run_start settings sink _).trans hl) hd
  have hnone : settled = none := by
    have hrun := settled?_run_of_not_answers hafter ha
    rw [← run_append, List.append_assoc, List.singleton_append, settled?, hd, run_append] at hrun
    exact hrun
  subst hnone
  exact ⟨_, hresult, rfl⟩

/-- A later answer is there, for the language and the feature are, and it repeats the background of
the first. -/
theorem background_run_of_answered {session : Session σ} {asked rest : List Call}
    {first : Feature} (h : OpensNoFeature rest)
    (hfirst : (session.run asked).result = .ok (some first)) :
    ∃ later, (session.run (asked ++ .result :: rest)).result = .ok (some later) ∧
      later.background = first.background := by
  obtain ⟨language, draft, hl, hd, -⟩ := exists_draft_of_result hfirst
  have hsettled : (session.run (asked ++ .result :: rest)).settled? = some first.background := by
    rw [run_append, run_cons]
    exact settled?_run_of_some h (settled?_settle_of_result hfirst)
  obtain ⟨draft', hd', -⟩ := Option.bind_eq_some_iff.mp hsettled
  -- A language once set is never taken back, so there is one to answer in.
  have hlanguage : (session.run (asked ++ .result :: rest)).language.isSome := by
    rw [run_append, language_run, hl]
    simp
  obtain ⟨language', hl'⟩ := Option.isSome_iff_exists.mp hlanguage
  -- The later answer is made from a draft that has the first background settled.
  have hlater := result_of_draft hl' hd'
  exact ⟨_, hlater, background_of_settled hlater hsettled⟩

/-- **When a background is settled.** The first answer with a tree takes it from the events so far,
and all later ones repeat it; questions have no other effect. -/
theorem background_run_start (settings : Settings) (sink : σ) :
    (∀ before record after, OpensNoFeature after →
      let opened := (start settings sink).run (before ++ [.event (.openFeature record)])
      let arrived := arrivals settings.style (settings.fileAfter before) (events after)
      (∀ language, ¬ opened.Answers after →
        (languages (before ++ .event (.openFeature record) :: after)).getLast? = some language →
        ∃ feature, (opened.run after).result = .ok (some feature) ∧
          ((∀ declared, Event.openBackground declared ∉ events after) →
            feature.background = .empty language) ∧
          ∀ front file declared rest, arrived = front ++ ⟨file, .openBackground declared⟩ :: rest →
            (∀ arrival ∈ front, ∀ r, arrival.event ≠ .openBackground r) →
            feature.background = .declared (.ofPlaced ⟨file, declared⟩) language
              (((rest.takeWhile fun arrival => !arrival.opensContainer).filterMap
                Arrival.step?).map fun step => ⟨.ofPlaced step language⟩)) ∧
      ∀ asked rest first, after = asked ++ .result :: rest →
        (opened.run asked).result = .ok (some first) →
        ∃ later, (opened.run after).result = .ok (some later) ∧
          later.background = first.background) ∧
    (∀ asked rest, (∀ feature, ((start settings sink).run asked).result ≠ .ok (some feature)) →
      (start settings sink).run (asked ++ .result :: rest) =
        (start settings sink).run (asked ++ rest)) ∧
    (∀ before before' record after, events before = events before' →
      (start settings sink).run (before ++ .event (.openFeature record) :: after) =
        (start settings sink).run (before' ++ .event (.openFeature record) :: after)) ∧
    ∀ calls calls', events calls = events calls' →
      (∀ background, withBackground background ((start settings sink).run calls).result =
        withBackground background ((start settings sink).run calls').result) ∧
      (start settings sink).warnings calls = (start settings sink).warnings calls' := by
  refine ⟨?_, ?_, ?_, ?_⟩
  · intro before record after hafter opened arrived
    have hrun : opened.run after =
        (start settings sink).run (before ++ .event (.openFeature record) :: after) := by
      rw [← run_append, List.append_assoc, List.singleton_append]
    refine ⟨?_, ?_⟩
    · intro language ha hl
      obtain ⟨feature, hresult, hbackground⟩ :=
        background_run_of_not_answers settings sink before record hafter hl ha
      rw [← hrun] at hresult
      refine ⟨feature, hresult, ?_, ?_⟩
      · intro hnone
        refine hbackground.trans (resolve_ofArrivals_of_none _ language ?_)
        intro arrival harrival declared hevent
        exact hnone declared (hevent ▸ event_mem_of_mem_arrivals harrival)
      · intro front file declared rest hsplit hfront
        have hsplit' : arrivals settings.style (settings.fileAfter before) (events after) =
            front ++ ⟨file, .openBackground declared⟩ :: rest := hsplit
        rw [hbackground, hsplit']
        exact resolve_ofArrivals_of_first _ language hfront
    · rintro asked rest first rfl hfirst
      exact background_run_of_answered (fun r hmem => hafter r (by simp [hmem])) hfirst
  · intro asked rest hnone
    rw [run_append, run_append, run_cons]
    exact congrArg (run · rest) (settle_of_no_tree hnone)
  · intro before before' record after h
    exact run_openFeature_congr settings sink record after h
  · intro calls calls' h
    exact ⟨result_run_congr settings sink h, warnings_start_congr settings sink h⟩

end Session
end FeatureTree
