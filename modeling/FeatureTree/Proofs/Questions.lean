import FeatureTree.Proofs.History

/-!
# Questions for the result

A session may be asked for its result at any time and as often as one likes. Asking is not free of
effect: the first answer settles the background. **That is its whole effect.** Leave out what is
settled, and a session that was asked is the one that was not: this is `run_unsettled`, and it lets
every other statement about a run look at the run's events alone.

On the side of the answers, leaving out what is settled means to look past the background. A tree
carries its background in itself and once more in each child; `Feature.withBackground` puts another
in all these places.
-/

set_option autoImplicit false

namespace FeatureTree

/-! ## Trees up to their background -/

/-- The child over another background. -/
def Child.withBackground (background : Background) : Child → Child
  | scenario s => scenario { s with background }
  | outline o => outline { o with background }

/-- The tree over another background. -/
def Feature.withBackground (background : Background) (feature : Feature) : Feature :=
  { feature with
    background
    children := feature.children.map (·.withBackground background) }

/-- The answer over another background, if it is a tree. -/
def withBackground (background : Background) (answer : Except BuildError (Option Feature)) :
    Except BuildError (Option Feature) :=
  answer.map (·.map (·.withBackground background))

def FeatureDraft.unsettled (draft : FeatureDraft) : FeatureDraft :=
  { draft with settled := none }

theorem ChildDraft.withBackground_finish (draft : ChildDraft) (a b : Background)
    (language : Language) (featureTags : TagSet) :
    (draft.finish a language featureTags).withBackground b =
      draft.finish b language featureTags := by
  cases draft <;> rfl

/-- What a draft has settled shows in the background alone. -/
theorem FeatureDraft.withBackground_finish_unsettled (draft : FeatureDraft)
    (background : Background) (language : Language) :
    (draft.unsettled.finish language).withBackground background =
      (draft.finish language).withBackground background := by
  simp only [Feature.withBackground, FeatureDraft.finish, FeatureDraft.unsettled, List.map_map,
    Function.comp_def, ChildDraft.withBackground_finish]

/-! ## Sessions up to what is settled -/

section Unsettled

variable {σ : Type}

/-- The session as if it had not been asked since the feature opened. -/
def Session.unsettled (session : Session σ) : Session σ :=
  { session with draft := session.draft.map FeatureDraft.unsettled }

def Reaction.unsettled (reaction : Reaction σ) : Reaction σ :=
  { reaction with session := reaction.session.unsettled }

end Unsettled

namespace Session

variable {σ : Type}

@[simp] theorem unsettled_cursor (session : Session σ) :
    session.unsettled.cursor = session.cursor := rfl

@[simp] theorem unsettled_draft (session : Session σ) :
    session.unsettled.draft = session.draft.map FeatureDraft.unsettled := rfl

/-- An answer changes nothing that shows once what is settled is left out. -/
theorem settle_unsettled (session : Session σ) :
    session.settle.session.unsettled = session.unsettled := by
  unfold settle
  split
  · next hd => simp only [unsettled, hd]; rfl
  · rfl

/-- The answer, up to the background, does not depend on what is settled. -/
theorem withBackground_result_unsettled (session : Session σ) (background : Background) :
    withBackground background session.unsettled.result =
      withBackground background session.result := by
  have hlanguage : session.unsettled.language = session.language := rfl
  unfold result
  rw [hlanguage]
  cases session.language with
  | none => rfl
  | some language =>
    rw [unsettled_draft]
    cases session.draft with
    | none => rfl
    | some draft =>
      exact congrArg (fun feature => Except.ok (some feature))
        (draft.withBackground_finish_unsettled background language)

theorem warnings_settle (session : Session σ) :
    (session.settle.notices.filter fun notice => notice.level = .warn) = [] := by
  unfold settle
  split <;> rfl

/-! ### Events do not read it -/

/-- No reaction reads what is settled; the fields of the draft are taken apart so that this can be
seen. -/
theorem openBackground_unsettled (session : Session σ) (record : Record)
    (draft : FeatureDraft) :
    session.unsettled.openBackground record draft.unsettled =
      (session.openBackground record draft).unsettled := by
  obtain ⟨placed, background, children, settled⟩ := draft
  cases background <;> rfl

theorem addStep_unsettled (session : Session σ) (record : Record) (draft : FeatureDraft) :
    session.unsettled.addStep record draft.unsettled =
      (session.addStep record draft).unsettled := by
  obtain ⟨placed, background, children, settled⟩ := draft
  unfold addStep
  rw [unsettled_cursor]
  rcases session.cursor with _ | _ | index
  · rfl
  · cases background <;> rfl
  · simp only [FeatureDraft.unsettled]
    cases children[index]? <;> rfl

theorem addExamples_unsettled [PatternEngine] (session : Session σ) (record : Record)
    (draft : FeatureDraft) :
    session.unsettled.addExamples record draft.unsettled =
      (session.addExamples record draft).unsettled := by
  obtain ⟨placed, background, children, settled⟩ := draft
  unfold addExamples
  rw [unsettled_cursor]
  rcases session.cursor with _ | _ | index
  · rfl
  · rfl
  · simp only [FeatureDraft.unsettled]
    rcases children[index]? with _ | _ | _ <;> rfl

/-- Whether a feature is open shows in the unsettled session as well. -/
theorem inFeature_unsettled {session : Session σ} {event : Event} {line : Nat}
    {react react' : FeatureDraft → Reaction σ}
    (hreact : ∀ draft, react' draft.unsettled = (react draft).unsettled) :
    session.unsettled.inFeature event line react' =
      (session.inFeature event line react).unsettled := by
  unfold inFeature
  rw [unsettled_draft]
  cases hd : session.draft with
  | none => simp [drop, Reaction.unsettled]
  | some draft => exact hreact draft

variable [PatternEngine] [DiagnosticSink σ]

/-- An event does to the unsettled session what it does to the session. -/
theorem handle_unsettled (session : Session σ) (event : Event) :
    session.unsettled.handle event = (session.handle event).unsettled := by
  cases event with
  | setPath | setLanguage | endOfDocument | syntaxError => rfl
  -- A feature that opens asks for the one before it, but only to say that there was one.
  | openFeature record =>
    unfold handle
    rw [unsettled_draft]
    cases session.draft <;> rfl
  | openBackground record => exact inFeature_unsettled (session.openBackground_unsettled record)
  | openScenario | openOutline => exact inFeature_unsettled fun _ => rfl
  | addExamples record => exact inFeature_unsettled (session.addExamples_unsettled record)
  | addStep record => exact inFeature_unsettled (session.addStep_unsettled record)

/-- Up to what is settled, a run is the run of its events. -/
theorem run_unsettled (session : Session σ) (calls : List Call) :
    (session.run calls).unsettled =
      session.unsettled.run ((events calls).map Call.event) := by
  induction calls generalizing session with
  | nil => rfl
  | cons c calls ih =>
    rw [run_cons, ih]
    cases c with
    | event event =>
      rw [events_cons_event, List.map_cons, run_cons]
      show (session.handle event).session.unsettled.run _ =
        (session.unsettled.handle event).session.run _
      rw [handle_unsettled]
      rfl
    | result =>
      rw [events_cons_result]
      show session.settle.session.unsettled.run _ = _
      rw [settle_unsettled]

/-! ### Warnings -/

def warnings (session : Session σ) (calls : List Call) : List Notice :=
  (session.notices calls).filter fun notice => notice.level = .warn

theorem warnings_cons (session : Session σ) (c : Call) (calls : List Call) :
    session.warnings (c :: calls) =
      ((session.call c).notices.filter fun notice => notice.level = .warn) ++
        (session.call c).session.warnings calls :=
  List.filter_append ..

/-- Questions warn about nothing, and events warn about the same with and without them. -/
theorem warnings_unsettled (session : Session σ) (calls : List Call) :
    session.unsettled.warnings ((events calls).map Call.event) = session.warnings calls := by
  induction calls generalizing session with
  | nil => rfl
  | cons c calls ih =>
    rw [warnings_cons]
    cases c with
    | event event =>
      rw [events_cons_event, List.map_cons, warnings_cons]
      show ((session.unsettled.handle event).notices.filter _) ++
          (session.unsettled.handle event).session.warnings _ =
        ((session.handle event).notices.filter _) ++ (session.handle event).session.warnings calls
      rw [handle_unsettled, ← ih]
      rfl
    | result =>
      rw [events_cons_result]
      show _ = (session.settle.notices.filter _) ++ session.settle.session.warnings calls
      rw [warnings_settle, List.nil_append, ← ih, settle_unsettled]

end Session
end FeatureTree
