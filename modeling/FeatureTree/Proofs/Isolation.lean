import FeatureTree.Proofs.Replay

/-!
# One document after another

A session can be used for one document after another. What it has seen before decides nothing about
the next one: **a new path, a new language and a new feature between them put aside all that answers
are made of.** What is left is the style of paths, which is a setting, and two things no answer is
made of, the sink and the default path. `Session.bare` forgets these two, and the events and
questions cannot tell.
-/

set_option autoImplicit false

namespace FeatureTree

section Bare

variable {σ : Type}

/-- The session without its sink and its default path. -/
def Session.bare (session : Session σ) : Session IgnoreErrors :=
  { session with
    settings := { style := session.settings.style }
    sink := {} }

def Reaction.bare (reaction : Reaction σ) : Reaction IgnoreErrors :=
  { session := reaction.session.bare, notices := reaction.notices }

end Bare

namespace Session

variable {σ : Type}

@[simp] theorem bare_cursor (session : Session σ) : session.bare.cursor = session.cursor := rfl

@[simp] theorem bare_draft (session : Session σ) : session.bare.draft = session.draft := rfl

@[simp] theorem bare_language (session : Session σ) :
    session.bare.language = session.language := rfl

theorem result_bare (session : Session σ) : session.bare.result = session.result := rfl

/-- To settle a background takes the language and the draft, and both are in the bare session. -/
theorem settle_bare (session : Session σ) : session.bare.settle = session.settle.bare := by
  unfold settle
  rw [bare_language, bare_draft]
  cases session.language with
  | none => rfl
  | some language => cases session.draft <;> rfl

/-- The check for an open feature looks at the draft alone. -/
theorem inFeature_bare {session : Session σ} {event : Event} {line : Nat}
    {react : FeatureDraft → Reaction σ} {react' : FeatureDraft → Reaction IgnoreErrors}
    (hreact : ∀ draft, react' draft = (react draft).bare) :
    session.bare.inFeature event line react' = (session.inFeature event line react).bare := by
  unfold inFeature
  rw [bare_draft]
  cases session.draft with
  | none => rfl
  | some draft => exact hreact draft

theorem openBackground_bare (session : Session σ) (record : Record) (draft : FeatureDraft) :
    session.bare.openBackground record draft = (session.openBackground record draft).bare := by
  unfold openBackground
  cases draft.background <;> rfl

/-- By the place of the cursor, as the reaction itself goes about it; no case looks at what is
forgotten. -/
theorem addStep_bare (session : Session σ) (record : Record) (draft : FeatureDraft) :
    session.bare.addStep record draft = (session.addStep record draft).bare := by
  unfold addStep
  rw [bare_cursor]
  rcases session.cursor with _ | _ | index
  · rfl
  · cases draft.background <;> rfl
  · dsimp only
    cases draft.children[index]? <;> rfl

theorem addExamples_bare [PatternEngine] (session : Session σ) (record : Record)
    (draft : FeatureDraft) :
    session.bare.addExamples record draft = (session.addExamples record draft).bare := by
  unfold addExamples
  rw [bare_cursor]
  rcases session.cursor with _ | _ | index
  · rfl
  · rfl
  · dsimp only
    rcases draft.children[index]? with _ | _ | _ <;> rfl

variable [PatternEngine] [DiagnosticSink σ]

/-- What one event does can be seen without the sink and the default path. Syntax errors go to the
sink, which is why the bare one ignores them. -/
theorem handle_bare (session : Session σ) (event : Event) :
    session.bare.handle event = (session.handle event).bare := by
  cases event with
  | setPath | setLanguage | openFeature | endOfDocument | syntaxError => rfl
  | openBackground record => exact inFeature_bare (session.openBackground_bare record)
  | openScenario | openOutline => exact inFeature_bare fun _ => rfl
  | addExamples record => exact inFeature_bare (session.addExamples_bare record)
  | addStep record => exact inFeature_bare (session.addStep_bare record)

theorem call_bare (session : Session σ) (c : Call) :
    session.bare.call c = (session.call c).bare := by
  cases c with
  | event event => exact session.handle_bare event
  | result => exact session.settle_bare

/-- The run form: to forget first and run is to run and forget. -/
theorem run_bare (session : Session σ) (calls : List Call) :
    session.bare.run calls = (session.run calls).bare := by
  induction calls generalizing session with
  | nil => rfl
  | cons c calls ih =>
    rw [run_cons, run_cons, call_bare]
    exact ih _

/-- All answers of a run are those of the bare session. -/
theorem results_bare (session : Session σ) (calls : List Call) :
    session.bare.results calls = session.results calls := by
  induction calls generalizing session with
  | nil => rfl
  | cons c calls ih =>
    -- The answers behind the call, by the hypothesis of the induction for the session that it
    -- leaves.
    have hrest : (session.bare.call c).session.results calls =
        (session.call c).session.results calls := by
      rw [call_bare]
      exact ih _
    unfold results
    rw [hrest, result_bare]

/-! ## A new document -/

/-- What a document starts with. -/
def opening (path code : String) (record : Record) : List Call :=
  [.event (.setPath path), .event (.setLanguage code), .event (.openFeature record)]

/-- After that, sessions of one style of paths differ in what no answer is made of. -/
theorem bare_run_opening {τ : Type} [DiagnosticSink τ] {a : Session σ} {b : Session τ}
    (h : a.settings.style = b.settings.style) (path code : String) (record : Record) :
    (a.run (opening path code record)).bare = (b.run (opening path code record)).bare := by
  -- The three events set all that the bare session still has, except for the style.
  have hrun : ∀ {υ : Type} [DiagnosticSink υ] (session : Session υ),
      (session.run (opening path code record)).bare =
        { settings := { style := session.settings.style }
          path := session.settings.style.apply path
          language := some ⟨code⟩
          draft := some { placed := ⟨session.settings.style.apply path, record⟩ }
          sink := {} } := fun _ => rfl
  rw [hrun, hrun, h]

/-- **What came before does not matter.** From the opening of a document on, two sessions of one
style give the same answers; so the tree of a document is the one that a fresh session makes. -/
theorem results_run_opening {τ : Type} [DiagnosticSink τ] (style : PathStyle)
    (fallback fallback' : String) (sink : σ) (sink' : τ) (history history' : List Call) :
    let used := (start ⟨style, fallback⟩ sink).run history
    let other := (start ⟨style, fallback'⟩ sink').run history'
    (∀ path code record after,
      (used.run (opening path code record)).results after =
        (other.run (opening path code record)).results after) ∧
    ∀ (document : Document.Feature) (path code : String), ∃ feature,
      (document.replay path code used).session.result = .ok (some feature) ∧
      (document.replay path code (start ⟨style, fallback'⟩ sink')).session.result =
        .ok (some feature) := by
  intro used other
  have hused : used.settings.style = style := by rw [settings_run]; rfl
  have hother : other.settings.style = style := by rw [settings_run]; rfl
  refine ⟨?_, ?_⟩
  · intro path code record after
    have hbare := bare_run_opening (hused.trans hother.symm) path code record
    rw [← results_bare, hbare, results_bare]
  · intro document path code
    let fresh := start ⟨style, fallback'⟩ sink'
    have hstyle : used.settings.style = fresh.settings.style := hused
    have hbare : (document.replay path code used).session.bare =
        (document.replay path code fresh).session.bare := by
      rw [document.session_replay, document.session_replay]
      show ((used.run (opening path code document.record)).run _).bare =
        ((fresh.run (opening path code document.record)).run _).bare
      rw [← run_bare (used.run _), ← run_bare (fresh.run _), bare_run_opening hstyle]
    -- There is a tree at all because the fresh session is known to have one.
    obtain ⟨hlanguage, hdraft⟩ := document.draft_replay path code ⟨style, fallback'⟩ sink'
    have hfresh := result_of_draft hlanguage hdraft
    refine ⟨_, ?_, hfresh⟩
    rw [← result_bare, hbare, result_bare]
    exact hfresh

end Session
end FeatureTree
