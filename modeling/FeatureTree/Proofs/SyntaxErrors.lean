import FeatureTree.Proofs.Isolation

/-!
# Syntax errors and the tree

A session hands syntax errors to its sink, and the end of a document it notes for debugging.
**Neither shows in an answer or in a warning, wherever such events stand and whatever the sink is;**
and the sink gets each error once, in the order of arrival, whatever else happens in between.

The first half is once more about `Session.bare`: an event of this kind leaves the bare session as
it is, and the bare session is all that answers and warnings are made of.
-/

set_option autoImplicit false

namespace FeatureTree

/-! ## Events that are not about the tree -/

namespace Event

/-- Whether the event reports on the reading and not on the document. -/
def isDiagnostic : Event → Bool
  | endOfDocument | syntaxError _ => true
  | _ => false

def error? : Event → Option SyntaxError
  | syntaxError error => some error
  | _ => none

end Event

def Call.isDiagnostic (c : Call) : Bool :=
  c.event?.any Event.isDiagnostic

/-- The two diagnostic calls by name. The lemmas below split on this and close both cases by
computation. -/
theorem Call.isDiagnostic_iff {c : Call} :
    c.isDiagnostic = true ↔
      c = .event .endOfDocument ∨ ∃ error, c = .event (.syntaxError error) := by
  constructor
  · intro h
    rcases c with e | _
    · cases e with
      | endOfDocument => exact .inl rfl
      | syntaxError error => exact .inr ⟨error, rfl⟩
      | _ => exact Bool.noConfusion h
    · exact Bool.noConfusion h
  · rintro (rfl | ⟨error, rfl⟩) <;> rfl

/-- The calls that are about the tree. Two lists of calls have these in common exactly if one
becomes the other by leaving out diagnostic events and putting in others. -/
def aboutTree (calls : List Call) : List Call :=
  calls.filter fun c => !c.isDiagnostic

/-- The syntax errors among the calls, in order. -/
def syntaxErrors (calls : List Call) : List SyntaxError :=
  (events calls).filterMap Event.error?

/-- One event adds its error, if it has one; the fold over a sink is unrolled along this. -/
theorem syntaxErrors_cons_event (event : Event) (calls : List Call) :
    syntaxErrors (.event event :: calls) = event.error?.toList ++ syntaxErrors calls := by
  unfold syntaxErrors
  rw [events_cons_event, List.filterMap_cons]
  cases event.error? <;> rfl

theorem syntaxErrors_cons_result (calls : List Call) :
    syntaxErrors (.result :: calls) = syntaxErrors calls := rfl

namespace Session

variable [PatternEngine] {σ : Type} [DiagnosticSink σ]

/-! ## What they leave alone -/

/-- Warnings are made from the bare session too: what the sink holds and where the file is do not
show in them. -/
theorem warnings_bare (session : Session σ) (calls : List Call) :
    session.bare.warnings calls = session.warnings calls := by
  induction calls generalizing session with
  | nil => rfl
  | cons c calls ih =>
    rw [warnings_cons, warnings_cons, call_bare]
    exact congrArg _ (ih _)

/-- The step lemma of this file. A diagnostic call changes the sink or nothing, and `bare` forgets
the sink. -/
theorem bare_call_of_diagnostic (session : Session σ) {c : Call} (h : c.isDiagnostic) :
    (session.call c).session.bare = session.bare := by
  rcases Call.isDiagnostic_iff.mp h with rfl | ⟨error, rfl⟩ <;> rfl

theorem results_cons_of_diagnostic (session : Session σ) {c : Call} (calls : List Call)
    (h : c.isDiagnostic) : session.results (c :: calls) = session.results calls := by
  -- Answers are those of the bare session, and the call leaves that one as it is.
  have hrest : (session.call c).session.results calls = session.results calls := by
    rw [← results_bare, bare_call_of_diagnostic session h, results_bare]
  rcases Call.isDiagnostic_iff.mp h with rfl | ⟨error, rfl⟩ <;> exact hrest

/-- The same for warnings. The call logs at most for debugging, so that its own part is empty. -/
theorem warnings_cons_of_diagnostic (session : Session σ) {c : Call} (calls : List Call)
    (h : c.isDiagnostic) : session.warnings (c :: calls) = session.warnings calls := by
  have hnone : ((session.call c).notices.filter fun notice => notice.level = .warn) = [] := by
    rcases Call.isDiagnostic_iff.mp h with rfl | ⟨error, rfl⟩ <;> rfl
  rw [warnings_cons, hnone, List.nil_append, ← warnings_bare, bare_call_of_diagnostic session h,
    warnings_bare]

/-- By induction on the calls: those that the filter keeps act as before, and for the others the
step lemma applies. -/
theorem results_aboutTree (session : Session σ) (calls : List Call) :
    session.results (aboutTree calls) = session.results calls := by
  induction calls generalizing session with
  | nil => rfl
  | cons c calls ih =>
    unfold aboutTree at ih ⊢
    -- The filter drops the call in one case and keeps it in the other.
    by_cases hc : c.isDiagnostic = true
    · rw [List.filter_cons_of_neg (by simp [hc]), ih, results_cons_of_diagnostic session calls hc]
    · rw [List.filter_cons_of_pos (by simp [hc])]
      cases c with
      | event event => exact ih _
      | result => exact congrArg (session.result :: ·) (ih _)

theorem warnings_aboutTree (session : Session σ) (calls : List Call) :
    session.warnings (aboutTree calls) = session.warnings calls := by
  induction calls generalizing session with
  | nil => rfl
  | cons c calls ih =>
    unfold aboutTree at ih ⊢
    by_cases hc : c.isDiagnostic = true
    · rw [List.filter_cons_of_neg (by simp [hc]), ih, warnings_cons_of_diagnostic session calls hc]
    · rw [List.filter_cons_of_pos (by simp [hc]), warnings_cons, warnings_cons, ih]

/-! ## What the sink gets -/

/-- What one event hands to the sink. Events with records leave it alone by `handle_surroundings`.
-/
theorem sink_handle (session : Session σ) (event : Event) :
    (session.handle event).session.sink =
      event.error?.toList.foldl DiagnosticSink.receive session.sink := by
  cases event with
  | setPath | setLanguage | endOfDocument | syntaxError => rfl
  | _ => exact (handle_surroundings rfl).sink

/-- The sink behind a run is a fold over the errors alone, however the run answers and warns. -/
theorem sink_run (session : Session σ) (calls : List Call) :
    (session.run calls).sink =
      (syntaxErrors calls).foldl DiagnosticSink.receive session.sink := by
  induction calls generalizing session with
  | nil => rfl
  | cons c calls ih =>
    rw [run_cons, ih]
    cases c with
    | event event =>
      rw [syntaxErrors_cons_event, List.foldl_append, ← sink_handle]
      rfl
    | result =>
      rw [syntaxErrors_cons_result, ← session.settle_surroundings.sink]
      rfl

end Session

/-- A collecting sink is a list that grows at its end. -/
theorem foldl_receive_collect (kept errors : List SyntaxError) :
    errors.foldl DiagnosticSink.receive (CollectErrors.mk kept) = ⟨kept ++ errors⟩ := by
  induction errors generalizing kept with
  | nil => rw [List.append_nil]; rfl
  | cons error errors ih =>
    rw [List.foldl_cons, ← List.singleton_append, ← List.append_assoc]
    exact ih (kept ++ [error])

theorem foldl_receive_forward {τ : Type} (onError : τ → SyntaxError → τ) (memory : τ)
    (errors : List SyntaxError) :
    errors.foldl DiagnosticSink.receive (ForwardErrors.mk onError memory) =
      ⟨onError, errors.foldl onError memory⟩ := by
  induction errors generalizing memory with
  | nil => rfl
  | cons error errors ih => exact ih (onError memory error)

/-- The sink whose function stores what it is given. -/
def ForwardErrors.storing : ForwardErrors (List SyntaxError) :=
  ⟨fun seen error => seen ++ [error], []⟩

/-- **Syntax errors and trees do not meet.** Calls that are about the tree in the same way have the
same answers and warnings, with any two sinks; and after any calls a sink that keeps errors has
those that came. -/
theorem Session.answers_start_of_aboutTree [PatternEngine] {σ τ : Type} [DiagnosticSink σ]
    [DiagnosticSink τ] (settings : Settings) (sink : σ) (sink' : τ) :
    (∀ calls calls', aboutTree calls = aboutTree calls' →
      (start settings sink).results calls = (start settings sink').results calls' ∧
      (start settings sink).warnings calls = (start settings sink').warnings calls') ∧
    (∀ calls, ((start settings (CollectErrors.mk [])).run calls).sink.errors =
      syntaxErrors calls) ∧
    (∀ calls, ((start settings ForwardErrors.storing).run calls).sink.memory =
      syntaxErrors calls) ∧
    ∀ (υ : Type) (onError : υ → SyntaxError → υ) (memory : υ) (calls : List Call),
      ((start settings (ForwardErrors.mk onError memory)).run calls).sink.memory =
        (syntaxErrors calls).foldl onError memory := by
  -- Two sessions that start with different sinks are one bare session.
  have hbare : (start settings sink).bare = (start settings sink').bare := rfl
  refine ⟨?_, ?_, ?_, ?_⟩
  · intro calls calls' h
    refine ⟨?_, ?_⟩
    · rw [← results_aboutTree, ← results_bare, hbare, results_bare, h, results_aboutTree]
    · rw [← warnings_aboutTree, ← warnings_bare, hbare, warnings_bare, h, warnings_aboutTree]
  · intro calls
    rw [sink_run]
    exact congrArg CollectErrors.errors (foldl_receive_collect [] (syntaxErrors calls))
  · intro calls
    rw [sink_run]
    refine (congrArg ForwardErrors.memory (foldl_receive_forward _ _ _)).trans ?_
    rw [List.foldl_append_eq_append, ← List.flatMap_def, List.flatMap_singleton']
    rfl
  · intro υ onError memory calls
    rw [sink_run]
    exact congrArg ForwardErrors.memory (foldl_receive_forward onError memory _)

end FeatureTree
