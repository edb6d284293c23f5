import FeatureTree.Session.Basic

/-!
# Runs of a session

What a user does with a session is a list of calls: events, and questions for the result in between.
**A run is a fold of the reactions,** so a run over two lists of calls one after the other is the run
over the second from where the first ended.
-/

set_option autoImplicit false

namespace FeatureTree

inductive Call where
  | event (event : Event)
  | result
deriving DecidableEq, Repr

namespace Session

variable [PatternEngine] {σ : Type} [DiagnosticSink σ]

def call (session : Session σ) : Call → Reaction σ
  | .event event => session.handle event
  | .result => session.settle

def run (session : Session σ) (calls : List Call) : Session σ :=
  calls.foldl (fun session c => (session.call c).session) session

@[simp] theorem run_nil (session : Session σ) : session.run [] = session := rfl

@[simp] theorem run_cons (session : Session σ) (c : Call) (calls : List Call) :
    session.run (c :: calls) = (session.call c).session.run calls := rfl

theorem run_append (session : Session σ) (first second : List Call) :
    session.run (first ++ second) = (session.run first).run second :=
  List.foldl_append

def notices (session : Session σ) : List Call → List Notice
  | [] => []
  | c :: calls =>
    let reaction := session.call c
    reaction.notices ++ reaction.session.notices calls

theorem notices_append (session : Session σ) (first second : List Call) :
    session.notices (first ++ second) =
      session.notices first ++ (session.run first).notices second := by
  induction first generalizing session with
  | nil => rfl
  | cons c first ih =>
    show (session.call c).notices ++ (session.call c).session.notices (first ++ second) = _
    rw [ih, ← List.append_assoc]
    rfl

/-- The answers to the questions for the result in a list of calls, in order. -/
def results (session : Session σ) : List Call → List (Except BuildError (Option Feature))
  | [] => []
  | c :: calls =>
    let rest := (session.call c).session.results calls
    match c with
    | .event _ => rest
    | .result => session.result :: rest

/-- The session after a list of events, and the notices on the way. -/
def handleAll (session : Session σ) (events : List Event) : Reaction σ :=
  let calls := events.map Call.event
  { session := session.run calls, notices := session.notices calls }

end Session
end FeatureTree
