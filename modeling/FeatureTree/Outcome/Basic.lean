/-!
# Outcomes

What came of running something, a step or a scenario or whatever the runner calls its subjects. An
outcome is told to a reporter as a sequence of reports: **nothing for what was not run, one report
for what passed, and two for what failed,** the failure and then its cause. With each report goes
whatever the teller wants the reporter to know.
-/

set_option autoImplicit false

namespace FeatureTree

/-- What came of running a subject of type `α`. -/
inductive Outcome (α ε : Type) where
  | unknown (subject : α)
  | passed (subject : α)
  | failed (subject : α) (cause : ε)
deriving DecidableEq, Repr

/-- One thing said to a reporter, with a remark of type `ρ`. -/
inductive Report (ε ρ : Type) where
  | passed (remark : ρ)
  | failed (remark : ρ)
  | exception (cause : ε) (remark : ρ)
deriving DecidableEq, Repr

/-- A type of reporters that can be told of causes of type `ε`. -/
class Reporter (τ ε ρ : Type) where
  /-- The reporter after one more report. -/
  receive : τ → Report ε ρ → τ

/-- A list of reports is a reporter that keeps all of them. -/
instance {ε ρ : Type} : Reporter (List (Report ε ρ)) ε ρ where
  receive reports report := reports ++ [report]

namespace Outcome

variable {α β ε ρ τ : Type}

def subject : Outcome α ε → α
  | unknown a | passed a | failed a _ => a

def cause? : Outcome α ε → Option ε
  | unknown _ | passed _ => none
  | failed _ cause => some cause

def isUnknown : Outcome α ε → Bool
  | unknown _ => true
  | _ => false

def isPassed : Outcome α ε → Bool
  | passed _ => true
  | _ => false

def isFailed : Outcome α ε → Bool
  | failed .. => true
  | _ => false

def label : Outcome α ε → String
  | unknown _ => "unknown"
  | passed _ => "passed"
  | failed .. => "failed"

def glyph? : Outcome α ε → Option String
  | unknown _ => none
  | passed _ => some "✓"
  | failed .. => some "✗"

def render (outcome : Outcome α ε) : String :=
  outcome.glyph?.getD ""

def mapSubject (f : α → β) : Outcome α ε → Outcome β ε
  | unknown a => unknown (f a)
  | passed a => passed (f a)
  | failed a cause => failed (f a) cause

/-- What there is to say about an outcome. -/
def reports (outcome : Outcome α ε) (remark : ρ) : List (Report ε ρ) :=
  match outcome with
  | unknown _ => []
  | passed _ => [.passed remark]
  | failed _ cause => [.failed remark, .exception cause remark]

def describe [Reporter τ ε ρ] (outcome : Outcome α ε) (remark : ρ) (reporter : τ) : τ :=
  (outcome.reports remark).foldl Reporter.receive reporter

end Outcome
end FeatureTree
