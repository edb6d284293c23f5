import FeatureTree.Document.Basic
import FeatureTree.Session.Run

/-!
# Replaying a document

A document that is already known as a whole can be told to a session as the events of a reader. The
telling is in order and complete, so **every event finds its place,** whatever the session has seen
before.

Rules have no counterpart in a feature tree. Their scenarios are told among those outside rules, all
of them ordered by line, and their backgrounds are left out with a warning each.

A document does not say on which lines its tags are. They are taken to be on the line above the
keyword.
-/

set_option autoImplicit false

namespace FeatureTree
namespace Document

/-! ## Records -/

/-- The tags of a construct whose keyword is on the given line. -/
def rawTags (tags : List String) (line : Nat) : List RawTag :=
  tags.map (⟨·, max 1 (line - 1)⟩)

def rawRows (table : Option Table) : List RawRow :=
  match table with
  | none => []
  | some table => (table.rows.zipIdx table.line).map fun p => ⟨p.1, p.2⟩

/-- The record of a step. A step with a doc string has no table; the doc string is on the line
below. -/
def Step.record (step : Step) : Record where
  line := step.line
  keyword := step.keyword
  name := step.value
  docString := step.docString.map fun content => ⟨content, none, step.line + 1⟩
  rows := if step.docString.isSome then [] else rawRows step.table

def Examples.record (block : Examples) : Record where
  line := block.line
  tags := rawTags block.tags block.line
  keyword := block.keyword
  name := block.name.getD ""
  description := block.description.getD ""
  rows := rawRows block.table

def Scenario.record (scenario : Scenario) : Record where
  line := scenario.line
  tags := rawTags scenario.tags scenario.line
  keyword := scenario.keyword
  name := scenario.name
  description := scenario.description.getD ""

def Background.record (background : Background) : Record where
  line := background.line
  keyword := background.keyword
  name := background.name
  description := background.description.getD ""

def Feature.record (feature : Feature) : Record where
  line := feature.line
  tags := rawTags feature.tags feature.line
  keyword := feature.keyword
  name := feature.name
  description := feature.description.getD ""

/-! ## Events -/

/-- The events of a scenario: those of an outline if it has examples. -/
def Scenario.events (scenario : Scenario) : List Event :=
  let steps := scenario.steps.map fun step => Event.addStep step.record
  if scenario.examples.isEmpty then .openScenario scenario.record :: steps
  else
    .openOutline scenario.record ::
      (steps ++ scenario.examples.map fun block => Event.addExamples block.record)

def Background.events (background : Background) : List Event :=
  .openBackground background.record ::
    background.steps.map fun step => Event.addStep step.record

namespace Feature

/-- The scenarios outside and inside rules in order of their lines. Of those on one line the ones
outside rules come first, and then those of earlier rules. -/
def scenariosByLine (feature : Feature) : List Scenario :=
  (feature.scenarios ++ feature.rules.flatMap Rule.scenarios).mergeSort
    fun a b => decide (a.line ≤ b.line)

def openingEvents (feature : Feature) (path code : String) : List Event :=
  [.setPath path, .setLanguage code, .openFeature feature.record] ++
    feature.background.toList.flatMap Background.events

def scenarioEvents (feature : Feature) : List Event :=
  feature.scenariosByLine.flatMap Scenario.events ++ [.endOfDocument]

def events (feature : Feature) (path code : String) : List Event :=
  feature.openingEvents path code ++ feature.scenarioEvents

/-- A warning for each background that is not told, in the order of the rules. -/
def ruleNotices (feature : Feature) (path : String) : List Notice :=
  (feature.rules.filter (·.background.isSome)).map fun rule =>
    .ruleBackground path rule.name rule.line

/-- The session after it was told the document. The rules are looked at between the background and
the first scenario. -/
def replay [PatternEngine] {σ : Type} [DiagnosticSink σ] (feature : Feature) (path code : String)
    (session : Session σ) : Reaction σ :=
  let opened := session.handleAll (feature.openingEvents path code)
  let told := opened.session.handleAll feature.scenarioEvents
  { session := told.session
    notices := opened.notices ++ feature.ruleNotices path ++ told.notices }

end Feature
end Document
end FeatureTree
