import FeatureTree.Argument
import FeatureTree.Language
import FeatureTree.Placed
import FeatureTree.Table.Row

/-!
# Steps

A scenario is made of steps, an outline of step templates. Both are read from the same line and
carry the same data; they differ in what can be done with them. **A template is not run:** a row of
examples turns it into a step, which sits where the row is and has the row's values in its texts.
-/

set_option autoImplicit false

namespace FeatureTree

/-- What the line of a step says, be it a step or a template. -/
structure StepLine where
  /-- The record the step was built from, exactly as it came. -/
  record : Record
  language : Language
  location : Location
  /-- The keyword with the space behind it. -/
  keyword : String
  name : String
  argument : Option Argument
deriving DecidableEq, Repr

def StepLine.ofPlaced (placed : Placed) (language : Language) : StepLine where
  record := placed.record
  language := language
  location := placed.location
  keyword := placed.record.keyword
  name := placed.record.name
  argument := Argument.ofRecord? placed.record placed.location

structure Step extends StepLine
deriving DecidableEq, Repr

/-- A step template, whose texts may hold the tokens of an examples header. -/
structure OutlineStep extends StepLine
deriving DecidableEq, Repr

namespace OutlineStep

/-- The step that a row of examples makes of the template. The step is found where the row is, and
keeps the record of the template. -/
def instantiate (template : OutlineStep) (row : Row) : Step where
  record := template.record
  language := template.language
  location := row.location
  keyword := template.keyword
  name := row.expand template.name
  argument := template.argument.map (·.mapTexts row.expand)

end OutlineStep
end FeatureTree
