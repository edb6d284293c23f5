import FeatureTree.Tree.Head
import FeatureTree.Tree.Step

/-!
# Backgrounds, scenarios and outlines

A feature has one background, and every scenario carries it along: **a scenario can be run from what
it holds itself,** without the feature it came from. For the same reason it carries the feature's
tags beside its own. The two sets stay apart, and `ScenarioHead.allTagNames` puts them together.

A feature that declares no background has the empty one, which has a language and no steps.
-/

set_option autoImplicit false

namespace FeatureTree

/-! ## Backgrounds -/

/-- The steps that come before those of every scenario. -/
inductive Background where
  /-- The background of a feature that declares none. -/
  | empty (language : Language)
  | declared (head : Head) (language : Language) (steps : List Step)
deriving DecidableEq, Repr

namespace Background

/-- Whether the background is that of a feature that declares none. -/
def isEmpty : Background → Bool
  | empty _ => true
  | declared .. => false

def head? : Background → Option Head
  | empty _ => none
  | declared head _ _ => some head

def language : Background → Language
  | empty language => language
  | declared _ language _ => language

def steps : Background → List Step
  | empty _ => []
  | declared _ _ steps => steps

/-! A background without a keyword line has neither a record nor a place, and its texts are empty. -/

def record? (background : Background) : Option Record :=
  background.head?.map Head.record

def location? (background : Background) : Option Location :=
  background.head?.map Head.location

def comment (background : Background) : Comment :=
  (background.head?.map Head.comment).getD .empty

def keyword (background : Background) : String :=
  (background.head?.map Head.keyword).getD ""

def name (background : Background) : String :=
  (background.head?.map Head.name).getD ""

def description (background : Background) : String :=
  (background.head?.map Head.description).getD ""

end Background

/-! ## Examples tables -/

structure ExamplesTable extends Head where
  header : Header
  rows : List Row
deriving BEq, ReflBEq, LawfulBEq, Repr

/-- The header of an examples block: its first row. A block without rows has a header without
columns, found at the block's keyword. -/
def Header.ofPlaced (placed : Placed) : Header :=
  match placed.record.rows with
  | [] => ⟨[], placed.location⟩
  | first :: _ => ⟨first.cells, placed.location.onLine first.line⟩

def ExamplesTable.ofPlaced [PatternEngine] (placed : Placed) : ExamplesTable :=
  let header := Header.ofPlaced placed
  { Head.ofPlaced placed with
    header
    rows := placed.record.rows.tail.map fun row =>
      header.row row.cells (placed.location.onLine row.line) }

/-! ## Scenarios and outlines -/

structure ScenarioHead extends Head where
  language : Language
  background : Background
  tags : TagSet
  featureTags : TagSet
deriving DecidableEq, Repr

/-- The names of the feature's tags and then of the scenario's own, without repeats. -/
def ScenarioHead.allTagNames (head : ScenarioHead) : List String :=
  head.featureTags.unionNames head.tags

/-- A sequence of steps to be run. -/
structure Scenario extends ScenarioHead where
  /-- The scenario's own steps; those of the background come before them. -/
  steps : List Step
deriving DecidableEq, Repr

/-- A sequence of step templates, and the examples to run them on. -/
structure Outline extends ScenarioHead where
  steps : List OutlineStep
  tables : List ExamplesTable
deriving BEq, ReflBEq, LawfulBEq, Repr

/-- The steps that one row of examples makes of an outline. -/
structure Expansion where
  table : ExamplesTable
  row : Row
  steps : List Step
deriving BEq, ReflBEq, LawfulBEq, Repr

def Outline.expansions (outline : Outline) : List Expansion :=
  outline.tables.flatMap fun table =>
    table.rows.map fun row => ⟨table, row, outline.steps.map (·.instantiate row)⟩

end FeatureTree
