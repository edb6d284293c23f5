import FeatureTree.Tree.Scenario

/-!
# Features

The root of a tree. Its children are scenarios and outlines, in the order of the document.
-/

set_option autoImplicit false

namespace FeatureTree

/-- A scenario or an outline in a feature. -/
inductive Child where
  | scenario (s : Scenario)
  | outline (o : Outline)
deriving BEq, ReflBEq, LawfulBEq, Repr

namespace Child

/-- What the child has in common with its siblings of either kind. -/
def head : Child → ScenarioHead
  | scenario s => s.toScenarioHead
  | outline o => o.toScenarioHead

def scenario? : Child → Option Scenario
  | scenario s => some s
  | outline _ => none

def outline? : Child → Option Outline
  | scenario _ => none
  | outline o => some o

end Child

/-- A feature: scenarios and outlines under one name, which share a background. -/
structure Feature extends Head where
  language : Language
  background : Background
  tags : TagSet
  children : List Child
deriving BEq, ReflBEq, LawfulBEq, Repr

namespace Feature

def scenarios (feature : Feature) : List Scenario :=
  feature.children.filterMap Child.scenario?

def outlines (feature : Feature) : List Outline :=
  feature.children.filterMap Child.outline?

end Feature
end FeatureTree
