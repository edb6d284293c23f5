/-!
# Documents

A document is a feature file as its grammar sees it. Unlike a feature tree it keeps rules, which
group scenarios and may have backgrounds of their own; **a scenario with examples is not told apart
from one without,** save by its having them.

Lines are those of the keywords, and for a table that of its first row. Everything that a file may
leave out is an `Option` or a list.
-/

set_option autoImplicit false

namespace FeatureTree
namespace Document

structure Table where
  rows : List (List String)
  line : Nat
deriving DecidableEq, Repr, Inhabited

structure Step where
  /-- The keyword with the space behind it. -/
  keyword : String
  value : String
  line : Nat
  docString : Option String := none
  table : Option Table := none
deriving DecidableEq, Repr, Inhabited

structure Examples where
  keyword : String
  name : Option String := none
  description : Option String := none
  line : Nat
  tags : List String := []
  table : Option Table := none
deriving DecidableEq, Repr, Inhabited

/-- A scenario, with examples if it is an outline. -/
structure Scenario where
  keyword : String
  name : String
  description : Option String := none
  line : Nat
  tags : List String := []
  steps : List Step := []
  examples : List Examples := []
deriving DecidableEq, Repr, Inhabited

structure Background where
  keyword : String
  name : String
  description : Option String := none
  line : Nat
  steps : List Step := []
deriving DecidableEq, Repr, Inhabited

structure Rule where
  keyword : String
  name : String
  description : Option String := none
  line : Nat
  tags : List String := []
  background : Option Background := none
  scenarios : List Scenario := []
deriving DecidableEq, Repr, Inhabited

/-- A feature, which is all there is in a file. -/
structure Feature where
  keyword : String
  name : String
  description : Option String := none
  line : Nat
  tags : List String := []
  background : Option Background := none
  scenarios : List Scenario := []
  rules : List Rule := []
deriving DecidableEq, Repr, Inhabited

end Document
end FeatureTree
