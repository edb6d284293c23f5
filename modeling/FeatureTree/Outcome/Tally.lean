import FeatureTree.Outcome.Basic

/-!
# Tallies

A tally is the reporter that counts. It keeps the causes of failures as texts, so **outcomes with
causes of different types can be told to one tally,** and it has no use for remarks.
-/

set_option autoImplicit false

namespace FeatureTree

/-- How many outcomes were passes and how many failures, and the causes of the failures. -/
structure Tally where
  passed : Nat := 0
  failed : Nat := 0
  causes : List String := []
deriving DecidableEq, Repr, Inhabited

namespace Tally

instance {ε ρ : Type} [ToString ε] : Reporter Tally ε ρ where
  receive tally
    | .passed _ => { tally with passed := tally.passed + 1 }
    | .failed _ => { tally with failed := tally.failed + 1 }
    | .exception cause _ => { tally with causes := tally.causes ++ [toString cause] }

def isSuccess (tally : Tally) : Bool :=
  tally.failed == 0

end Tally
end FeatureTree
