/-!
# Languages

Feature files are written in one of many dialects. A tree carries the code of its dialect and
asks nothing more of it: any text is a code.
-/

set_option autoImplicit false

namespace FeatureTree

/-- The dialect a document is written in, by its code, such as `en`. -/
structure Language where
  code : String
deriving DecidableEq, Repr

end FeatureTree
