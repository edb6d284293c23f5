import FeatureTree.Placed

/-!
# Heads

Features, backgrounds, scenarios, outlines and examples tables all open with the same line: a
keyword and a name, with comments above it and a description below.
-/

set_option autoImplicit false

namespace FeatureTree

/-- The opening of a node that has a keyword line. -/
structure Head where
  /-- The record the node was built from, exactly as it came. -/
  record : Record
  location : Location
  comment : Comment
  keyword : String
  name : String
  description : String
deriving DecidableEq, Repr, Inhabited

namespace Head

def ofPlaced (placed : Placed) : Head where
  record := placed.record
  location := placed.location
  comment := placed.comment
  keyword := placed.record.keyword
  name := placed.record.name
  description := placed.record.description

/-- The head without the blanks before its name and behind its description. -/
def trimmed (head : Head) : Head :=
  { head with
    name := Text.trimStart head.name
    description := Text.trimEnd head.description }

end Head
end FeatureTree
