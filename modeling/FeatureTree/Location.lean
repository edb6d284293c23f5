/-!
# Locations

Every node of a feature tree says where it was written: a file and a line. Locations are ordered by
file, and within a file by line.
-/

set_option autoImplicit false

namespace FeatureTree

/-- A line of a file, counted from one. -/
structure Location where
  file : String
  line : Nat
deriving DecidableEq, Repr, Inhabited

namespace Location

def onLine (location : Location) (line : Nat) : Location :=
  { location with line }

@[simp] theorem file_onLine (location : Location) (line : Nat) :
    (location.onLine line).file = location.file := rfl

@[simp] theorem line_onLine (location : Location) (line : Nat) :
    (location.onLine line).line = line := rfl

def render (location : Location) : String :=
  location.file ++ ":" ++ toString location.line

/-- Earlier in the order of files, or no later in the same file. -/
def le (a b : Location) : Bool :=
  a.file < b.file || (a.file == b.file && a.line ≤ b.line)

def sort (locations : List Location) : List Location :=
  locations.mergeSort le

end Location
end FeatureTree
