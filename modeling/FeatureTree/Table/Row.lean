import FeatureTree.Location
import FeatureTree.Table.Matcher

/-!
# Examples rows

The first row of an examples table is its header: it names the columns. Every later row gives the
columns their values, cell by cell. **Cells beyond the last column are dropped, and a column beyond
the last cell has no value at all,** which is not the same as an empty one: its token stays as it is
written.

Of several columns of one name the first is the one that is looked up.

A header that names too much for the pattern engine has no tokens, and its rows change no text.
-/

set_option autoImplicit false

namespace FeatureTree

structure Header where
  cells : List String
  location : Location
deriving DecidableEq, Repr, Inhabited

/-- A row of an examples table: its values by column, and the tokens its header stands for. -/
structure Row where
  data : List (String × String)
  location : Location
  /-- Reads the tokens of all columns, also of those that have no value here; of none if the pattern
  of the header was refused. -/
  matcher : Matcher
deriving BEq, ReflBEq, LawfulBEq, Repr, Inhabited

namespace Header

variable [PatternEngine]

/-- Whether the pattern of the header's tokens is within the engine's limit. -/
def compiles (header : Header) : Bool :=
  (Matcher.ofNames header.cells).compiles

def matcher (header : Header) : Matcher :=
  (Matcher.ofNames header.cells).compile

def row (header : Header) (cells : List String) (location : Location) : Row where
  data := header.cells.zip cells
  location := location
  matcher := header.matcher

end Header

namespace Row

/-- The value in the first column of the given name. -/
def get? (row : Row) (column : String) : Option String :=
  row.data.lookup column

def values (row : Row) : List String :=
  row.data.map Prod.snd

/-- The text with the row's values in the places of its columns' tokens. -/
def expand (row : Row) (text : String) : String :=
  row.matcher.substitute row.get? text

end Row
end FeatureTree
