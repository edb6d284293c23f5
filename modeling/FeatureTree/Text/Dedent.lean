import FeatureTree.Text.Blank

/-!
# Dedenting a block of text

A block quoted inside an indented document carries the document's indentation. `dedent` takes off
**the longest run of leading blanks that the lines share**, so that the block reads as it would at
the margin. Lines that hold nothing but blanks have no say in how long that run is, and come out
empty.

A line that agrees with the start of the run and then simply ends does not shorten it either; a
line of text can do so only if it starts with blanks alone, so this matters for blank lines only.
-/

set_option autoImplicit false

namespace FeatureTree
namespace Text

/-! ## Lines and their ends -/

/-- A line without the carriage return that closes it, if one does. -/
def dropReturn (line : List Char) : List Char :=
  if line.getLast? = some '\r' then line.dropLast else line

/-- The lines of a text. A line ends at a line feed, with or without a carriage return before it;
what follows the last line feed is a line only if it is not empty, and keeps its carriage return. -/
def lines (cs : List Char) : List (List Char) :=
  let pieces := cs.splitOn '\n'
  let closed := pieces.dropLast.map dropReturn
  match pieces.getLast? with
  | none | some [] => closed
  | some last => closed ++ [last]

/-! ## The shared indentation -/

/-- The longest list that both lists start with. -/
def commonPrefix : List Char → List Char → List Char
  | a :: as, b :: bs => if a = b then a :: commonPrefix as bs else []
  | _, _ => []

/-- The indentation after one more line: cut down where the line departs from it. -/
def narrow (indent line : List Char) : List Char :=
  let shared := commonPrefix indent line
  if shared.length < line.length then shared else indent

/-- The indentation that a block of lines shares: the leading blanks of its first line of text, cut
down by every later line. -/
def indentation (block : List (List Char)) : List Char :=
  match block.dropWhile (·.all isBlank) with
  | [] => []
  | first :: later => later.foldl narrow (first.takeWhile isBlank)

/-! ## Taking it off -/

/-- One line of the block without its indentation; a line of blanks becomes empty. -/
def dedentLine (indent line : List Char) : List Char :=
  if line.all isBlank then [] else (indent.isPrefixOf? line).getD []

/-- The block without the indentation its lines share. Every line ends in a line feed, the last one
only if the block's own last line did. -/
def dedent (cs : List Char) : List Char :=
  let block := lines cs
  let indent := indentation block
  let body := block.flatMap fun line => dedentLine indent line ++ ['\n']
  if cs.getLast? = some '\n' then body else body.dropLast

end Text
end FeatureTree
