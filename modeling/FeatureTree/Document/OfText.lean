import FeatureTree.Document.Basic
import FeatureTree.Text.Blank
import FeatureTree.Text.Dedent
import FeatureTree.Text.Parser

/-!
# Reading a document

The grammar of feature files in English, from single lines up to the file. Each parser reads one
thing that can be named, and is written in the order in which its parts stand in a file.

Four rules shape it. **A comment is an end of line:** wherever a line may end, any number of comment
lines may follow. **Free text has no mark of its own:** a description goes on until a line starts
with a keyword that could come next. **A table is as wide as its first row:** longer rows are cut
to it, and a shorter one makes the file unreadable, whatever else it might have been. And **a first
line that names a language is taken at its word:** where the name is not that of English, the line
is not a comment instead, and the file is unreadable too.
-/

set_option autoImplicit false

namespace FeatureTree
namespace Document

open Text (Parser)
open Text.Parser

/-! ## Keywords -/

namespace Keyword

def feature : List String := ["Feature", "Business Need", "Ability"]
def background : List String := ["Background"]
def rule : List String := ["Rule"]
def scenario : List String := ["Example", "Scenario"]
def outline : List String := ["Scenario Outline", "Scenario Template"]
def examples : List String := ["Examples", "Scenarios"]

/-- Keywords of steps that can open a list of steps. -/
def leadingStep : List String := ["* ", "Given ", "When ", "Then "]

/-- Keywords of steps that go on from the step before. -/
def followingStep : List String := ["And ", "But "]

/-- What ends the description of a feature. -/
def afterFeature : List String := background ++ rule ++ scenario ++ outline

def afterRule : List String := background ++ scenario ++ outline

/-- What ends the description of a background, a scenario or an outline. -/
def afterScenario : List String := scenario ++ outline ++ leadingStep ++ followingStep

def afterExamples : List String := afterScenario ++ ["|"]

end Keyword

/-! ## Blanks, line ends and comments -/

def blank : Parser Char :=
  charWhere fun c => c == ' ' || c == '\t'

def blanks : Parser Unit :=
  skipMany blank

/-- The characters at the end of a line. -/
def lineBreak : Parser Unit := do
  let _ ← optional (char '\r')
  char '\n'

def charOfLine : Parser Char := do
  notAhead lineBreak
  anyChar

def commentText : Parser Unit := do
  blanks
  char '#'
  skipMany charOfLine

/-- The end of a line, with a comment before it if there is one. -/
def lineEnd : Parser Unit := do
  let _ ← optional commentText
  lineBreak

def blankOrLineEnd : Parser Unit :=
  lineEnd <|> do let _ ← blank

/-- The end of a line with all blanks and blank lines that follow, or the end of the text. -/
def lineEnds : Parser Unit :=
  (do let _ ← many1 blankOrLineEnd) <|> ending

/-- A line of comment with all blanks and blank lines that follow. -/
def comment : Parser Unit := do
  commentText
  lineEnds

def textOfLine : Parser (List Char) :=
  many1 charOfLine

/-! ## Parts of a keyword line -/

/-- One of the given keywords, and its line. -/
def keyword (keywords : List String) : Parser (String × Nat) := do
  skipMany comment
  let line ← currentLine
  let found ← oneOf keywords
  return (found, line)

def tag : Parser String := do
  char '@'
  let name ← many1 (charWhere fun c => !Text.isBlank c && c != '@')
  return String.ofList name

/-- The tags above a keyword line, on one line or several. -/
def tags : Parser (List String) := do
  let found ← sepBy tag (skipMany blankOrLineEnd)
  blanks
  skipMany lineEnd
  return found

/-- The name behind a keyword and its colon, and the end of the line. -/
def nameAfterColon : Parser (Option String) := do
  char ':'
  blanks
  let name ← optional textOfLine
  lineEnds
  return name.map fun cs => Text.trimEnd (String.ofList cs)

/-- A line of a description, which ends where a line starts with a tag or one of the keywords. -/
def descriptionLine (stop : List String) : Parser String := do
  blanks
  notAhead (char '@')
  notAhead (keyword stop)
  blanks
  let text ← textOfLine
  lineEnds
  return String.ofList text

/-- The text below a keyword line, if there is more to it than blanks. -/
def description (stop : List String) : Parser (Option String) := do
  let found ← sepBy (descriptionLine stop) blanks
  skipMany blankOrLineEnd
  let text := "\n".intercalate found
  return if Text.allBlank text then none else some text

/-! ## Tables and doc strings -/

/-- A bar and the cell behind it. A bar at the end of a line has no cell behind it. -/
def cell : Parser String := do
  char '|'
  blanks
  notAhead (lineBreak <|> ending)
  let text ← many do
    notAhead (char '|')
    charOfLine
  return Text.trim (String.ofList text)

def tableRow : Parser (List String) := do
  let cells ← sepBy cell blanks
  blanks
  char '|'
  blanks
  lineEnds
  return cells

/-- A table, all of its rows as wide as the first. -/
def table : Parser Table := do
  blanks
  let line ← currentLine
  let first ← tableRow
  let others ← many do
    blanks
    tableRow
  if others.any fun row => row.length < first.length then broken
  else return ⟨first :: others.map fun row => row.take first.length, line⟩

def delimited (delimiter : List Char) : Parser String := do
  word delimiter
  let inside ← sourceOf <| skipMany do
    notAhead (word delimiter)
    lineEnd <|> do let _ ← anyChar
  word delimiter
  lineEnds
  return String.ofList (Text.dedent inside)

/-- A doc string, between three quotes or three grave accents. -/
def docString : Parser String :=
  delimited ['"', '"', '"'] <|> delimited ['\x60', '\x60', '\x60']

/-! ## Steps -/

def step (keywords : List String) : Parser Step := do
  skipMany comment
  let (found, line) ← keyword keywords
  blanks
  let value ← textOfLine
  lineEnds
  blanks
  let docString ← optional docString
  let table ← optional table
  return {
    keyword := found
    value := Text.trimEnd (String.ofList value)
    line
    docString, table }

/-- A list of steps, which a step that goes on from another cannot open. -/
def steps : Parser (List Step) :=
  (do
    let first ← step Keyword.leadingStep
    let others ← many do
      blanks
      step Keyword.leadingStep <|> step Keyword.followingStep
    return first :: others) <|> pure []

/-! ## Scenarios and what is around them -/

def background : Parser Background := do
  skipMany comment
  blanks
  let (found, line) ← keyword Keyword.background
  let name ← nameAfterColon
  let description ← description Keyword.afterScenario
  let steps ← steps
  return { keyword := found, name := name.getD "", description, line, steps }

def examples : Parser Examples := do
  skipMany comment
  blanks
  let tags ← tags
  blanks
  let (found, line) ← keyword Keyword.examples
  let name ← nameAfterColon
  let description ← description Keyword.afterExamples
  let table ← optional table
  return { keyword := found, name, description, line, tags, table }

def scenarioWith (keywords : List String) : Parser Scenario := do
  skipMany comment
  blanks
  let tags ← tags
  blanks
  let (found, line) ← keyword keywords
  let name ← nameAfterColon
  let description ← description Keyword.afterScenario
  let steps ← steps
  let examples ← many examples
  return {
    keyword := found, name := name.getD "", description, line, tags, steps, examples }

def scenario : Parser Scenario :=
  scenarioWith Keyword.scenario <|> scenarioWith Keyword.outline

def scenarios : Parser (List Scenario) := do
  blanks
  sepBy scenario blanks

def rule : Parser Rule := do
  blanks
  let tags ← tags
  blanks
  let (found, line) ← keyword Keyword.rule
  let name ← nameAfterColon
  let description ← description Keyword.afterRule
  let background ← optional background
  skipMany lineEnd
  let scenarios ← scenarios
  skipMany lineEnd
  return {
    keyword := found, name := name.getD "", description, line, tags, background,
    scenarios }

/-! ## Files -/

/-- A first line that names the language. All that stands between the blanks behind the colon and the
end of the line is the name, and a file in a language other than English cannot be read. -/
def languageLine : Parser Unit := do
  skipMany (lineBreak <|> do let _ ← blank)
  char '#'
  blanks
  word "language".toList
  blanks
  char ':'
  blanks
  let code ← textOfLine
  lineEnd
  if code = "en".toList then return else broken

def feature : Parser Feature := do
  blanks
  let _ ← optional languageLine
  skipMany lineEnd
  let tags ← tags
  let (found, line) ← keyword Keyword.feature
  let name ← nameAfterColon
  let description ← description Keyword.afterFeature
  let background ← optional background
  skipMany lineEnd
  let scenarios ← scenarios
  skipMany lineEnd
  blanks
  let rules ← sepBy rule blanks
  skipMany lineEnd
  return {
    keyword := found, name := name.getD "", description, line, tags, background,
    scenarios, rules }

/-- The text with a line feed at its end. -/
def closeLastLine (cs : List Char) : List Char :=
  if cs.getLast? = some '\n' then cs else cs ++ ['\n']

def Feature.ofText? (text : String) : Option Feature :=
  feature.parse? (closeLastLine text.toList)

end Document
end FeatureTree
