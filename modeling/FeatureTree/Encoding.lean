import FeatureTree.Diagnostics
import FeatureTree.Tree.Feature

/-!
# Trees as plain data

For the benefit of programs that do not know this library, a tree can be written as plain data:
texts, numbers, lists and objects with named fields. **Every field of every node is written, under a
fixed name and in a fixed order, and what is absent is written as `null`.** The one thing left out is
a row's matcher: in a finished tree it belongs to the header above the row, which is written.

A choice between two kinds, as between scenarios and outlines, is written as an object with one
field whose name is the kind.
-/

set_option autoImplicit false

namespace FeatureTree

inductive Value where
  | null
  | number (n : Nat)
  | text (s : String)
  | list (items : List Value)
  | object (fields : List (String × Value))
deriving Repr, Inhabited

namespace Value

def option {α : Type} (encode : α → Value) : Option α → Value
  | none => null
  | some a => encode a

def array {α : Type} (encode : α → Value) (items : List α) : Value :=
  list (items.map encode)

def tagged (kind : String) (value : Value) : Value :=
  object [(kind, value)]

end Value

/-! ## Records -/

def RawTag.encode (tag : RawTag) : Value :=
  .object [("name", .text tag.name), ("line", .number tag.line)]

def RawComment.encode (comment : RawComment) : Value :=
  .object [("value", .text comment.value), ("line", .number comment.line)]

def RawDocString.encode (text : RawDocString) : Value :=
  .object
    [("content", .text text.content), ("content_type", .option .text text.contentType),
      ("line", .number text.line)]

def RawRow.encode (row : RawRow) : Value :=
  .object [("cells", .array .text row.cells), ("line", .number row.line)]

def Record.encode (record : Record) : Value :=
  .object
    [("line", .number record.line), ("tags", .array RawTag.encode record.tags),
      ("comments", .array RawComment.encode record.comments), ("keyword", .text record.keyword),
      ("name", .text record.name), ("description", .text record.description),
      ("doc_string", .option RawDocString.encode record.docString),
      ("rows", .array RawRow.encode record.rows)]

def SyntaxError.encode (error : SyntaxError) : Value :=
  .object
    [("parser_state", .text error.readerState), ("offending_event", .text error.offending),
      ("legal_events", .array .text error.legal), ("line", .number error.line)]

/-! ## The parts of nodes -/

def Location.encode (location : Location) : Value :=
  .object [("file", .text location.file), ("line", .number location.line)]

def Comment.encode (comment : Comment) : Value :=
  .text comment.text

def Language.encode (language : Language) : Value :=
  .text language.code

def Tag.encode (tag : Tag) : Value :=
  .object [("name", .text tag.name), ("location", tag.location.encode)]

def TagSet.encode (set : TagSet) : Value :=
  .object [("location", set.location.encode), ("tags", .array Tag.encode set.tags)]

def DocString.encode (text : DocString) : Value :=
  .object
    [("content", .text text.content), ("content_type", .option .text text.contentType),
      ("location", text.location.encode)]

def DataTable.encode (table : DataTable) : Value :=
  .object
    [("rows", .array (.array .text) table.rows), ("location", table.location.encode)]

def Argument.encode : Argument → Value
  | docString text => .tagged "DocString" text.encode
  | dataTable table => .tagged "DataTable" table.encode

def Header.encode (header : Header) : Value :=
  .object [("cells", .array .text header.cells), ("location", header.location.encode)]

def Row.encode (row : Row) : Value :=
  .object
    [("data", .array (fun pair => .list [.text pair.1, .text pair.2]) row.data),
      ("location", row.location.encode)]

def Head.encode (head : Head) : Value :=
  .object
    [("record", head.record.encode), ("location", head.location.encode),
      ("comment", head.comment.encode), ("keyword", .text head.keyword),
      ("name", .text head.name), ("description", .text head.description)]

/-! ## Nodes -/

def StepLine.encode (line : StepLine) : Value :=
  .object
    [("record", line.record.encode), ("language", line.language.encode),
      ("location", line.location.encode), ("keyword", .text line.keyword),
      ("name", .text line.name), ("argument", .option Argument.encode line.argument)]

def Step.encode (step : Step) : Value :=
  step.toStepLine.encode

def OutlineStep.encode (template : OutlineStep) : Value :=
  template.toStepLine.encode

def Background.encode (background : Background) : Value :=
  .object
    [("head", .option Head.encode background.head?), ("language", background.language.encode),
      ("steps", .array Step.encode background.steps)]

def ExamplesTable.encode (table : ExamplesTable) : Value :=
  .object
    [("head", table.toHead.encode), ("header", table.header.encode),
      ("rows", .array Row.encode table.rows)]

/-- The fields that scenarios and outlines have in common. -/
def ScenarioHead.encodeFields (head : ScenarioHead) : List (String × Value) :=
  [("head", head.toHead.encode), ("language", head.language.encode),
    ("background", head.background.encode), ("tags", head.tags.encode),
    ("feature_tags", head.featureTags.encode)]

def Scenario.encode (scenario : Scenario) : Value :=
  .object (scenario.encodeFields ++ [("steps", .array Step.encode scenario.steps)])

def Outline.encode (outline : Outline) : Value :=
  .object
    (outline.encodeFields ++
      [("steps", .array OutlineStep.encode outline.steps),
        ("examples_tables", .array ExamplesTable.encode outline.tables)])

def Child.encode : Child → Value
  | scenario s => .tagged "Scenario" s.encode
  | outline o => .tagged "ScenarioOutline" o.encode

def Feature.encode (feature : Feature) : Value :=
  .object
    [("head", feature.toHead.encode), ("language", feature.language.encode),
      ("background", feature.background.encode), ("tags", feature.tags.encode),
      ("children", .array Child.encode feature.children)]

end FeatureTree
