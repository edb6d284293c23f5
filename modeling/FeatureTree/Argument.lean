import FeatureTree.Location
import FeatureTree.Record

/-!
# Step arguments

Below its line a step may carry a block of text or a table. **A step without either has no
argument,** so an argument is one of the two and its absence is `none`. Where a record carries both,
the text is the argument.
-/

set_option autoImplicit false

namespace FeatureTree

structure DocString where
  content : String
  /-- What the opening delimiter says about the content, if it says anything. -/
  contentType : Option String
  /-- The line of the opening delimiter. -/
  location : Location
deriving DecidableEq, Repr, Inhabited

/-- A table below a step. Its rows need not be of one length. -/
structure DataTable where
  /-- The rows, a header among them if there is one. -/
  rows : List (List String)
  /-- The line of the first row. -/
  location : Location
deriving DecidableEq, Repr, Inhabited

def DataTable.cells (table : DataTable) : List String :=
  table.rows.flatten

inductive Argument where
  | docString (text : DocString)
  | dataTable (table : DataTable)
deriving DecidableEq, Repr

namespace Argument

def ofRecord? (record : Record) (location : Location) : Option Argument :=
  match record.docString, record.rows with
  | some text, _ =>
    some (.docString ⟨text.content, text.contentType, location.onLine text.line⟩)
  | none, [] => none
  | none, first :: rest =>
    some (.dataTable ⟨(first :: rest).map RawRow.cells, location.onLine first.line⟩)

def location : Argument → Location
  | docString text => text.location
  | dataTable table => table.location

/-- The texts of the argument: the content of a doc string, or the cells of a table row by row. -/
def texts : Argument → List String
  | docString text => [text.content]
  | dataTable table => table.cells

/-! ## Changing the texts

Everything but the texts stays: the kind of argument, its place, the type of its content and the
shape of its table. -/

/-- The argument with an action's answer in the place of each text. The action runs once for each
text, in their order. -/
def mapTextsM {m : Type → Type} [Monad m] (f : String → m String) : Argument → m Argument
  | docString text => return .docString { text with content := ← f text.content }
  | dataTable table => return .dataTable { table with rows := ← table.rows.mapM (·.mapM f) }

def mapTexts (f : String → String) : Argument → Argument
  | docString text => .docString { text with content := f text.content }
  | dataTable table => .dataTable { table with rows := table.rows.map (·.map f) }

/-- An action that only answers is a function. -/
theorem mapTextsM_pure {m : Type → Type} [Monad m] [LawfulMonad m] (f : String → String)
    (argument : Argument) :
    argument.mapTextsM (fun text => (pure (f text) : m String)) = pure (argument.mapTexts f) := by
  cases argument <;> simp [mapTextsM, mapTexts]

end Argument
end FeatureTree
