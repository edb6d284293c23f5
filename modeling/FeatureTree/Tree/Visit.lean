import FeatureTree.Tree.Node

/-!
# Visiting a tree

A visitor is shown the nodes of a tree one by one, each before what lies below it, and **says for
every node whether it wants to see what lies below.** Refusing prunes that node's subtree and
nothing else. What a visitor remembers from one node to the next is its state.

Two visitors cover the common needs: one is shown every node and prunes by kind, the other cares for
leaves alone and lets the walk pass through all other nodes.

A visitor may also be put together from handlers, one for each kind of node, of which only those that
matter need be written.
-/

set_option autoImplicit false

namespace FeatureTree

/-- What a visitor answers when it is shown a node. -/
structure Visit (σ : Type) where
  state : σ
  descend : Bool := true

abbrev Visitor (σ : Type) := Node → σ → Visit σ

/-- What the visitor remembers after it has been shown the node and, as far as it wanted, what lies
below. -/
def Node.walk {σ : Type} (visit : Visitor σ) (node : Node) (state : σ) : σ :=
  let answer := visit node state
  if answer.descend then
    node.children.attach.foldl (fun state ⟨child, _⟩ => child.walk visit state) answer.state
  else answer.state
termination_by node.height
decreasing_by exact Node.height_lt_of_mem_children ‹_›

namespace Visitor

/-- The visitor that remembers every node it is shown and prunes below the given kinds. -/
def recording (prune : NodeKind → Bool) : Visitor (List Node) := fun node seen =>
  { state := seen ++ [node], descend := !prune node.kind }

/-- The visitor that acts on rows, doc strings and data tables and passes through all else. -/
def ofLeaves {σ : Type} (onRow : Row → σ → σ) (onDocString : DocString → σ → σ)
    (onDataTable : DataTable → σ → σ) : Visitor σ := fun node state =>
  match node with
  | .row r => { state := onRow r state }
  | .docString text => { state := onDocString text state }
  | .dataTable table => { state := onDataTable table state }
  | _ => { state }

end Visitor

/-! ## Handlers

A handler has the node to itself: what lies below it is visited if the handler says so, by calling
the descent for its kind of node, and otherwise not. A descent calls the handlers of the kinds below,
whichever they are. -/

/-- Each of the nodes in turn. -/
def visitEach {α σ : Type} (visit : α → σ → σ) (nodes : List α) (state : σ) : σ :=
  nodes.foldl (fun state node => visit node state) state

namespace Descent

variable {σ : Type}

/-- Into a step or a template: to its argument, if it has one. -/
def argument (onDocString : DocString → σ → σ) (onDataTable : DataTable → σ → σ) :
    Option Argument → σ → σ
  | some (.docString text), state => onDocString text state
  | some (.dataTable table), state => onDataTable table state
  | none, state => state

/-- Into an outline: to the templates, then to the tables. -/
def outline (onStep : OutlineStep → σ → σ) (onTable : ExamplesTable → σ → σ) (o : Outline)
    (state : σ) : σ :=
  visitEach onTable o.tables (visitEach onStep o.steps state)

def child (onScenario : Scenario → σ → σ) (onOutline : Outline → σ → σ) : Child → σ → σ
  | .scenario s, state => onScenario s state
  | .outline o, state => onOutline o state

/-- Into a feature: to the background, also to the empty one, then to the children. -/
def feature (onBackground : Background → σ → σ) (onChild : Child → σ → σ) (f : Feature)
    (state : σ) : σ :=
  visitEach onChild f.children (onBackground f.background state)

end Descent

/-- What a visitor does with a node of each kind. A handler that is left out descends and does
nothing else; the fields go from the leaves up because it descends to the ones before it. -/
structure Handlers (σ : Type) where
  row : Row → σ → σ := fun _ state => state
  docString : DocString → σ → σ := fun _ state => state
  dataTable : DataTable → σ → σ := fun _ state => state
  examplesTable : ExamplesTable → σ → σ := fun t => visitEach row t.rows
  outlineStep : OutlineStep → σ → σ := fun s => Descent.argument docString dataTable s.argument
  step : Step → σ → σ := fun s => Descent.argument docString dataTable s.argument
  outline : Outline → σ → σ := Descent.outline outlineStep examplesTable
  scenario : Scenario → σ → σ := fun s => visitEach step s.steps
  background : Background → σ → σ := fun b => visitEach step b.steps
  feature : Feature → σ → σ := Descent.feature background (Descent.child scenario outline)

namespace Handlers

variable {σ : Type} (handlers : Handlers σ)

def child : Child → σ → σ :=
  Descent.child handlers.scenario handlers.outline

def argument (argument : Argument) : σ → σ :=
  Descent.argument handlers.docString handlers.dataTable (some argument)

/-- The node, shown to the handler for its kind. -/
def describe : Node → σ → σ
  | .feature f => handlers.feature f
  | .background b => handlers.background b
  | .scenario s => handlers.scenario s
  | .outline o => handlers.outline o
  | .step s => handlers.step s
  | .outlineStep s => handlers.outlineStep s
  | .examplesTable t => handlers.examplesTable t
  | .row r => handlers.row r
  | .docString text => handlers.docString text
  | .dataTable table => handlers.dataTable table

/-- The descent into a node, whatever its kind. -/
def below : Node → σ → σ
  | .feature f => Descent.feature handlers.background handlers.child f
  | .background b => visitEach handlers.step b.steps
  | .scenario s => visitEach handlers.step s.steps
  | .outline o => Descent.outline handlers.outlineStep handlers.examplesTable o
  | .step s => Descent.argument handlers.docString handlers.dataTable s.argument
  | .outlineStep s => Descent.argument handlers.docString handlers.dataTable s.argument
  | .examplesTable t => visitEach handlers.row t.rows
  | .row _ | .docString _ | .dataTable _ => id

/-- Handlers for the leaves; all others are left out. -/
def ofLeaves (onRow : Row → σ → σ) (onDocString : DocString → σ → σ)
    (onDataTable : DataTable → σ → σ) : Handlers σ where
  row := onRow
  docString := onDocString
  dataTable := onDataTable

end Handlers

namespace Visitor

variable {σ : Type} (visit : Visitor σ)

/-- The handler that shows the visitor its node and descends if the visitor wants to see what lies
below. -/
def handle (node : Node) (descend : σ → σ) (state : σ) : σ :=
  let answer := visit node state
  if answer.descend then descend answer.state else answer.state

/-- The visitor put together from handlers, none of which is left out. -/
def handlers : Handlers σ :=
  let row r := visit.handle (.row r) id
  let docString text := visit.handle (.docString text) id
  let dataTable table := visit.handle (.dataTable table) id
  let examplesTable t := visit.handle (.examplesTable t) (visitEach row t.rows)
  let outlineStep s :=
    visit.handle (.outlineStep s) (Descent.argument docString dataTable s.argument)
  let step s := visit.handle (.step s) (Descent.argument docString dataTable s.argument)
  let outline o := visit.handle (.outline o) (Descent.outline outlineStep examplesTable o)
  let scenario s := visit.handle (.scenario s) (visitEach step s.steps)
  let background b := visit.handle (.background b) (visitEach step b.steps)
  let feature f :=
    visit.handle (.feature f) (Descent.feature background (Descent.child scenario outline) f)
  { row, docString, dataTable, examplesTable, outlineStep, step, outline, scenario, background,
    feature }

end Visitor
end FeatureTree
