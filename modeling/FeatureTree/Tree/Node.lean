import FeatureTree.Tree.Feature

/-!
# The nodes of a tree

Seen from the outside, everything in a feature tree is a node of one of ten kinds with a list of
nodes below it. **The order of that list is the order of the document,** with two conventions where
the document leaves a choice: a feature's background comes before its children, also when it is the
empty one, and an outline's templates come before its tables.

Nothing lies deeper than a step's argument, so a node's kind bounds how deep its subtree is. That
bound is `Node.height`, and it is why every recursion over `Node.children` ends.
-/

set_option autoImplicit false

namespace FeatureTree

inductive NodeKind where
  | feature
  | background
  | scenario
  | outline
  | step
  | outlineStep
  | examplesTable
  | row
  | docString
  | dataTable
deriving DecidableEq, Repr

def NodeKind.name : NodeKind → String
  | feature => "feature"
  | background => "background"
  | scenario => "scenario"
  | outline => "scenario_outline"
  | step => "step"
  | outlineStep => "outline_step"
  | examplesTable => "examples_table"
  | row => "examples_table_row"
  | docString => "doc_string"
  | dataTable => "data_table"

inductive Node where
  | feature (f : Feature)
  | background (b : Background)
  | scenario (s : Scenario)
  | outline (o : Outline)
  | step (s : Step)
  | outlineStep (s : OutlineStep)
  | examplesTable (t : ExamplesTable)
  | row (r : Row)
  | docString (text : DocString)
  | dataTable (table : DataTable)
deriving BEq, ReflBEq, LawfulBEq, Repr

def Child.node : Child → Node
  | scenario s => .scenario s
  | outline o => .outline o

def Argument.node : Argument → Node
  | docString text => .docString text
  | dataTable table => .dataTable table

namespace Node

def kind : Node → NodeKind
  | feature _ => .feature
  | background _ => .background
  | scenario _ => .scenario
  | outline _ => .outline
  | step _ => .step
  | outlineStep _ => .outlineStep
  | examplesTable _ => .examplesTable
  | row _ => .row
  | docString _ => .docString
  | dataTable _ => .dataTable

def children : Node → List Node
  | feature f => background f.background :: f.children.map Child.node
  | background b => b.steps.map step
  | scenario s => s.steps.map step
  | outline o => o.steps.map outlineStep ++ o.tables.map examplesTable
  | step s => (s.argument.map Argument.node).toList
  | outlineStep s => (s.argument.map Argument.node).toList
  | examplesTable t => t.rows.map row
  | row _ | docString _ | dataTable _ => []

/-- How many levels of nodes there can be below a node. -/
def height : Node → Nat
  | feature _ => 3
  | background _ | scenario _ | outline _ => 2
  | step _ | outlineStep _ | examplesTable _ => 1
  | row _ | docString _ | dataTable _ => 0

theorem height_node_child (child : Child) : child.node.height = 2 := by
  cases child <;> rfl

theorem height_node_argument (argument : Argument) : argument.node.height = 0 := by
  cases argument <;> rfl

/-- A level is left behind with every step down. -/
theorem height_lt_of_mem_children {node child : Node} (h : child ∈ node.children) :
    child.height < node.height := by
  cases node <;>
    simp only [children, List.mem_cons, List.mem_map, List.mem_append, Option.mem_toList,
      Option.map_eq_some_iff, List.not_mem_nil] at h
  case feature =>
    obtain rfl | ⟨c, _, rfl⟩ := h
    · simp [height]
    · rw [height_node_child]; simp [height]
  case outline =>
    obtain ⟨s, _, rfl⟩ | ⟨t, _, rfl⟩ := h <;> simp [height]
  case step | outlineStep =>
    obtain ⟨a, _, rfl⟩ := h
    rw [height_node_argument]; simp [height]
  all_goals
    obtain ⟨s, _, rfl⟩ := h
    simp [height]

/-- A node and all that lies below it, each node before what lies below it. -/
def preorder (node : Node) : List Node :=
  node :: node.children.attach.flatMap fun ⟨child, _⟩ => child.preorder
termination_by node.height
decreasing_by exact height_lt_of_mem_children ‹_›

end Node
end FeatureTree
