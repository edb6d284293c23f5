import FeatureTree.Proofs.Walks

/-!
# What handlers are shown

A walk asks its visitor at every node whether to go on, a set of handlers descends by itself, and a
handler that was left out descends without being asked. **The two ways of visiting a tree agree:**
handlers that follow a visitor's answers do what the walk does. So handlers that prune some kinds of
nodes are shown the pre-order without what lies below these, and whoever writes handlers for the
leaves alone is shown the leaves of the pre-order, each as often and in the same place as a visitor
who is shown everything.
-/

set_option autoImplicit false

namespace FeatureTree

/-! ## Descents and walks -/

theorem visitEach_map {α β σ : Type} (visit : β → σ → σ) (f : α → β) (nodes : List α) :
    visitEach visit (nodes.map f) = visitEach (fun node => visit (f node)) nodes :=
  funext fun _ => List.foldl_map

theorem visitEach_append {α σ : Type} (visit : α → σ → σ) (nodes more : List α) (state : σ) :
    visitEach visit (nodes ++ more) state = visitEach visit more (visitEach visit nodes state) :=
  List.foldl_append

namespace Handlers

variable {σ : Type} (handlers : Handlers σ)

theorem child_eq (child : Child) : handlers.child child = handlers.describe child.node := by
  funext state
  cases child <;> rfl

theorem argument_eq (argument : Argument) :
    handlers.argument argument = handlers.describe argument.node := by
  funext state
  cases argument <;> rfl

theorem descent_argument_eq (argument : Option Argument) :
    Descent.argument handlers.docString handlers.dataTable argument =
      visitEach handlers.describe (argument.map Argument.node).toList := by
  cases argument with
  | none => rfl
  | some argument => exact handlers.argument_eq argument

/-- The descent into a node shows its children, in their order. -/
theorem below_eq (node : Node) :
    handlers.below node = visitEach handlers.describe node.children := by
  cases node with
  | feature f =>
    funext state
    -- A feature shows its background before its children, and these through their own entry point.
    show visitEach handlers.child f.children _ =
      visitEach handlers.describe (f.children.map Child.node) _
    rw [visitEach_map, funext handlers.child_eq]
    rfl
  | background b => exact (visitEach_map handlers.describe Node.step b.steps).symm
  | scenario s => exact (visitEach_map handlers.describe Node.step s.steps).symm
  | outline o =>
    funext state
    rw [Node.children, visitEach_append, visitEach_map, visitEach_map]
    rfl
  | step s => exact handlers.descent_argument_eq s.argument
  | outlineStep s => exact handlers.descent_argument_eq s.argument
  | examplesTable t => exact (visitEach_map handlers.describe Node.row t.rows).symm
  | row r => rfl
  | docString text => rfl
  | dataTable table => rfl

/-- Handlers that do at every node what a visitor answers there do what the walk does. -/
theorem describe_eq_walk {handlers : Handlers σ} {visit : Visitor σ}
    (h : ∀ node, handlers.describe node = visit.handle node (handlers.below node)) (node : Node) :
    handlers.describe node = node.walk visit := by
  induction node using Node.childInduction with
  | step node ih =>
    funext state
    rw [h, Node.walk_eq, Visitor.handle, below_eq]
    refine if_congr Iff.rfl ?_ rfl
    exact List.foldl_ext _ _ _ fun state child hchild => congrFun (ih child hchild) state

theorem describe_handlers (visit : Visitor σ) (node : Node) :
    visit.handlers.describe node = node.walk visit := by
  refine describe_eq_walk (fun node => ?_) node
  cases node <;> rfl

theorem describe_ofLeaves (onRow : Row → σ → σ) (onDocString : DocString → σ → σ)
    (onDataTable : DataTable → σ → σ) (node : Node) :
    (ofLeaves onRow onDocString onDataTable).describe node =
      node.walk (Visitor.ofLeaves onRow onDocString onDataTable) := by
  refine describe_eq_walk (fun node => ?_) node
  cases node <;> rfl

end Handlers

/-! ## Everything but what is pruned -/

/-- **What the recording handlers are shown.** The nodes of the subtree stand at its positions, which
in dictionary order make up its pre-order. The handlers see those that no pruned kind keeps from
them, each once and in this order, the node that is described first, and they see them behind all
that they have seen before. Describing a child or an argument is describing the node it is. -/
theorem Handlers.describe_recording_pruned (prune : NodeKind → Bool) (node : Node) :
    let recorder := (Visitor.recording prune).handlers
    (recorder.describe node []).map some =
        (node.positions.filter fun position => node.Reaches prune position).map node.at? ∧
      node.preorder.map some = node.positions.map node.at? ∧
      (∀ position, position ∈ node.positions ↔ (node.at? position).isSome) ∧
      node.positions.Pairwise (· < ·) ∧
      Node.DepthFirst Node.preorder ∧
      (recorder.describe node []).head?.map Node.kind = some node.kind ∧
      (∀ seen, recorder.describe node seen = seen ++ recorder.describe node []) ∧
      (∀ (child : Child) seen, recorder.child child seen =
        match child with
        | .scenario s => recorder.describe (.scenario s) seen
        | .outline o => recorder.describe (.outline o) seen) ∧
      (∀ (argument : Argument) seen, recorder.argument argument seen =
        match argument with
        | .docString text => recorder.describe (.docString text) seen
        | .dataTable table => recorder.describe (.dataTable table) seen) := by
  intro recorder
  -- What the handlers are shown is what a walk shows, of which the positions have been told.
  have htrace : recorder.describe node [] = node.trace prune :=
    congrFun (describe_handlers _ node) []
  refine ⟨?_, node.map_some_preorder, node.mem_positions, node.pairwise_positions,
    Node.depthFirst_preorder, ?_, ?_, ?_, ?_⟩
  · rw [htrace]
    exact node.map_some_trace prune
  · rw [htrace, node.head?_trace prune]
    rfl
  · intro seen
    rw [htrace, describe_handlers, Node.walk_recording_eq, Node.trace_eq]
  · intro child seen
    rw [child_eq]
    cases child <;> rfl
  · intro argument seen
    rw [argument_eq]
    cases argument <;> rfl

/-! ## Leaves -/

namespace Node

/-- A visitor that always goes on is shown the pre-order. -/
theorem walk_eq_foldl_preorder {σ : Type} {visit : Visitor σ}
    (h : ∀ node state, (visit node state).descend = true) (node : Node) (state : σ) :
    node.walk visit state =
      node.preorder.foldl (fun state node => (visit node state).state) state := by
  induction node using childInduction generalizing state with
  | step node ih =>
    rw [walk_eq, if_pos (h node state), preorder_eq, List.foldl_cons, List.foldl_flatMap]
    exact List.foldl_ext _ _ _ fun state child hchild => ih child hchild state

/-- The nodes that a walk never descends into. -/
def isLeaf : Node → Bool
  | row _ | docString _ | dataTable _ => true
  | _ => false

/-- What handlers for the leaves do with a node. -/
def onLeaf {σ : Type} (onRow : Row → σ → σ) (onDocString : DocString → σ → σ)
    (onDataTable : DataTable → σ → σ) : Node → σ → σ
  | row r => onRow r
  | docString text => onDocString text
  | dataTable table => onDataTable table
  | _ => id

theorem walk_ofLeaves {σ : Type} (onRow : Row → σ → σ) (onDocString : DocString → σ → σ)
    (onDataTable : DataTable → σ → σ) (node : Node) (state : σ) :
    node.walk (Visitor.ofLeaves onRow onDocString onDataTable) state =
      visitEach (onLeaf onRow onDocString onDataTable) (node.preorder.filter isLeaf) state := by
  have hdescend : ∀ (node : Node) (state : σ),
      (Visitor.ofLeaves onRow onDocString onDataTable node state).descend = true := by
    intro node state
    cases node <;> rfl
  -- On nodes that are no leaves the visitor does nothing, so they may be filtered out.
  rw [walk_eq_foldl_preorder hdescend, visitEach, List.foldl_filter]
  refine List.foldl_ext _ _ _ fun state node _ => ?_
  cases node <;> rfl

/-- Handlers that write down their nodes write down every leaf. -/
theorem onLeaf_recording {leaf : Node} (h : leaf.isLeaf = true) (seen : List Node) :
    onLeaf (fun r seen => seen ++ [row r]) (fun text seen => seen ++ [docString text])
      (fun table seen => seen ++ [dataTable table]) leaf seen = seen ++ [leaf] := by
  cases leaf with
  | row _ | docString _ | dataTable _ => rfl
  | _ => exact nomatch h

end Node

/-- **What handlers for the leaves are shown.** They are called on the leaves that a visitor records
who overrides every handler and descends everywhere, each as often and in the same order. The same
holds of the walk that passes through all other nodes, and of visits that start at a child of a
feature or at an argument. -/
theorem Handlers.describe_leaves (node : Node) :
    let trace := (Visitor.recording fun _ => false).handlers.describe node []
    (Handlers.ofLeaves (fun r seen => seen ++ [.row r]) (fun text seen => seen ++ [.docString text])
        (fun table seen => seen ++ [.dataTable table])).describe node [] =
        trace.filter Node.isLeaf ∧
      (∀ {σ : Type} (onRow : Row → σ → σ) (onDocString : DocString → σ → σ)
        (onDataTable : DataTable → σ → σ) (state : σ),
        let leaves := Handlers.ofLeaves onRow onDocString onDataTable
        leaves.describe node state =
            visitEach (Node.onLeaf onRow onDocString onDataTable) (trace.filter Node.isLeaf) state ∧
          leaves.describe node state =
            node.walk (Visitor.ofLeaves onRow onDocString onDataTable) state ∧
          (∀ child, leaves.child child state = leaves.describe child.node state) ∧
          ∀ argument, leaves.argument argument state = leaves.describe argument.node state) ∧
      trace = node.walk (Visitor.recording fun _ => false) [] ∧
      trace = node.preorder := by
  intro trace
  have hwalk : trace = node.walk (Visitor.recording fun _ => false) [] :=
    congrFun (describe_handlers _ node) []
  have htrace : trace = node.preorder := hwalk.trans (Node.trace_none node)
  have hleaves : ∀ {σ : Type} (onRow : Row → σ → σ) (onDocString : DocString → σ → σ)
      (onDataTable : DataTable → σ → σ) (state : σ),
      (Handlers.ofLeaves onRow onDocString onDataTable).describe node state =
        visitEach (Node.onLeaf onRow onDocString onDataTable) (trace.filter Node.isLeaf) state := by
    intro σ onRow onDocString onDataTable state
    rw [describe_ofLeaves, Node.walk_ofLeaves, htrace]
  refine ⟨?_, ?_, hwalk, htrace⟩
  · have hrecord : ∀ leaf ∈ trace.filter Node.isLeaf, ∀ seen,
        Node.onLeaf (fun r seen => seen ++ [.row r]) (fun text seen => seen ++ [.docString text])
          (fun table seen => seen ++ [.dataTable table]) leaf seen = seen ++ [leaf] :=
      fun leaf hleaf => Node.onLeaf_recording (List.mem_filter.mp hleaf).2
    rw [hleaves, visitEach, Node.foldl_eq_append_flatMap hrecord, List.flatMap_singleton',
      List.nil_append]
  · intro σ onRow onDocString onDataTable state leaves
    refine ⟨hleaves onRow onDocString onDataTable state, ?_, ?_, ?_⟩
    · rw [describe_ofLeaves]
    · exact fun child => congrFun (leaves.child_eq child) state
    · exact fun argument => congrFun (leaves.argument_eq argument) state

end FeatureTree
