import FeatureTree.Tree.Visit
import Mathlib.Data.List.Basic

/-!
# What a walk shows

A position in a tree says which child to go to, level by level. Put in dictionary order, the
positions below a node are its depth-first pre-order: a node stands before what is below it, and
what is below an earlier child before what is below a later one. **A walk shows its visitor the
nodes in this order, and leaves out those that lie below a node of a pruned kind,** each of them and
no other: `Node.map_some_trace` says so, position by position.

The order is spelled out once more kind by kind, in `Node.DepthFirst`, where it can be compared with
the order of a document.
-/

set_option autoImplicit false

namespace FeatureTree
namespace Node

/-! ## Recursion over children -/

/-- What holds of a node whenever it holds of its children holds of every node. -/
theorem childInduction {motive : Node → Prop}
    (step : ∀ node, (∀ child ∈ node.children, motive child) → motive node) (node : Node) :
    motive node :=
  step node fun child hchild =>
    have : child.height < node.height := height_lt_of_mem_children hchild
    childInduction step child
termination_by node.height

/-- The equation of the definition without the membership proofs that its recursion needs. All
proofs below go by this form, and by that of `walk_eq`. -/
theorem preorder_eq (node : Node) : node.preorder = node :: node.children.flatMap preorder := by
  rw [preorder, List.flatMap_subtype fun _ _ => rfl, List.unattach_attach]

theorem walk_eq {σ : Type} (visit : Visitor σ) (node : Node) (state : σ) :
    node.walk visit state =
      if (visit node state).descend then
        node.children.foldl (fun state child => child.walk visit state) (visit node state).state
      else (visit node state).state := by
  rw [walk, List.foldl_subtype fun _ _ _ => rfl, List.unattach_attach]

/-! ## Positions -/

/-- The node at a position, counted from the given one. -/
def at? : Node → List Nat → Option Node
  | node, [] => some node
  | node, i :: position => node.children[i]?.bind (at? · position)

/-- The positions of the node and of all that lies below it. -/
def positions (node : Node) : List (List Nat) :=
  [] :: node.children.attach.zipIdx.flatMap fun ⟨⟨child, _⟩, i⟩ => child.positions.map (i :: ·)
termination_by node.height
decreasing_by exact height_lt_of_mem_children ‹_›

theorem positions_eq (node : Node) :
    node.positions =
      [] :: node.children.zipIdx.flatMap fun entry => entry.1.positions.map (entry.2 :: ·) := by
  have hchildren : node.children = node.children.attach.map Subtype.val :=
    (List.attach_map_subtype_val node.children).symm
  rw [positions]
  conv_rhs => rw [hchildren, List.zipIdx_map, List.flatMap_map]
  rfl

theorem at?_cons (node : Node) (i : Nat) (position : List Nat) :
    node.at? (i :: position) = node.children[i]?.bind (at? · position) := rfl

/-- Every position that leads somewhere is among the positions, and those are all. By induction on
the position, which is how `at?` recurs. -/
theorem mem_positions (node : Node) (position : List Nat) :
    position ∈ node.positions ↔ (node.at? position).isSome := by
  induction position generalizing node with
  | nil =>
    rw [positions_eq]
    exact iff_of_true List.mem_cons_self rfl
  | cons i position ih =>
    rw [positions_eq, at?_cons, List.mem_cons, List.mem_flatMap]
    constructor
    · rintro (heq | ⟨entry, hentry, hmem⟩)
      · exact nomatch heq
      · obtain ⟨below, hbelow, heq⟩ := List.mem_map.mp hmem
        obtain ⟨rfl, rfl⟩ := List.cons.inj heq
        rw [List.mem_zipIdx_iff_getElem?.mp hentry]
        exact (ih entry.1).mp hbelow
    · intro hsome
      cases hchild : node.children[i]? with
      | none =>
        rw [hchild] at hsome
        exact nomatch hsome
      | some child =>
        rw [hchild] at hsome
        exact .inr ⟨(child, i), List.mk_mem_zipIdx_iff_getElem?.mpr hchild,
          List.mem_map.mpr ⟨position, (ih child).mpr hsome, rfl⟩⟩

/-- The positions stand in dictionary order and none of them twice, as the order is strict. -/
theorem pairwise_positions (node : Node) : node.positions.Pairwise (· < ·) := by
  induction node using childInduction with
  | step node ih =>
    rw [positions_eq, List.pairwise_cons, List.pairwise_flatMap]
    refine ⟨?_, ?_, ?_⟩
    · intro position hposition
      obtain ⟨entry, -, hmem⟩ := List.mem_flatMap.mp hposition
      obtain ⟨below, -, rfl⟩ := List.mem_map.mp hmem
      exact List.nil_lt_cons ..
    · intro entry hentry
      have hchild := ih entry.1 (List.fst_mem_of_mem_zipIdx hentry)
      refine List.pairwise_map.mpr (hchild.imp fun h => ?_)
      exact List.cons_lt_cons_iff.mpr (.inr ⟨rfl, h⟩)
    · have hindices := List.pairwise_lt_range' (s := 0) (n := node.children.length)
      -- Positions below different children are told apart by their first index.
      rw [← List.zipIdx_map_snd, List.pairwise_map] at hindices
      refine hindices.imp fun {earlier later} hlt => ?_
      intro position hposition position' hposition'
      obtain ⟨below, -, rfl⟩ := List.mem_map.mp hposition
      obtain ⟨below', -, rfl⟩ := List.mem_map.mp hposition'
      exact List.cons_lt_cons_iff.mpr (.inl hlt)

/-- Above the position no node is of a pruned kind. -/
def Reaches (prune : NodeKind → Bool) (node : Node) (position : List Nat) : Prop :=
  ∀ n < position.length, ∀ ancestor ∈ node.at? (position.take n), prune ancestor.kind = false

instance (prune : NodeKind → Bool) (node : Node) (position : List Nat) :
    Decidable (node.Reaches prune position) :=
  inferInstanceAs (Decidable (∀ n < position.length, ∀ ancestor ∈ node.at? (position.take n),
    prune ancestor.kind = false))

theorem reaches_nil (prune : NodeKind → Bool) (node : Node) : node.Reaches prune [] :=
  fun _ hlt => absurd hlt (Nat.not_lt_zero _)

/-- A position below a child is reached if the node lets the walk on and the child lets it reach the
rest. -/
theorem reaches_cons {prune : NodeKind → Bool} {node child : Node} {i : Nat}
    (hchild : node.children[i]? = some child) (position : List Nat) :
    node.Reaches prune (i :: position) ↔
      prune node.kind = false ∧ child.Reaches prune position := by
  constructor
  · intro h
    refine ⟨h 0 (Nat.succ_pos _) node rfl, fun n hlt ancestor hancestor => ?_⟩
    refine h (n + 1) (Nat.succ_lt_succ hlt) ancestor ?_
    rw [List.take_succ_cons, at?_cons, hchild]
    exact hancestor
  · rintro ⟨hnode, h⟩ n hlt ancestor hancestor
    cases n with
    | zero =>
      -- The first ancestor is the node itself, and all others are ancestors below the child.
      obtain rfl := Option.some.inj hancestor
      exact hnode
    | succ n =>
      rw [List.take_succ_cons, at?_cons, hchild] at hancestor
      exact h n (Nat.lt_of_succ_lt_succ hlt) ancestor hancestor

/-! ## The recording visitor -/

theorem foldl_eq_append_flatMap {α β : Type} {f : List β → α → List β} {g : α → List β}
    {l : List α} (h : ∀ a ∈ l, ∀ seen, f seen a = seen ++ g a) (seen : List β) :
    l.foldl f seen = seen ++ l.flatMap g := by
  induction l generalizing seen with
  | nil => exact (List.append_nil seen).symm
  | cons a l ih =>
    obtain ⟨ha, hl⟩ := List.forall_mem_cons.mp h
    rw [List.foldl_cons, ha, ih hl, List.flatMap_cons, List.append_assoc]

section Recording

variable (prune : NodeKind → Bool)

/-- What the recording visitor has at the end, if it starts with nothing. -/
def trace (node : Node) : List Node :=
  node.walk (Visitor.recording prune) []

/-- What was seen before stays in front, so the walks over the children can be looked at one at a
time. -/
theorem walk_recording_eq (node : Node) (seen : List Node) :
    node.walk (Visitor.recording prune) seen =
      seen ++ node :: if prune node.kind then [] else node.children.flatMap (trace prune) := by
  induction node using childInduction generalizing seen with
  | step node ih =>
    rw [walk_eq]
    cases hkind : prune node.kind with
    | true => simp [Visitor.recording, hkind]
    | false =>
      -- The hypothesis of the induction, once for what was seen and once for nothing.
      have hchild : ∀ child ∈ node.children, ∀ seen,
          child.walk (Visitor.recording prune) seen = seen ++ child.trace prune := by
        intro child hchild seen
        rw [trace, ih child hchild seen, ih child hchild []]
        rfl
      have hdescend : (Visitor.recording prune node seen).descend = true := by
        simp [Visitor.recording, hkind]
      rw [if_pos hdescend, foldl_eq_append_flatMap hchild]
      simp [Visitor.recording]

/-- The trace in the form of a recursion: the node, and unless it is of a pruned kind the traces of
its children. -/
theorem trace_eq (node : Node) :
    node.trace prune =
      node :: if prune node.kind then [] else node.children.flatMap (trace prune) :=
  (walk_recording_eq prune node []).trans (List.nil_append _)

/-- Of the positions below one child, those reached from the node are those reached from the child,
or none if the node is of a pruned kind. -/
theorem map_at?_below {node child : Node} {i : Nat} (hchild : node.children[i]? = some child) :
    ((child.positions.map (i :: ·)).filter fun position => node.Reaches prune position).map
        node.at? =
      if prune node.kind then []
      else (child.positions.filter fun position => child.Reaches prune position).map child.at? := by
  have hat : node.at? ∘ (i :: ·) = child.at? := by
    funext position
    rw [Function.comp_apply, at?_cons, hchild]
    rfl
  rw [List.filter_map, List.map_map, hat]
  cases hkind : prune node.kind with
  | true =>
    rw [if_pos rfl, List.map_eq_nil_iff, List.filter_eq_nil_iff]
    intro position _
    simp [reaches_cons hchild, hkind]
  | false =>
    rw [if_neg Bool.false_ne_true]
    refine congrArg (List.map child.at?) (List.filter_congr fun position _ => ?_)
    simp [reaches_cons hchild, hkind]

/-- The trace, position by position. -/
theorem map_some_trace (node : Node) :
    (node.trace prune).map some =
      (node.positions.filter fun position => node.Reaches prune position).map node.at? := by
  induction node using childInduction with
  | step node ih =>
    -- Child by child the reached positions are those of its own trace.
    have hbelow : ∀ entry ∈ node.children.zipIdx,
        ((entry.1.positions.map (entry.2 :: ·)).filter fun position =>
            node.Reaches prune position).map node.at? =
          if prune node.kind then [] else (entry.1.trace prune).map some := by
      intro entry hentry
      rw [map_at?_below prune (List.mem_zipIdx_iff_getElem?.mp hentry),
        ih entry.1 (List.fst_mem_of_mem_zipIdx hentry)]
    rw [trace_eq, positions_eq, List.filter_cons_of_pos (by simp [reaches_nil]), List.map_cons,
      List.map_cons, List.filter_flatMap, List.map_flatMap, List.flatMap_congr hbelow]
    -- The node is at the empty position, which is always reached. What is left is about the
    -- children.
    refine congrArg (some node :: ·) ?_
    cases prune node.kind with
    | true => simp
    | false =>
      have hindices : node.children.zipIdx.flatMap (fun entry => (entry.1.trace prune).map some) =
          (node.children.zipIdx.map Prod.fst).flatMap fun child =>
            (child.trace prune).map some := by
        rw [List.flatMap_map]
      rw [List.zipIdx_map_fst] at hindices
      exact List.map_flatMap.trans hindices.symm

end Recording

theorem trace_none (node : Node) : node.trace (fun _ => false) = node.preorder := by
  induction node using childInduction with
  | step node ih =>
    rw [trace_eq, preorder_eq, if_neg Bool.false_ne_true]
    exact congrArg (node :: ·) (List.flatMap_congr ih)

/-- The pre-order, position by position: the case of the trace in which every position is reached.
-/
theorem map_some_preorder (node : Node) :
    node.preorder.map some = node.positions.map node.at? := by
  have hreaches : ∀ position ∈ node.positions,
      decide (node.Reaches (fun _ => false) position) = true :=
    fun _ _ => decide_eq_true fun _ _ _ _ => rfl
  rw [← trace_none, map_some_trace, List.filter_eq_self.mpr hreaches]

/-- The node itself is shown whatever is pruned, for pruning keeps a walk from what lies below. -/
theorem head?_trace (prune : NodeKind → Bool) (node : Node) :
    (node.trace prune).head? = some node := by
  rw [trace_eq, List.head?_cons]

/-! ## The order of the document -/

/-- A depth-first order, kind by kind. -/
structure DepthFirst (order : Node → List Node) : Prop where
  feature (f : Feature) :
    order (.feature f) = .feature f ::
      (order (.background f.background) ++ f.children.flatMap fun child => order child.node)
  background (b : Background) :
    order (.background b) = .background b :: b.steps.flatMap fun s => order (.step s)
  scenario (s : Scenario) :
    order (.scenario s) = .scenario s :: s.steps.flatMap fun s => order (.step s)
  outline (o : Outline) :
    order (.outline o) = .outline o ::
      ((o.steps.flatMap fun s => order (.outlineStep s)) ++
        o.tables.flatMap fun t => order (.examplesTable t))
  step (s : Step) :
    order (.step s) = .step s :: s.argument.toList.flatMap fun argument => order argument.node
  outlineStep (s : OutlineStep) :
    order (.outlineStep s) = .outlineStep s ::
      s.argument.toList.flatMap fun argument => order argument.node
  examplesTable (t : ExamplesTable) :
    order (.examplesTable t) = .examplesTable t :: t.rows.flatMap fun r => order (.row r)
  row (r : Row) : order (.row r) = [.row r]
  docString (text : DocString) : order (.docString text) = [.docString text]
  dataTable (table : DataTable) : order (.dataTable table) = [.dataTable table]

theorem depthFirst_preorder : DepthFirst preorder where
  feature f := by rw [preorder_eq, children, List.flatMap_cons, List.flatMap_map]
  background b := by rw [preorder_eq, children, List.flatMap_map]
  scenario s := by rw [preorder_eq, children, List.flatMap_map]
  outline o := by
    rw [preorder_eq, children, List.flatMap_append, List.flatMap_map, List.flatMap_map]
  step s := by
    rw [preorder_eq, children, Option.toList_map, List.flatMap_map]
  outlineStep s := by
    rw [preorder_eq, children, Option.toList_map, List.flatMap_map]
  examplesTable t := by rw [preorder_eq, children, List.flatMap_map]
  row r := by rw [preorder_eq, children, List.flatMap_nil]
  docString text := by rw [preorder_eq, children, List.flatMap_nil]
  dataTable table := by rw [preorder_eq, children, List.flatMap_nil]

end Node
end FeatureTree
