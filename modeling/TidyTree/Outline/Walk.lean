import TidyTree.Outline.Tree

set_option autoImplicit false
set_option relaxedAutoImplicit false

namespace TidyTree

namespace Node

private theorem preorderAll_append (ns ms : List Node) :
    preorderAll (ns ++ ms) = preorderAll ns ++ preorderAll ms := by
  induction ns with
  | nil => rfl
  | cons n ns ih => rw [List.cons_append, preorderAll, preorderAll, ih, List.append_assoc]

private theorem length_preorderAll_reverse (ns : List Node) :
    (preorderAll ns.reverse).length = (preorderAll ns).length := by
  induction ns with
  | nil => rfl
  | cons n ns ih =>
    rw [List.reverse_cons, preorderAll_append, List.length_append, ih, preorderAll, preorderAll,
      preorderAll, List.append_nil, List.length_append, Nat.add_comm]

private theorem length_preorderAll_cons (n : Node) (ns : List Node) :
    (preorderAll (n :: ns)).length =
      1 + (preorderAll n.children).length + (preorderAll ns).length := by
  obtain ⟨item, shown, children⟩ := n
  rw [preorderAll, preorder, List.cons_append, List.length_cons, List.length_append]
  exact (Nat.add_comm _ 1).trans (Nat.add_assoc 1 _ _).symm

private theorem length_preorderAll_visible_le (n : Node) :
    (preorderAll n.visible).length ≤ (preorderAll n.children).length := by
  obtain ⟨item, _ | _, children⟩ := n
  · exact Nat.zero_le _
  · exact Nat.le_refl _

/-- List the nodes on a stack and below them. The children of a node go on top, the first one
uppermost. -/
def walk : List Node → List Node
  | [] => []
  | n :: stack => n :: walk (n.children ++ stack)
termination_by stack => (preorderAll stack).length
decreasing_by
  rw [preorderAll_append, List.length_append, length_preorderAll_cons]
  omega

/-- Count the nodes on a stack and those that are drawn below them. The last of the children that a
node shows is uppermost. -/
def countVisible (count : Nat) : List Node → Nat
  | [] => count
  | n :: stack => countVisible (count + 1) (n.visible.reverse ++ stack)
termination_by stack => (preorderAll stack).length
decreasing_by
  have := length_preorderAll_visible_le n
  rw [preorderAll_append, List.length_append, length_preorderAll_reverse, length_preorderAll_cons]
  omega

theorem walk_eq (stack : List Node) : walk stack = preorderAll stack := by
  induction stack using walk.induct with
  | case1 => rw [walk, preorderAll]
  | case2 n stack ih =>
    obtain ⟨item, shown, children⟩ := n
    rw [walk, ih, preorderAll_append, preorderAll, preorder, List.cons_append]
    rfl

private theorem visibleCountAll_append (ns ms : List Node) :
    visibleCountAll (ns ++ ms) = visibleCountAll ns + visibleCountAll ms := by
  induction ns with
  | nil => exact (Nat.zero_add _).symm
  | cons n ns ih =>
    rw [List.cons_append, visibleCountAll, visibleCountAll, ih, Nat.add_assoc]

private theorem visibleCountAll_reverse (ns : List Node) :
    visibleCountAll ns.reverse = visibleCountAll ns := by
  induction ns with
  | nil => rfl
  | cons n ns ih =>
    rw [List.reverse_cons, visibleCountAll_append, ih, visibleCountAll, visibleCountAll,
      visibleCountAll, Nat.add_zero, Nat.add_comm]

private theorem visibleCount_eq (n : Node) : n.visibleCount = 1 + visibleCountAll n.visible := by
  obtain ⟨item, _ | _, children⟩ := n <;> rfl

theorem countVisible_eq (count : Nat) (stack : List Node) :
    countVisible count stack = count + visibleCountAll stack := by
  induction count, stack using countVisible.induct with
  | case1 count => rw [countVisible, visibleCountAll, Nat.add_zero]
  | case2 count n stack ih =>
    rw [countVisible, ih, visibleCountAll_append, visibleCountAll_reverse, visibleCountAll,
      visibleCount_eq]
    omega

end Node

namespace Record

mutual

/-- Make nodes of a record. The counter holds the next number, and what is left out is put behind
what was left out before. -/
def build : Record → NodeId × List Dropped → Node × NodeId × List Dropped
  | ⟨label, kind, comment, visible, hidden⟩, (id, dropped) =>
    let left := if visible.isEmpty || hidden.isEmpty then [] else [⟨id, label, hidden.length⟩]
    let (children, next, dropped) :=
      if visible.isEmpty then buildAll hidden (id + 1, dropped ++ left)
      else buildAll visible (id + 1, dropped ++ left)
    (.mk ⟨id, next - id, label, kind, comment⟩ (!visible.isEmpty || hidden.isEmpty) children,
      next, dropped)

def buildAll : List Record → NodeId × List Dropped → List Node × NodeId × List Dropped
  | [], counter => ([], counter)
  | r :: rs, counter =>
    let (node, counter) := r.build counter
    let (nodes, counter) := buildAll rs counter
    (node :: nodes, counter)

end

mutual

theorem build_eq : ∀ (r : Record) (id : NodeId) (dropped : List Dropped),
    r.build (id, dropped) =
      ((r.number id).1, id + (r.number id).1.span, dropped ++ (r.number id).2)
  | ⟨label, kind, comment, visible, hidden⟩, id, dropped => by
    rw [build, number]
    cases visible.isEmpty <;> cases hidden.isEmpty <;>
      simp [buildAll_eq visible, buildAll_eq hidden, Node.span, Node.item, Nat.add_assoc]

theorem buildAll_eq : ∀ (rs : List Record) (id : NodeId) (dropped : List Dropped),
    buildAll rs (id, dropped) =
      ((numberAll id rs).1, id + Node.totalSpan (numberAll id rs).1, dropped ++ (numberAll id rs).2)
  | [], id, dropped => by
    simp [buildAll, numberAll, Node.totalSpan]
  | r :: rs, id, dropped => by
    simp [buildAll, numberAll, build_eq r, buildAll_eq rs, Node.totalSpan, Nat.add_assoc]

end

end Record

namespace Tree

/-- Listing the nodes from a stack gives them in pre-order. -/
theorem walk_root (t : Tree) : Node.walk [t.root] = t.nodes := by
  rw [Node.walk_eq, Node.preorderAll, Node.preorderAll, List.append_nil]
  rfl

/-- Counting from a stack what is drawn gives the number of nodes that are drawn. -/
theorem countVisible_root (t : Tree) : Node.countVisible 0 [t.root] = t.visibleCount := by
  rw [Node.countVisible_eq, Node.visibleCountAll, Node.visibleCountAll, Nat.zero_add, Nat.add_zero]
  rfl

/-- A tree is built with one counter from zero on. The counter ends with the number of nodes. -/
theorem ofRecord_eq_build (r : Record) :
    r.build (0, []) = ((ofRecord r).root, (ofRecord r).size, droppedOf r) := by
  rw [Record.build_eq, List.nil_append, Nat.zero_add]
  rfl

end Tree

end TidyTree
