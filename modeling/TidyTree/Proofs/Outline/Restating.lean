import TidyTree.Proofs.Outline.Ownership

set_option autoImplicit false
set_option relaxedAutoImplicit false

/-!
# Nodes in other states

A rule that makes another state of the number and the state of a node can be applied to every node
of a tree at once. The nodes and their children stay, and applying two rules one after the other is
applying one. To give a single node another state is such a rule, so what folding makes of a tree
can be told node by node.
-/

namespace TidyTree

/-- The rule leaves leaves alone and makes no others. -/
def KeepsLeaves (f : NodeId → BranchState → BranchState) : Prop :=
  ∀ id state, f id state = .leaf ↔ state = .leaf

namespace Node

mutual

/-- The node with the states that a rule makes of all nodes of its subtree. -/
def restate (f : NodeId → BranchState → BranchState) : Node → Node
  | mk item shown children =>
    (mk item shown (restateAll f children)).withState (f item.id (mk item shown children).state)

def restateAll (f : NodeId → BranchState → BranchState) : List Node → List Node
  | [] => []
  | n :: ns => n.restate f :: restateAll f ns

end

variable {f g : NodeId → BranchState → BranchState}

private theorem preorder_eq (n : Node) : n.preorder = n :: preorderAll n.children := by
  cases n
  rfl

private theorem eq_of_state_eq {n m : Node} (item : n.item = m.item)
    (children : n.children = m.children)
    (parent : n.children ≠ []) (state : n.state = m.state) : n = m := by
  obtain ⟨item₁, shown₁, _ | ⟨c, cs⟩⟩ := n
  · exact absurd rfl parent
  · obtain ⟨item₂, shown₂, children₂⟩ := m
    obtain rfl : item₁ = item₂ := item
    obtain rfl : c :: cs = children₂ := children
    cases shown₁ <;> cases shown₂ <;> simp [Node.state] at state ⊢

private theorem state_withState {n : Node} {s : BranchState} (h : s = .leaf ↔ n.state = .leaf) :
    (n.withState s).state = s := by
  obtain ⟨item, shown, _ | ⟨c, cs⟩⟩ := n
  · obtain rfl : s = .leaf := h.mpr rfl
    rfl
  · cases s with
    | leaf => cases shown <;> exact absurd (h.mp rfl) (by simp [state])
    | expanded => rfl
    | collapsed => rfl

private theorem withState_of_leaf {n : Node} (h : n.children = []) (s : BranchState) :
    n.withState s = n := by
  obtain ⟨item, shown, children⟩ := n
  obtain rfl : children = [] := h
  cases s <;> rfl

private theorem withState_self {n : Node} {s : BranchState} (h : s = n.state) : n.withState s = n
    := by
  subst h
  obtain ⟨item, shown, _ | ⟨c, cs⟩⟩ := n
  · exact withState_of_leaf rfl _
  · cases shown <;> rfl

private theorem restateAll_eq_map (f : NodeId → BranchState → BranchState) (ns : List Node) :
    restateAll f ns = ns.map (restate f) := by
  induction ns with
  | nil => rfl
  | cons n ns ih => rw [restateAll, ih, List.map_cons]

@[simp] theorem item_restate (f : NodeId → BranchState → BranchState) (n : Node) :
    (n.restate f).item = n.item := by
  cases n
  rw [restate, item_withState, item_mk, item_mk]

@[simp] theorem id_restate (f : NodeId → BranchState → BranchState) (n : Node) :
    (n.restate f).id = n.id := congrArg Item.id (item_restate f n)

@[simp] theorem children_restate (f : NodeId → BranchState → BranchState) (n : Node) :
    (n.restate f).children = n.children.map (restate f) := by
  cases n
  rw [restate, children_withState, children_mk, children_mk, restateAll_eq_map]

private theorem state_mk_restateAll (f : NodeId → BranchState → BranchState) (item : Item)
    (shown : Bool)
    (children : List Node) :
    (mk item shown (restateAll f children)).state = (mk item shown children).state := by
  cases children with
  | nil => rfl
  | cons c cs => cases shown <;> rfl

theorem state_restate (keeps : KeepsLeaves f) (n : Node) :
    (n.restate f).state = f n.id n.state := by
  obtain ⟨item, shown, children⟩ := n
  rw [restate, state_withState, id_mk]
  rw [state_mk_restateAll]
  exact keeps item.id _

mutual

theorem preorder_restate (f : NodeId → BranchState → BranchState) :
    ∀ n : Node, (n.restate f).preorder = n.preorder.map (restate f)
  | mk item shown children => by
    rw [preorder_eq, children_restate, ← restateAll_eq_map, children_mk,
      preorderAll_restateAll f children, preorder, List.map_cons]

private theorem preorderAll_restateAll (f : NodeId → BranchState → BranchState) :
    ∀ ns : List Node, preorderAll (restateAll f ns) = (preorderAll ns).map (restate f)
  | [] => rfl
  | n :: ns => by
    rw [restateAll, preorderAll, preorderAll, List.map_append, preorder_restate f n,
      preorderAll_restateAll f ns]

end

mutual

/-- Only what a rule makes of the nodes of the subtree counts. -/
theorem restate_congr : ∀ {n : Node}, (∀ x ∈ n.preorder, f x.id x.state = g x.id x.state) →
    n.restate f = n.restate g
  | mk item shown children, h => by
    have here : f item.id (mk item shown children).state = g item.id (mk item shown children).state :=
      h _ List.mem_cons_self
    rw [restate, restate, here,
      restateAll_congr fun x hx => h x (List.mem_cons_of_mem _ hx)]

private theorem restateAll_congr :
    ∀ {ns : List Node}, (∀ x ∈ preorderAll ns, f x.id x.state = g x.id x.state) →
      restateAll f ns = restateAll g ns
  | [], _ => rfl
  | n :: ns, h => by
    rw [restateAll, restateAll, restate_congr fun x hx => h x (List.mem_append_left _ hx),
      restateAll_congr fun x hx => h x (List.mem_append_right _ hx)]

end

mutual

theorem restate_self : ∀ n : Node, n.restate (fun _ state => state) = n
  | mk item shown children => by
    rw [restate, restateAll_self children]
    exact withState_self rfl

private theorem restateAll_self : ∀ ns : List Node, restateAll (fun _ state => state) ns = ns
  | [] => rfl
  | n :: ns => by rw [restateAll, restate_self n, restateAll_self ns]

end

theorem restate_eq_self {n : Node} (h : ∀ x ∈ n.preorder, f x.id x.state = x.state) :
    n.restate f = n := (restate_congr h).trans (restate_self n)

private theorem restateAll_eq_self {ns : List Node}
    (h : ∀ x ∈ preorderAll ns, f x.id x.state = x.state) :
    restateAll f ns = ns := (restateAll_congr h).trans (restateAll_self ns)

mutual

theorem restate_restate (hf : KeepsLeaves f) (hg : KeepsLeaves g) :
    ∀ n : Node, (n.restate f).restate g = n.restate fun id state => g id (f id state)
  | mk item shown children => by
    have both : KeepsLeaves fun id state => g id (f id state) := fun id state =>
      (hg id _).trans (hf id state)
    have below := restateAll_restateAll hf hg children
    cases children with
    | nil =>
      rw [restate, restateAll, withState_of_leaf rfl, restate, restateAll, withState_of_leaf rfl,
        restate, restateAll, withState_of_leaf rfl]
    | cons c cs =>
      refine eq_of_state_eq ?_ ?_ ?_ ?_
      · rw [item_restate, item_restate, item_restate]
      · rw [children_restate, children_restate, children_restate, ← restateAll_eq_map,
          ← restateAll_eq_map, ← restateAll_eq_map]
        exact below
      · rw [children_restate, children_restate]
        simp
      · rw [state_restate hg, state_restate hf, state_restate both, id_restate]

private theorem restateAll_restateAll (hf : KeepsLeaves f) (hg : KeepsLeaves g) :
    ∀ ns : List Node,
      restateAll g (restateAll f ns) = restateAll (fun id state => g id (f id state)) ns
  | [] => rfl
  | n :: ns => by
    rw [restateAll, restateAll, restateAll, restate_restate hf hg n, restateAll_restateAll hf hg ns]

end

mutual

/-- To give the node of a number another state is a rule that passes over all other numbers. -/
theorem IsNumbered.setState_eq_restate {i : NodeId} (id : NodeId) (state : BranchState) :
    ∀ {n : Node}, n.IsNumbered i →
      n.setState id state = n.restate fun j s => if j = id then state else s
  | mk item shown children, h => by
    rw [setState, restate]
    by_cases here : item.id = id
    · -- The children have other numbers, so the rule passes over them.
      have others : restateAll (fun j s => if j = id then state else s) children = children := by
        refine restateAll_eq_self fun x hx => if_neg ?_
        have behind := h.2.2.le_id hx
        have start := h.1
        lia
      rw [if_pos here, if_pos here, others]
    · rw [if_neg here, if_neg here, AreNumbered.setStateAny_eq_restateAll id state h.2.2]
      exact (withState_self (state_mk_restateAll _ item shown children).symm).symm

private theorem AreNumbered.setStateAny_eq_restateAll {i : NodeId} (id : NodeId)
    (state : BranchState) :
    ∀ {ns : List Node}, AreNumbered i ns →
      setStateAny id state ns = restateAll (fun j s => if j = id then state else s) ns
  | [], _ => rfl
  | n :: ns, h => by
    rw [setStateAny, restateAll]
    by_cases owned : n.owns id = true
    · have others : restateAll (fun j s => if j = id then state else s) ns = ns := by
        refine restateAll_eq_self fun x hx => if_neg ?_
        rintro rfl
        exact h.not_owns hx owned
      rw [if_pos owned, IsNumbered.setState_eq_restate id state h.1, others]
    · have unchanged : n.restate (fun j s => if j = id then state else s) = n := by
        refine restate_eq_self fun x hx => if_neg ?_
        rintro rfl
        exact owned (h.1.owns_of_mem hx)
      rw [if_neg owned, unchanged, AreNumbered.setStateAny_eq_restateAll id state h.2]

end

end Node

end TidyTree
