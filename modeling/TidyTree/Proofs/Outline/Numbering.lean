import Mathlib
import TidyTree.Outline.Tree

set_option autoImplicit false
set_option relaxedAutoImplicit false

namespace TidyTree

namespace Node

mutual

/-- The nodes are numbered in pre-order from `id` on, and each knows the size of its subtree. -/
def IsNumbered (id : NodeId) : Node → Prop
  | mk item _ children =>
    item.id = id ∧ item.span = 1 + totalSpan children ∧ AreNumbered (id + 1) children

def AreNumbered (id : NodeId) : List Node → Prop
  | [] => True
  | n :: ns => n.IsNumbered id ∧ AreNumbered (id + n.span) ns

end

@[simp] theorem item_mk (item : Item) (shown : Bool) (children : List Node) :
    (mk item shown children).item = item := rfl

@[simp] theorem children_mk (item : Item) (shown : Bool) (children : List Node) :
    (mk item shown children).children = children := rfl

@[simp] theorem id_mk (item : Item) (shown : Bool) (children : List Node) :
    (mk item shown children).id = item.id := rfl

@[simp] theorem span_mk (item : Item) (shown : Bool) (children : List Node) :
    (mk item shown children).span = item.span := rfl

theorem preorderAll_eq_flatMap (ns : List Node) : preorderAll ns = ns.flatMap preorder := by
  induction ns with
  | nil => rfl
  | cons n ns ih => simp [preorderAll, ih]

theorem mem_preorder_self (n : Node) : n ∈ n.preorder := by
  cases n
  exact List.mem_cons_self

private theorem IsNumbered.id_eq {id : NodeId} {n : Node} (h : n.IsNumbered id) : n.id = id := by
  cases n
  exact h.1

private theorem IsNumbered.span_pos {id : NodeId} {n : Node} (h : n.IsNumbered id) : 0 < n.span
    := by
  cases n
  rw [span_mk, h.2.1]
  omega

mutual

theorem IsNumbered.map_id_preorder {id : NodeId} :
    ∀ {n : Node}, n.IsNumbered id → n.preorder.map Node.id = List.range' id n.span
  | mk item shown children, h => by
    obtain ⟨hid, hspan, hchildren⟩ := h
    rw [preorder, List.map_cons, AreNumbered.map_id_preorderAll hchildren, span_mk, hspan, id_mk,
      hid, Nat.add_comm 1, List.range'_succ]

private theorem AreNumbered.map_id_preorderAll {id : NodeId} :
    ∀ {ns : List Node}, AreNumbered id ns →
      (preorderAll ns).map Node.id = List.range' id (totalSpan ns)
  | [], _ => rfl
  | n :: ns, h => by
    rw [preorderAll, List.map_append, IsNumbered.map_id_preorder h.1,
      AreNumbered.map_id_preorderAll h.2, totalSpan, List.range'_append_1]

end

/-- A node owns the numbers of its subtree. -/
theorem IsNumbered.owns_iff {id : NodeId} {n : Node} (h : n.IsNumbered id) (j : NodeId) :
    n.owns j = true ↔ j ∈ n.preorder.map Node.id := by
  have hid : n.item.id = id := h.id_eq
  have hspan : n.item.span = n.span := rfl
  rw [h.map_id_preorder, List.mem_range'_1, owns, Item.owns, hid, hspan, Bool.and_eq_true,
    decide_eq_true_eq, decide_eq_true_eq]
  lia

theorem IsNumbered.owns_of_mem {id : NodeId} {n x : Node} (h : n.IsNumbered id)
    (hx : x ∈ n.preorder) : n.owns x.id = true :=
  (h.owns_iff x.id).mpr (List.mem_map_of_mem hx)

theorem AreNumbered.le_id {id : NodeId} {ns : List Node} (h : AreNumbered id ns) {x : Node}
    (hx : x ∈ preorderAll ns) : id ≤ x.id := by
  have hmem : x.id ∈ (preorderAll ns).map Node.id := List.mem_map_of_mem hx
  rw [h.map_id_preorderAll, List.mem_range'_1] at hmem
  exact hmem.1

private theorem IsNumbered.nodup_preorder {id : NodeId} {n : Node} (h : n.IsNumbered id) :
    (n.preorder.map Node.id).Nodup := by
  rw [h.map_id_preorder]
  exact List.nodup_range'

theorem IsNumbered.eq_of_id_eq {id : NodeId} {n x y : Node} (h : n.IsNumbered id)
    (hx : x ∈ n.preorder) (hy : y ∈ n.preorder) (hxy : x.id = y.id) : x = y :=
  List.inj_on_of_nodup_map h.nodup_preorder hx hy hxy

mutual

theorem IsNumbered.of_mem {id : NodeId} {x : Node} :
    ∀ {n : Node}, n.IsNumbered id → x ∈ n.preorder → x.IsNumbered x.id
  | mk item shown children, h, hx => by
    rw [preorder, List.mem_cons] at hx
    rcases hx with rfl | hx
    · rw [id_mk, h.1]
      exact h
    · exact AreNumbered.of_mem h.2.2 hx

private theorem AreNumbered.of_mem {id : NodeId} {x : Node} :
    ∀ {ns : List Node}, AreNumbered id ns → x ∈ preorderAll ns → x.IsNumbered x.id
  | [], _, hx => absurd hx List.not_mem_nil
  | n :: ns, h, hx => by
    rw [preorderAll, List.mem_append] at hx
    rcases hx with hx | hx
    · exact IsNumbered.of_mem h.1 hx
    · exact AreNumbered.of_mem h.2 hx

end

theorem AreNumbered.pairwise_id {id : NodeId} {ns : List Node} (h : AreNumbered id ns) :
    ns.Pairwise fun c d => c.id < d.id := by
  induction ns generalizing id with
  | nil => exact List.Pairwise.nil
  | cons n ns ih =>
    refine List.pairwise_cons.mpr ⟨fun d hd => ?_, ih h.2⟩
    have below : d ∈ preorderAll ns := by
      rw [preorderAll_eq_flatMap, List.mem_flatMap]
      exact ⟨d, hd, d.mem_preorder_self⟩
    have behind := h.2.le_id below
    have first := h.1.id_eq
    have pos := h.1.span_pos
    lia

end Node

mutual

theorem Record.isNumbered_number (id : NodeId) : ∀ r : Record, (r.number id).1.IsNumbered id
  | ⟨label, kind, comment, visible, hidden⟩ => by
    rw [Record.number]
    cases visible.isEmpty
    · exact ⟨rfl, rfl, Record.areNumbered_numberAll (id + 1) visible⟩
    · exact ⟨rfl, rfl, Record.areNumbered_numberAll (id + 1) hidden⟩

private theorem Record.areNumbered_numberAll (id : NodeId) :
    ∀ rs : List Record, Node.AreNumbered id (Record.numberAll id rs).1
  | [] => trivial
  | r :: rs => by
    rw [Record.numberAll]
    exact ⟨r.isNumbered_number id, Record.areNumbered_numberAll _ rs⟩

end

namespace Node

@[simp] theorem item_withState (n : Node) (state : BranchState) :
    (n.withState state).item = n.item := by
  unfold withState
  split <;> rfl

@[simp] theorem children_withState (n : Node) (state : BranchState) :
    (n.withState state).children = n.children := by
  unfold withState
  split <;> rfl

theorem item_setState (id : NodeId) (state : BranchState) (n : Node) :
    (n.setState id state).item = n.item := by
  obtain ⟨item, shown, children⟩ := n
  rw [setState]
  split
  · rw [item_withState]
  · rfl

theorem isNumbered_iff (id : NodeId) (n : Node) :
    n.IsNumbered id ↔
      n.item.id = id ∧ n.item.span = 1 + totalSpan n.children ∧ AreNumbered (id + 1) n.children := by
  cases n
  rfl

private theorem totalSpan_setStateAny (id : NodeId) (state : BranchState) (ns : List Node) :
    totalSpan (setStateAny id state ns) = totalSpan ns := by
  induction ns with
  | nil => rfl
  | cons n ns ih =>
    rw [setStateAny]
    split
    · rw [totalSpan, totalSpan, span, item_setState]
      rfl
    · rw [totalSpan, totalSpan, ih]

mutual

theorem IsNumbered.setState {id : NodeId} (j : NodeId) (state : BranchState) :
    ∀ {n : Node}, n.IsNumbered id → (n.setState j state).IsNumbered id
  | mk item shown children, h => by
    rw [Node.setState]
    split
    · rw [isNumbered_iff, item_withState, children_withState, ← isNumbered_iff]
      exact h
    · refine ⟨h.1, ?_, AreNumbered.setStateAny j state h.2.2⟩
      rw [totalSpan_setStateAny]
      exact h.2.1

private theorem AreNumbered.setStateAny {id : NodeId} (j : NodeId) (state : BranchState) :
    ∀ {ns : List Node}, AreNumbered id ns → AreNumbered id (setStateAny j state ns)
  | [], _ => trivial
  | n :: ns, h => by
    rw [Node.setStateAny]
    split
    · refine ⟨IsNumbered.setState j state h.1, ?_⟩
      rw [span, item_setState]
      exact h.2
    · exact ⟨h.1, AreNumbered.setStateAny j state h.2⟩

end

end Node

namespace Tree

/-- The trees that folding leads to from the tree of a record. -/
inductive IsReachable : Tree → Prop where
  | ofRecord (r : Record) : IsReachable (.ofRecord r)
  | folded {t : Tree} (h : IsReachable t) (how : Fold) (id : NodeId) : IsReachable (t.folded how id)
  | drained {t : Tree} (h : IsReachable t) : IsReachable t.drained

/-- Folding keeps the tree or gives one of its nodes another state, which is fed. -/
theorem folded_cases (t : Tree) (how : Fold) (id : NodeId) :
    t.folded how id = t ∨
      ∃ n state, t.find? id = some n ∧ state ≠ n.state ∧ state = how.apply n.state ∧
        t.folded how id = ⟨t.root.setState id state, t.revision + 1, t.feed ++ [⟨id, state⟩]⟩ := by
  unfold folded fold
  cases h : t.find? id with
  | none => exact Or.inl rfl
  | some n =>
    by_cases same : how.apply n.state = n.state
    · exact Or.inl (by simp [same])
    · exact Or.inr ⟨n, how.apply n.state, rfl, same, rfl, by simp [same]⟩

end Tree

theorem Node.IsNumbered.folded {t : Tree} {i : NodeId} (h : t.root.IsNumbered i) (how : Fold)
    (id : NodeId) : (t.folded how id).root.IsNumbered i := by
  rcases t.folded_cases how id with same | ⟨_, state, _, _, _, changed⟩
  · rw [same]
    exact h
  · rw [changed]
    exact h.setState id state

theorem Tree.IsReachable.isNumbered {t : Tree} (h : t.IsReachable) : t.root.IsNumbered 0 := by
  induction h with
  | ofRecord r => exact r.isNumbered_number 0
  | folded _ how id ih => exact ih.folded how id
  | drained _ ih => exact ih

end TidyTree
