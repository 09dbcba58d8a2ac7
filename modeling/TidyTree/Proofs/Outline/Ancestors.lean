import TidyTree.Proofs.Outline.Navigation

set_option autoImplicit false
set_option relaxedAutoImplicit false

namespace TidyTree.Tree

/-- What is found above several numbers depends on the nodes that they name: it is the deepest node
above all of these, and the root where they name none. -/
structure FindsDeepest (t : Tree) : Prop where
  deepest : ∀ ids, ids ≠ [] → (∀ id ∈ ids, id ∈ t.nodes.map Node.id) →
    ∀ top, t.IsDeepestAbove ids top ↔ top = t.commonAncestor ids
  congr : ∀ ids ids', (∀ id ∈ t.nodes.map Node.id, id ∈ ids ↔ id ∈ ids') →
    t.commonAncestor ids = t.commonAncestor ids'
  astray : ∀ ids, (∀ id ∈ ids, id ∉ t.nodes.map Node.id) → t.commonAncestor ids = t.root.id

variable {t : Tree} {i top : NodeId} {ids ids' : List NodeId}

private theorem IsAbove.le (numbered : t.root.IsNumbered i) {id : NodeId} (h : t.IsAbove top id) :
    top ≤ id := by
  obtain ⟨-, chain⟩ := h
  induction chain with
  | refl => exact Nat.le_refl top
  | tail _ step ih => exact ih.trans (step.lt numbered).le

private theorem IsDeepestAbove.eq (numbered : t.root.IsNumbered i) {other : NodeId}
    (h : t.IsDeepestAbove ids top) (h' : t.IsDeepestAbove ids other) : top = other := by
  have below : t.IsAbove top other := h'.2 top h.1
  have above : t.IsAbove other top := h.2 other h'.1
  exact Nat.le_antisymm (below.le numbered) (above.le numbered)

private theorem IsDeepestAbove.congr (same : ∀ id, id ∈ ids ↔ id ∈ ids')
    (h : t.IsDeepestAbove ids top) :
    t.IsDeepestAbove ids' top := by
  constructor
  · intro id hid
    exact h.1 id ((same id).mpr hid)
  · intro a above
    exact h.2 a fun id hid => above id ((same id).mp hid)

private theorem filterMap_path?_eq_nil (numbered : t.root.IsNumbered i)
    (astray : ∀ id ∈ ids, id ∉ t.nodes.map Node.id) : ids.filterMap t.path? = [] := by
  rw [List.filterMap_eq_nil_iff]
  intro id hid
  exact (path?_eq_none_iff numbered id).mpr (astray id hid)

private theorem commonAncestor_filter (numbered : t.root.IsNumbered i) (ids : List NodeId) :
    t.commonAncestor (ids.filter (· ∈ t.nodes.map Node.id)) = t.commonAncestor ids := by
  have ways : (ids.filter (· ∈ t.nodes.map Node.id)).filterMap t.path? = ids.filterMap t.path? := by
    rw [List.filterMap_filter]
    apply List.filterMap_congr
    intro id _
    by_cases member : id ∈ t.nodes.map Node.id
    · rw [if_pos (decide_eq_true member)]
    · rw [if_neg (by simpa using member), (path?_eq_none_iff numbered id).mpr member]
  rw [commonAncestor, ways, commonAncestor]

private theorem commonAncestor_congr (numbered : t.root.IsNumbered i)
    (same : ∀ id ∈ t.nodes.map Node.id, id ∈ ids ↔ id ∈ ids') :
    t.commonAncestor ids = t.commonAncestor ids' := by
  rw [← commonAncestor_filter numbered ids, ← commonAncestor_filter numbered ids']
  have known : ∀ id, id ∈ ids.filter (· ∈ t.nodes.map Node.id) ↔
      id ∈ ids'.filter (· ∈ t.nodes.map Node.id) := by
    intro id
    rw [List.mem_filter, List.mem_filter, decide_eq_true_iff]
    exact and_congr_left (same id)
  have inTree : ∀ list : List NodeId, ∀ id ∈ list.filter (· ∈ t.nodes.map Node.id),
      id ∈ t.nodes.map Node.id := by
    intro list id hid
    exact of_decide_eq_true (List.mem_filter.mp hid).2
  by_cases none : ids.filter (· ∈ t.nodes.map Node.id) = []
  · have none' : ids'.filter (· ∈ t.nodes.map Node.id) = [] := by
      rw [List.eq_nil_iff_forall_not_mem]
      intro id hid
      exact absurd (none ▸ (known id).mpr hid) List.not_mem_nil
    rw [none, none']
  · have some' : ids'.filter (· ∈ t.nodes.map Node.id) ≠ [] := by
      obtain ⟨id, hid⟩ := List.exists_mem_of_ne_nil _ none
      exact List.ne_nil_of_mem ((known id).mp hid)
    have first := isDeepestAbove_commonAncestor numbered none (inTree ids)
    have second := isDeepestAbove_commonAncestor numbered some' (inTree ids')
    exact (first.congr known).eq numbered second

/-- In every tree that folding leads to, the node found above several numbers is the only deepest
node above all of those that have a node, and the root where none has. -/
theorem findsDeepest_of_isReachable (reachable : t.IsReachable) : t.FindsDeepest := by
  have numbered := reachable.isNumbered
  constructor
  case deepest =>
    intro ids nonempty members top
    have found := isDeepestAbove_commonAncestor numbered nonempty members
    constructor
    · intro h
      exact h.eq numbered found
    · rintro rfl
      exact found
  case congr => exact fun ids ids' same => commonAncestor_congr numbered same
  case astray =>
    intro ids astray
    rw [commonAncestor, filterMap_path?_eq_nil numbered astray]

/-- Two leaves below one node, one of them listed twice and beside a number without a node. -/
theorem findsDeepest_of_isReachable_folded :
    ∃ t : Tree, t.IsReachable ∧ t.commonAncestor [3, 9, 2, 3] = 1 ∧ t.commonAncestor [3, 4] = 0 ∧
      t.FindsDeepest := by
  let start : Tree := .ofRecord { label := "root", visible := [
    { label := "left", hidden := [{ label := "upper" }, { label := "lower" }] },
    { label := "right" }] }
  have reachable : (start.folded .expand 1).IsReachable := .folded (.ofRecord _) _ _
  exact ⟨_, reachable, by decide +kernel, by decide +kernel, findsDeepest_of_isReachable reachable⟩

end TidyTree.Tree
