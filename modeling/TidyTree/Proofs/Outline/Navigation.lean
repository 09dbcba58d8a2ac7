import TidyTree.Proofs.Outline.Ownership

set_option autoImplicit false
set_option relaxedAutoImplicit false

namespace TidyTree

namespace Tree

/-- The numbers from the root down to a node, each that of the parent of the next. -/
structure IsWay (t : Tree) (id : NodeId) (way : List NodeId) : Prop where
  starts : way.head? = some t.root.id
  ends : way.getLast? = some id
  owners : way.IsChain t.IsParent

/-- What is found by numbers is what the structure of the tree says. -/
structure IsNavigable (t : Tree) : Prop where
  ids : t.nodes.map Node.id = List.range t.size
  spans : ∀ x ∈ t.nodes, x.span = x.preorder.length
  found : ∀ id x, t.find? id = some x ↔ x ∈ t.nodes ∧ x.id = id
  unknown : ∀ id, t.find? id = none ↔ t.size ≤ id
  ways : ∀ id way, t.path? id = some way ↔ t.IsWay id way
  astray : ∀ id, t.path? id = none ↔ t.size ≤ id
  parents : ∀ id parent, t.parent? id = some parent ↔ t.IsParent parent id
  subtrees : ∀ id, t.subtree? id = (t.find? id).map fun x => x.preorder.map Node.id
  within : ∀ top id, t.isWithin top id = true ↔ ∃ way, t.path? id = some way ∧ top ∈ way
  owned : ∀ top x, t.find? top = some x → ∀ id,
    x.owns id = true ↔ ∃ way, t.path? id = some way ∧ top ∈ way

variable {t : Tree} {i : NodeId}

theorem path?_eq_none_iff (numbered : t.root.IsNumbered i) (id : NodeId) :
    t.path? id = none ↔ id ∉ t.nodes.map Node.id := by
  constructor
  · intro lost member
    obtain ⟨rest, there, _⟩ := numbered.path?_eq_some member
    have there : t.path? id = some (t.root.id :: rest) := there
    rw [lost] at there
    exact absurd there (by simp)
  · intro outside
    cases there : t.path? id with
    | none => rfl
    | some way => exact absurd (mem_of_path? numbered there) outside

theorem find?_eq_none_iff (numbered : t.root.IsNumbered i) (id : NodeId) :
    t.find? id = none ↔ id ∉ t.nodes.map Node.id := by
  constructor
  · intro lost member
    obtain ⟨x, hx, same⟩ := List.mem_map.mp member
    have there : t.find? id = some x := numbered.find?_eq_some_iff.mpr ⟨hx, same⟩
    rw [lost] at there
    exact absurd there (by simp)
  · intro outside
    cases there : t.find? id with
    | none => rfl
    | some x =>
      obtain ⟨hx, same⟩ := numbered.find?_eq_some_iff.mp there
      exact absurd (same ▸ List.mem_map_of_mem hx) outside

private theorem IsWay.path?_eq (numbered : t.root.IsNumbered i) {id : NodeId} {way : List NodeId}
    (h : t.IsWay id way) : t.path? id = some way := by
  -- From the far end, so that what remains is the way to the parent.
  induction way using List.reverseRecOn generalizing id with
  | nil => exact absurd h.starts (by simp)
  | append_singleton way last ih =>
    obtain ⟨starts, ends, owners⟩ := h
    obtain rfl : last = id := by simpa using ends
    cases hparent : way.getLast? with
    | none =>
      obtain rfl := List.getLast?_eq_none_iff.mp hparent
      obtain rfl : last = t.root.id := by simpa using starts
      exact path?_root t numbered
    | some parent =>
      obtain ⟨upper, _, joint⟩ := List.isChain_append.mp owners
      have step : t.IsParent parent last := joint parent hparent last rfl
      have nonempty : way ≠ [] := by
        rintro rfl
        exact absurd hparent (by simp)
      have above : t.IsWay parent way :=
        ⟨by rwa [List.head?_append_of_ne_nil _ nonempty] at starts, hparent, upper⟩
      obtain ⟨upTo, there, further⟩ := step.path?_eq numbered
      obtain rfl : way = upTo := Option.some.inj ((ih above).symm.trans there)
      exact further

theorem path?_eq_some_iff (numbered : t.root.IsNumbered i) {id : NodeId} {way : List NodeId} :
    t.path? id = some way ↔ t.IsWay id way := by
  refine ⟨fun there => ?_, IsWay.path?_eq numbered⟩
  exact ⟨Node.head?_of_path? there, getLast?_of_path? numbered there,
    isChain_path? numbered (mem_of_path? numbered there) there⟩

private theorem isAbove_iff_mem_path? (numbered : t.root.IsNumbered i) {top id : NodeId} :
    t.IsAbove top id ↔ ∃ way, t.path? id = some way ∧ top ∈ way := by
  constructor
  · intro above
    obtain ⟨way, rest, there, further⟩ := above.path?_begins numbered
    have met : top ∈ way := List.mem_of_getLast? (getLast?_of_path? numbered there)
    exact ⟨way ++ rest, further, List.mem_append_left rest met⟩
  · rintro ⟨way, there, met⟩
    exact isAbove_of_mem_path? numbered (mem_of_path? numbered there) there met

/-- In every tree that folding leads to, navigation by numbers agrees with the structure. -/
theorem isNavigable_of_isReachable (reachable : t.IsReachable) : t.IsNavigable := by
  have numbered := reachable.isNumbered
  have ids : t.nodes.map Node.id = List.range t.size := by
    rw [nodes, numbered.map_id_preorder, ← List.range_eq_range']
    rfl
  have outside (id : NodeId) : id ∉ t.nodes.map Node.id ↔ t.size ≤ id := by
    rw [ids, List.mem_range, not_lt]
  constructor
  case ids => exact ids
  case spans =>
    intro x hx
    have length := congrArg List.length (numbered.of_mem hx).map_id_preorder
    rw [List.length_map, List.length_range'] at length
    exact length.symm
  case found => exact fun id x => numbered.find?_eq_some_iff
  case unknown => exact fun id => (find?_eq_none_iff numbered id).trans (outside id)
  case ways => exact fun id way => path?_eq_some_iff numbered
  case astray => exact fun id => (path?_eq_none_iff numbered id).trans (outside id)
  case parents => exact fun id parent => (isParent_iff numbered).symm
  case subtrees =>
    intro id
    cases there : t.find? id with
    | none => rw [subtree?, there, Option.map_none, Option.map_none]
    | some x =>
      obtain ⟨hx, _⟩ := numbered.find?_eq_some_iff.mp there
      rw [subtree?, there, Option.map_some, Option.map_some, (numbered.of_mem hx).map_id_preorder]
  case within =>
    intro top id
    rw [isWithin_iff_isAbove numbered, isAbove_iff_mem_path? numbered]
  case owned =>
    intro top x there id
    rw [← isAbove_iff_mem_path? numbered, ← isWithin_iff_isAbove numbered, isWithin, there,
      Option.any_some]

theorem isNavigable_of_isReachable_folded :
    ∃ t : Tree, t.IsReachable ∧ t.size = 5 ∧ t.visibleCount = 1 ∧ t.path? 3 = some [0, 1, 3] ∧
      t.IsNavigable := by
  let start : Tree := .ofRecord { label := "root", visible := [
    { label := "left", hidden := [{ label := "upper" }, { label := "lower" }] },
    { label := "right" }] }
  have reachable : ((start.folded .expand 1).folded .toggle 0).IsReachable :=
    .folded (.folded (.ofRecord _) _ _) _ _
  exact ⟨_, reachable, by decide +kernel, by decide +kernel, by decide +kernel,
    isNavigable_of_isReachable reachable⟩

end Tree

end TidyTree
