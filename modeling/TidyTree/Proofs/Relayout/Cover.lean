import TidyTree.Proofs.Layout.Folding
import TidyTree.Proofs.Relayout.Plan

set_option autoImplicit false
set_option relaxedAutoImplicit false

namespace TidyTree

variable {α : Type} {previous next : Layout α} {before : Node} {t : Tree} {i : NodeId}
  {changed : List NodeId}

/-- One layout shows a numbered tree and another the tree as some nodes were folded since. -/
structure Refolds (previous next : Layout α) (before : Node) (t : Tree) (changed : List NodeId) :
    Prop where
  previous : previous.Shows before
  next : next.Shows t.root
  numbered : before.IsNumbered 0
  renumbered : t.root.IsNumbered 0
  agree : before.AgreesOff (· ∈ changed) t.root

namespace Refolds

private theorem isWithin_of_mem (h : Refolds previous next before t changed) {id : NodeId}
    (differs : ¬ (id ∈ previous.ids ↔ id ∈ next.ids)) :
    t.isWithin (t.commonAncestor changed) id = true := by
  rw [h.previous.ids_eq, h.next.ids_eq] at differs
  by_cases gone : id ∈ before.drawn.map Node.id
  · have absent : id ∉ t.root.drawn.map Node.id := fun here => differs ⟨fun _ => here, fun _ => gone⟩
    obtain ⟨x, hx, folded, owned⟩ := h.agree.exists_owner h.numbered gone absent
    exact Tree.isWithin_commonAncestor h.renumbered hx folded owned
  · have came : id ∈ t.root.drawn.map Node.id := by
      by_contra absent
      exact differs ⟨fun here => absurd here gone, fun here => absurd here absent⟩
    obtain ⟨x, hx, folded, owned⟩ := h.agree.symm.exists_owner h.renumbered came gone
    -- The owner is found in the tree before; the same node of the tree owns the same numbers.
    have item : x.item ∈ t.root.preorder.map Node.item := by
      rw [← h.agree.map_item_preorder]
      exact List.mem_map_of_mem hx
    obtain ⟨y, hy, same⟩ := List.mem_map.mp item
    refine Tree.isWithin_commonAncestor h.renumbered hy ?_ ?_
    · rw [Node.id, same]
      exact folded
    · rw [Node.owns, same]
      exact owned

private theorem mem_links_of_mem_ids {l l' : Layout α} {root root' : Node} {P : NodeId → Prop}
    (h : l.Shows root) (numbered : root.IsNumbered i) (h' : l'.Shows root')
    (numbered' : root'.IsNumbered i) (agree : root.AgreesOff P root') {link : Link}
    (hlink : link ∈ l.links) (target : link.target ∈ l'.ids) : link ∈ l'.links := by
  obtain ⟨b, hb, source, same⟩ := Layout.mem_links.mp hlink
  obtain ⟨b', hb', same'⟩ := List.mem_map.mp target
  refine Layout.mem_links.mpr ⟨b', hb', ?_, same'⟩
  rw [← h.parent_congr numbered h' numbered' agree hb hb' (same.trans same'.symm)]
  exact source

theorem target_mem_ids {l : Layout α} {link : Link} (h : link ∈ l.links) : link.target ∈ l.ids := by
  obtain ⟨b, hb, _, same⟩ := Layout.mem_links.mp h
  exact same ▸ List.mem_map_of_mem hb

private theorem target_differs (h : Refolds previous next before t changed) {link : Link}
    (differs : ¬ (link ∈ previous.links ↔ link ∈ next.links)) :
    ¬ (link.target ∈ previous.ids ↔ link.target ∈ next.ids) := by
  intro both
  refine differs ⟨fun here => ?_, fun here => ?_⟩
  · exact mem_links_of_mem_ids h.previous h.numbered h.next h.renumbered h.agree here
      (both.mp (target_mem_ids here))
  · exact mem_links_of_mem_ids h.next h.renumbered h.previous h.numbered h.agree.symm here
      (both.mpr (target_mem_ids here))

end Refolds

variable [Scalar α]

namespace Plan

theorem mode_of_mem_nodes {scope : Scope} {transition : Transition NodeId (Spot α)}
    (h : transition ∈ (between previous next scope t).nodes) :
    transition.mode = Mode.of (scope.includes t transition.key) := by
  rcases List.mem_append.mp h with h | h
  · obtain ⟨b, _, rfl⟩ := List.mem_map.mp h
    unfold nodeTo
    dsimp only
    split <;> rfl
  · obtain ⟨b, _, rfl⟩ := List.mem_map.mp h
    rfl

theorem mode_of_mem_links {scope : Scope} {transition : Transition Link (Strand α)}
    (h : transition ∈ (between previous next scope t).links) :
    transition.mode = Mode.of (includesLink (scope.includes t) transition.key) := by
  rcases List.mem_append.mp h with h | h
  · obtain ⟨link, _, h⟩ := List.mem_filterMap.mp h
    obtain ⟨finish, _, rfl⟩ := Option.map_eq_some_iff.mp h
    unfold linkTo
    dsimp only
    split <;> rfl
  · obtain ⟨link, _, h⟩ := List.mem_filterMap.mp h
    obtain ⟨start, _, rfl⟩ := Option.map_eq_some_iff.mp h
    rfl

theorem opacity_of_entering_node {scope : Scope} {transition : Transition NodeId (Spot α)}
    (h : transition ∈ (between previous next scope t).nodes)
    (entering : transition.phase = .entering) : transition.start.opacity = 0 := by
  rcases List.mem_append.mp h with h | h
  · obtain ⟨b, _, rfl⟩ := List.mem_map.mp h
    unfold nodeTo at entering ⊢
    dsimp only at entering ⊢
    split
    · next position hposition => simp [hposition] at entering
    · rfl
  · obtain ⟨b, _, rfl⟩ := List.mem_map.mp h
    exact absurd entering (by simp [nodeFrom])

theorem opacity_of_entering_link {scope : Scope} {transition : Transition Link (Strand α)}
    (h : transition ∈ (between previous next scope t).links)
    (entering : transition.phase = .entering) : transition.start.opacity = 0 := by
  rcases List.mem_append.mp h with h | h
  · obtain ⟨link, _, h⟩ := List.mem_filterMap.mp h
    obtain ⟨finish, _, rfl⟩ := Option.map_eq_some_iff.mp h
    unfold linkTo at entering ⊢
    dsimp only at entering ⊢
    split
    · next start hstart => simp [hstart] at entering
    · rfl
  · obtain ⟨link, _, h⟩ := List.mem_filterMap.mp h
    obtain ⟨start, _, rfl⟩ := Option.map_eq_some_iff.mp h
    exact absurd entering (by simp [linkFrom])

end Plan

private theorem Transition.Fits.isSome_iff {κ ν : Type} {transition : Transition κ ν}
    {first second : κ → Option ν} (h : transition.Fits first second)
    (other : transition.phase ≠ .updating) :
    ¬ ((first transition.key).isSome ↔ (second transition.key).isSome) := by
  unfold Fits at h
  cases hphase : transition.phase with
  | updating => exact absurd hphase other
  | entering =>
    rw [hphase] at h
    simp [h.1, h.2]
  | exiting =>
    rw [hphase] at h
    simp [h.1, h.2]

namespace Refolds

/-- Every node that comes or goes moves smoothly. -/
theorem animated_nodes (h : Refolds previous next before t changed)
    {transition : Transition NodeId (Spot α)}
    (member : transition ∈
      (Plan.between previous next (.subtree (t.commonAncestor changed)) t).nodes)
    (other : transition.phase ≠ .updating) : transition.mode = .animated := by
  have fits := (Plan.leadsTo_nodes (h.previous.isProper h.numbered) (h.next.isProper h.renumbered)
    _ t).fits transition member
  have differs := fits.isSome_iff other
  rw [Layout.isSome_spot?_iff, Layout.isSome_spot?_iff] at differs
  rw [Plan.mode_of_mem_nodes member, Scope.includes_subtree, h.isWithin_of_mem differs]
  rfl

theorem animated_links (h : Refolds previous next before t changed)
    {transition : Transition Link (Strand α)}
    (member : transition ∈
      (Plan.between previous next (.subtree (t.commonAncestor changed)) t).links)
    (other : transition.phase ≠ .updating) : transition.mode = .animated := by
  have proper := h.previous.isProper h.numbered
  have proper' := h.next.isProper h.renumbered
  have fits := (Plan.leadsTo_links proper proper' _ t).fits transition member
  have differs := fits.isSome_iff other
  rw [proper.isSome_line?_iff, proper'.isSome_line?_iff] at differs
  have target := h.isWithin_of_mem (h.target_differs differs)
  rw [Plan.mode_of_mem_links member, Plan.includesLink, Scope.includes_subtree,
    Scope.includes_subtree, target, Bool.or_true]
  rfl

end Refolds

end TidyTree
