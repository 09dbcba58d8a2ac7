import TidyTree.Proofs.Outline.Numbering

set_option autoImplicit false
set_option relaxedAutoImplicit false

namespace TidyTree

namespace Node

mutual

theorem preorder_subset {x : Node} : ∀ {n : Node}, x ∈ n.preorder → x.preorder ⊆ n.preorder
  | mk item shown children, h => by
    rw [preorder, List.mem_cons] at h
    rcases h with rfl | h
    · exact List.Subset.refl _
    · exact List.subset_cons_of_subset _ (preorder_subsetAll h)

theorem preorder_subsetAll {x : Node} :
    ∀ {ns : List Node}, x ∈ preorderAll ns → x.preorder ⊆ preorderAll ns
  | [], h => absurd h List.not_mem_nil
  | n :: ns, h => by
    rw [preorderAll, List.mem_append] at h
    rcases h with h | h
    · exact List.subset_append_of_subset_left _ (preorder_subset h)
    · exact List.subset_append_of_subset_right _ (preorder_subsetAll h)

end

mutual

private theorem IsNumbered.descend_eq_some {i id : NodeId} : ∀ {n : Node}, n.IsNumbered i →
    id ∈ n.preorder.map Node.id → ∃ x, n.descend id = some x ∧ x ∈ n.preorder ∧ x.id = id
  | mk item shown children, h, hid => by
    rw [descend]
    by_cases here : item.id = id
    · exact ⟨_, if_pos here, List.mem_cons_self, here⟩
    · rw [preorder, List.map_cons, List.mem_cons] at hid
      obtain ⟨x, found, hx, same⟩ :=
        AreNumbered.descendAny_eq_some h.2.2 (hid.resolve_left fun same => here same.symm)
      exact ⟨x, (if_neg here).trans found, List.mem_cons_of_mem _ hx, same⟩

private theorem AreNumbered.descendAny_eq_some {i id : NodeId} : ∀
    {ns : List Node}, AreNumbered i ns →
    id ∈ (preorderAll ns).map Node.id →
      ∃ x, descendAny id ns = some x ∧ x ∈ preorderAll ns ∧ x.id = id
  | [], _, hid => absurd hid List.not_mem_nil
  | n :: ns, h, hid => by
    rw [descendAny, preorderAll]
    by_cases owned : n.owns id = true
    · obtain ⟨x, found, hx, same⟩ :=
        IsNumbered.descend_eq_some h.1 ((h.1.owns_iff id).mp owned)
      exact ⟨x, (if_pos owned).trans found, List.mem_append_left _ hx, same⟩
    · rw [preorderAll, List.map_append, List.mem_append, ← h.1.owns_iff] at hid
      obtain ⟨x, found, hx, same⟩ :=
        AreNumbered.descendAny_eq_some h.2 (hid.resolve_left owned)
      exact ⟨x, (if_neg owned).trans found, List.mem_append_right _ hx, same⟩

end

theorem IsNumbered.find?_eq_some_iff {i : NodeId} {n x : Node} (h : n.IsNumbered i) {id : NodeId} :
    n.find? id = some x ↔ x ∈ n.preorder ∧ x.id = id := by
  rw [find?]
  constructor
  · intro found
    split at found
    · next owned =>
      obtain ⟨y, hy, mem, same⟩ := h.descend_eq_some ((h.owns_iff id).mp owned)
      obtain rfl : y = x := Option.some.inj (hy.symm.trans found)
      exact ⟨mem, same⟩
    · exact absurd found (by simp)
  · rintro ⟨mem, rfl⟩
    obtain ⟨y, hy, ymem, same⟩ := h.descend_eq_some (List.mem_map_of_mem mem)
    rw [if_pos (h.owns_of_mem mem), hy, h.eq_of_id_eq ymem mem same]

private theorem IsNumbered.owns_trans {i : NodeId} {n x y : Node} (h : n.IsNumbered i)
    (hx : x ∈ n.preorder) (hy : y ∈ n.preorder) (hyx : y.owns x.id = true) {id : NodeId}
    (hid : x.owns id = true) : y.owns id = true := by
  have inner := h.of_mem hx
  have outer := h.of_mem hy
  obtain ⟨z, hz, same⟩ := List.mem_map.mp ((outer.owns_iff _).mp hyx)
  obtain rfl : z = x := h.eq_of_id_eq (preorder_subset hy hz) hx same
  rw [outer.owns_iff]
  exact List.map_subset Node.id (preorder_subset hz) ((inner.owns_iff id).mp hid)

mutual

/-- The way to a number starts at the root, ends at the number, and meets nodes that own it. -/
theorem IsNumbered.trail_eq_some {i id : NodeId} : ∀ {n : Node}, n.IsNumbered i →
    id ∈ n.preorder.map Node.id → ∃ rest, n.trail id = some (n.id :: rest) ∧
      (n.id :: rest).getLast? = some id ∧
        ∀ c ∈ n.id :: rest, ∃ x ∈ n.preorder, x.id = c ∧ x.owns id = true
  | mk item shown children, h, hid => by
    rw [trail]
    have owned : (mk item shown children).owns id = true := (h.owns_iff id).mpr hid
    have root : ∃ x ∈ (mk item shown children).preorder, x.id = item.id ∧ x.owns id = true :=
      ⟨_, List.mem_cons_self, rfl, owned⟩
    by_cases here : item.id = id
    · refine ⟨[], if_pos here, congrArg some here, fun c hc => ?_⟩
      obtain rfl := List.mem_singleton.mp hc
      exact root
    · rw [preorder, List.map_cons, List.mem_cons] at hid
      obtain ⟨way, found, ends, met⟩ :=
        AreNumbered.trailAny_eq_some h.2.2 (hid.resolve_left fun same => here same.symm)
      refine ⟨way, (if_neg here).trans (by rw [found]; rfl), ?_, fun c hc => ?_⟩
      · rw [List.getLast?_cons, ends]
        rfl
      · rcases List.mem_cons.mp hc with rfl | hc
        · exact root
        · obtain ⟨x, hx, both⟩ := met c hc
          exact ⟨x, List.mem_cons_of_mem _ hx, both⟩

private theorem AreNumbered.trailAny_eq_some {i id : NodeId} : ∀
    {ns : List Node}, AreNumbered i ns →
    id ∈ (preorderAll ns).map Node.id → ∃ way, trailAny id ns = some way ∧
      way.getLast? = some id ∧ ∀ c ∈ way, ∃ x ∈ preorderAll ns, x.id = c ∧ x.owns id = true
  | [], _, hid => absurd hid List.not_mem_nil
  | n :: ns, h, hid => by
    rw [trailAny, preorderAll]
    by_cases owned : n.owns id = true
    · obtain ⟨rest, found, ends, met⟩ :=
        IsNumbered.trail_eq_some h.1 ((h.1.owns_iff id).mp owned)
      refine ⟨_, (if_pos owned).trans found, ends, fun c hc => ?_⟩
      obtain ⟨x, hx, both⟩ := met c hc
      exact ⟨x, List.mem_append_left _ hx, both⟩
    · rw [preorderAll, List.map_append, List.mem_append, ← h.1.owns_iff] at hid
      obtain ⟨way, found, ends, met⟩ :=
        AreNumbered.trailAny_eq_some h.2 (hid.resolve_left owned)
      refine ⟨way, (if_neg owned).trans found, ends, fun c hc => ?_⟩
      obtain ⟨x, hx, both⟩ := met c hc
      exact ⟨x, List.mem_append_right _ hx, both⟩

end

theorem IsNumbered.path?_eq_some {i id : NodeId} {n : Node} (h : n.IsNumbered i)
    (hid : id ∈ n.preorder.map Node.id) : ∃ rest, n.path? id = some (n.id :: rest) ∧
      ∀ c ∈ n.id :: rest, ∃ x ∈ n.preorder, x.id = c ∧ x.owns id = true := by
  obtain ⟨rest, found, _, met⟩ := h.trail_eq_some hid
  exact ⟨rest, by rw [path?, if_pos ((h.owns_iff id).mpr hid), found], met⟩

theorem head?_of_path? {n : Node} {id : NodeId} {path : List NodeId}
    (h : n.path? id = some path) : path.head? = some n.id := by
  rw [path?] at h
  split at h
  · obtain ⟨item, shown, children⟩ := n
    rw [trail] at h
    split at h
    · obtain rfl := Option.some.inj h
      rfl
    · obtain ⟨way, _, rfl⟩ := Option.map_eq_some_iff.mp h
      rfl
  · exact absurd h (by simp)

end Node

namespace Tree

private theorem take_shared_prefix (p q : List NodeId) :
    p.take (shared p q) <+: p ∧ p.take (shared p q) <+: q := by
  refine ⟨List.take_prefix _ _, ?_⟩
  induction p generalizing q with
  | nil => exact List.nil_prefix
  | cons a p ih =>
    cases q with
    | nil => simp [shared]
    | cons b q =>
      by_cases same : a = b
      · subst same
        have deeper : shared (a :: p) (a :: q) = shared p q + 1 := by simp [shared]
        rw [deeper, List.take_succ_cons, List.cons_prefix_cons]
        exact ⟨rfl, ih q⟩
      · simp [shared, same]

private theorem head?_take_shared {p q : List NodeId} {a : NodeId} (hp : p.head? = some a)
    (hq : q.head? = some a) : (p.take (shared p q)).head? = some a := by
  cases p with
  | nil => exact absurd hp (by simp)
  | cons b p =>
    cases q with
    | nil => exact absurd hq (by simp)
    | cons c q =>
      obtain rfl := Option.some.inj hp
      obtain rfl := Option.some.inj hq
      simp [shared]

theorem foldl_shared {a : NodeId} (ps : List (List NodeId)) {p : List NodeId}
    (hp : p.head? = some a) (hps : ∀ q ∈ ps, q.head? = some a) :
    (ps.foldl (fun common q => common.take (shared common q)) p).head? = some a ∧
      ∀ q ∈ p :: ps, ps.foldl (fun common q => common.take (shared common q)) p <+: q := by
  induction ps generalizing p with
  | nil =>
    refine ⟨hp, fun q hq => ?_⟩
    obtain rfl := List.mem_singleton.mp hq
    exact List.prefix_rfl
  | cons q ps ih =>
    obtain ⟨hq, hps⟩ := List.forall_mem_cons.mp hps
    obtain ⟨head, begins⟩ := ih (head?_take_shared hp hq) hps
    obtain ⟨own, other⟩ := take_shared_prefix p q
    have first := begins _ List.mem_cons_self
    refine ⟨head, fun r hr => ?_⟩
    rcases List.mem_cons.mp hr with rfl | hr
    · exact first.trans own
    · rcases List.mem_cons.mp hr with rfl | hr
      · exact first.trans other
      · exact begins r (List.mem_cons_of_mem _ hr)

private theorem commonAncestor_mem_path {t : Tree} {ids : List NodeId} {id : NodeId}
    (hid : id ∈ ids)
    {path : List NodeId} (hpath : t.path? id = some path) : t.commonAncestor ids ∈ path := by
  have member : path ∈ ids.filterMap t.path? := List.mem_filterMap.mpr ⟨id, hid, hpath⟩
  have heads : ∀ q ∈ ids.filterMap t.path?, q.head? = some t.root.id := by
    intro q hq
    obtain ⟨_, _, found⟩ := List.mem_filterMap.mp hq
    exact Node.head?_of_path? found
  unfold commonAncestor
  cases hps : ids.filterMap t.path? with
  | nil => exact absurd (hps ▸ member) List.not_mem_nil
  | cons p ps =>
    rw [hps] at member heads
    obtain ⟨hp, hps⟩ := List.forall_mem_cons.mp heads
    obtain ⟨head, begins⟩ := foldl_shared ps hp hps
    have nonempty : ps.foldl (fun common q => common.take (shared common q)) p ≠ [] := by
      intro empty
      rw [empty] at head
      exact absurd head (by simp)
    dsimp only
    rw [List.getLast?_eq_getLast_of_ne_nil nonempty, Option.getD_some]
    exact (begins path member).subset (List.getLast_mem nonempty)

/-- What lies below one of several nodes lies below the deepest node above all of them. -/
theorem isWithin_commonAncestor {t : Tree} {i : NodeId} (numbered : t.root.IsNumbered i)
    {ids : List NodeId} {x : Node} (hx : x ∈ t.nodes) (hids : x.id ∈ ids) {id : NodeId}
    (owned : x.owns id = true) : t.isWithin (t.commonAncestor ids) id = true := by
  obtain ⟨rest, path, met⟩ := numbered.path?_eq_some (List.mem_map_of_mem hx)
  obtain ⟨y, hy, same, owns⟩ := met _ (commonAncestor_mem_path hids path)
  have found : t.find? (t.commonAncestor ids) = some y :=
    numbered.find?_eq_some_iff.mpr ⟨hy, same⟩
  rw [isWithin, found, Option.any_some]
  exact numbered.owns_trans hx hy owns owned

end Tree

end TidyTree
