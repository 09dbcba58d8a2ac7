import TidyTree.Proofs.Placement.Lowering
import TidyTree.Proofs.Placement.Relabelling
import TidyTree.Proofs.Placement.Tidiness

set_option autoImplicit false
set_option relaxedAutoImplicit false

namespace TidyTree.Rose

variable {ν : Type}

mutual

/-- The nodes of a subtree follow each other in pre-order. -/
theorem preorder_prefix_drop : ∀ {r t : Rose ν} {i : Nat}, r.subtrees[i]? = some t →
    t.preorder <+: r.preorder.drop i
  | mk label children, t, 0, h => by
    obtain rfl : mk label children = t := Option.some.inj h
    exact List.prefix_rfl
  | mk label children, t, i + 1, h => by
    rw [subtrees, List.getElem?_cons_succ] at h
    exact preorder_prefix_drop_all h

private theorem preorder_prefix_drop_all : ∀ {rs : List (Rose ν)} {t : Rose ν} {i : Nat},
    (subtreesAll rs)[i]? = some t → t.preorder <+: (preorderAll rs).drop i
  | [], t, i, h => by
    simp [subtreesAll] at h
  | r :: rs, t, i, h => by
    rw [subtreesAll] at h
    rw [preorderAll]
    by_cases inside : i < r.subtrees.length
    · rw [List.getElem?_append_left inside] at h
      rw [List.drop_append_of_le_length (length_subtrees r ▸ inside.le)]
      exact (preorder_prefix_drop h).trans (List.prefix_append _ _)
    · have outside : r.subtrees.length ≤ i := Nat.le_of_not_lt inside
      rw [List.getElem?_append_right outside] at h
      have rest := preorder_prefix_drop_all h
      rw [length_subtrees] at rest outside
      rw [List.drop_append, List.drop_eq_nil_of_le outside, List.nil_append]
      exact rest

end

end TidyTree.Rose

namespace TidyTree.Placement

variable {ν : Type} {separation : ν → ν → Rat}

private theorem picture_of_content {s t : Slot (Block ν Rat) Rat}
    (sound : t.content.IsSound separation)
    (content : s.content = t.content) (hs : s.IsCentred) (ht : t.IsCentred) :
    s.picture = t.picture.map (shiftBy (s.coordinate - t.coordinate)) := by
  cases hmiddle : t.content.middle with
  | some middle =>
    have first := hs middle (content ▸ hmiddle)
    have second := ht middle hmiddle
    apply Slot.picture_of_moved content
    · ring
    · linarith
  | none =>
    have bare : t.content.pictures = [] := by
      by_contra inner
      have middle := sound.middle _ (List.head?_eq_some_head inner) _
        (List.getLast?_eq_getLast_of_ne_nil inner)
      exact absurd (hmiddle.symm.trans middle) (by simp)
    have children : Draft.placeAll 0 t.content.children = [] := bare
    rw [Slot.picture_eq, Slot.picture_eq, content, children]
    simp [Rose.map, Rose.mapAll, shiftBy]

private theorem picture_eq_tidy {s : Slot (Block ν Rat) Rat} {c : Rose ν}
    (content : s.content = block separation c) (centred : s.IsCentred) :
    s.picture = (tidy separation c).map (shiftBy s.coordinate) := by
  let root : Slot (Block ν Rat) Rat := Forest.empty.enter separation (block separation c)
  have same : root.content = block separation c := Forest.content_enter _ _
  have sound : root.content.IsSound separation := same ▸ isSound_block separation c
  have alike : s.picture = root.picture.map (shiftBy (s.coordinate - root.coordinate)) :=
    picture_of_content sound (content.trans same.symm) centred (Forest.isCentred_enter _ _)
  rw [alike, tidy_eq, Rose.map_map]
  simp only [shiftBy_shiftBy, neg_add_eq_sub]
  rfl

private theorem exists_shift_of_mem_children {v : ν} {cs : List (Rose ν)} {u : Rose (ν × Rat)}
    (hu : u ∈ (tidy separation (.mk v cs)).children) :
    ∃ c ∈ cs, ∃ way, u = (tidy separation c).map (shiftBy way) := by
  have sound := isSound_forest separation .empty Forest.isSound_empty cs
  rw [tidy_eq, Rose.children_map, Slot.picture_eq, Rose.children_mk, List.map_map, List.mem_map,
    Forest.content_enter] at hu
  obtain ⟨picture, hpicture, rfl⟩ := hu
  have settled : picture ∈ (settle (forest separation .empty cs).row).map Slot.picture := by
    rw [← Block.pictures_under]
    exact hpicture
  obtain ⟨s, hs, rfl⟩ := List.mem_map.mp settled
  obtain ⟨t, ht, way, rfl⟩ := mem_settle hs
  have content : t.content ∈ cs.map (block separation) := by
    have contents := contents_forest separation .empty cs
    rw [show (Forest.empty : Forest ν Rat).row.map (·.content) = [] from rfl, List.nil_append]
      at contents
    rw [← contents]
    exact List.mem_map_of_mem ht
  obtain ⟨c, hc, same⟩ := List.mem_map.mp content
  obtain ⟨-, centred⟩ := sound.blocks t.site (List.mem_map_of_mem ht)
  refine ⟨c, hc, ?_⟩
  rw [Slot.picture_settled, picture_eq_tidy same.symm centred]
  simp only [Function.comp_apply, Rose.map_map, shiftBy_shiftBy]
  exact ⟨_, rfl⟩

mutual

private theorem exists_shift_tree : ∀ r : Rose ν, ∀ u ∈ (tidy separation r).subtrees,
    ∃ t way, u = (tidy separation t).map (shiftBy way)
  | .mk v cs => by
    intro u hu
    have whole : (tidy separation (.mk v cs)).subtrees = tidy separation (.mk v cs) ::
        Rose.subtreesAll (tidy separation (.mk v cs)).children := by
      cases tidy separation (.mk v cs)
      rfl
    rw [whole, List.mem_cons, Rose.subtreesAll_eq_flatMap, List.mem_flatMap] at hu
    rcases hu with rfl | ⟨child, hchild, hu⟩
    · refine ⟨.mk v cs, 0, ?_⟩
      rw [show shiftBy 0 = fun p : ν × Rat => p from funext shiftBy_zero, Rose.map_id]
    · obtain ⟨c, hc, way, rfl⟩ := exists_shift_of_mem_children hchild
      rw [Rose.subtrees_map, List.mem_map] at hu
      obtain ⟨below, hbelow, rfl⟩ := hu
      obtain ⟨t, more, rfl⟩ := exists_shift_list cs c hc below hbelow
      refine ⟨t, more + way, ?_⟩
      simp only [Rose.map_map, shiftBy_shiftBy]

private theorem exists_shift_list : ∀ cs : List (Rose ν), ∀ c ∈ cs, ∀ u ∈
    (tidy separation c).subtrees,
    ∃ t way, u = (tidy separation t).map (shiftBy way)
  | [] => fun _ hc => absurd hc List.not_mem_nil
  | c :: cs => List.forall_mem_cons.mpr ⟨exists_shift_tree c, exists_shift_list cs⟩

end

private theorem eq_shift_of_mem_subtrees {r : Rose ν} {u : Rose (ν × Rat)}
    (hu : u ∈ (tidy separation r).subtrees) :
    u = (tidy separation (u.map Prod.fst)).map (shiftBy u.label.2) := by
  obtain ⟨t, way, rfl⟩ := exists_shift_tree r u hu
  have shown : ((tidy separation t).map (shiftBy way)).map Prod.fst = t := by
    rw [Rose.map_map]
    exact map_fst_tidy separation t
  rw [shown, Rose.label_map, shiftBy_snd, label_tidy, zero_add]

private theorem exists_shift_positions (separation own : Nat → Nat → Rat) {r t : Rose ν} {v : Nat}
    (site : r.subtrees[v]? = some t)
    (agree : ∀ a < t.preorder.length, ∀ b < t.preorder.length,
      separation (v + a) (v + b) = own a b) :
    ∃ xs ys x, positions separation r.childLists = some xs ∧
      positions own t.childLists = some ys ∧ xs[v]? = some x ∧ ys.length = t.preorder.length ∧
      (xs.drop v).take t.preorder.length = ys.map (· + x) := by
  let whole : Rose (Nat × Rat) := tidy separation (r.numberFrom 0)
  let alone : Rose (Nat × Rat) := tidy own (t.numberFrom 0)
  have length : alone.preorder.length = t.preorder.length := by
    have shown := congrArg (fun s : Rose Nat => s.preorder.length)
      (map_fst_tidy own (t.numberFrom 0))
    simpa [Rose.preorder_map, Rose.preorder_numberFrom] using shown
  obtain ⟨u, hu, shown⟩ : ∃ u, whole.subtrees[v]? = some u ∧ u.map Prod.fst = t.numberFrom v := by
    have numbered := Rose.getElem?_subtrees_numberFrom 0 r v
    rw [site, Option.map_some, zero_add, ← map_fst_tidy separation (r.numberFrom 0),
      Rose.subtrees_map, List.getElem?_map, Option.map_eq_some_iff] at numbered
    exact numbered
  -- Alone the nodes of the subtree count from zero, and in the tree from `v`.
  have drawn : u = (alone.map (Prod.map (v + ·) id)).map (shiftBy u.label.2) := by
    have inner : tidy separation (t.numberFrom v) = alone.map (Prod.map (v + ·) id) := by
      rw [← Nat.add_zero v, ← Rose.map_add_numberFrom, tidy_map, Nat.add_zero]
      congr 1
      apply tidy_congr
      intro a ha b hb
      rw [Rose.preorder_numberFrom, List.mem_range'_1] at ha hb
      exact agree a (by omega) b (by omega)
    rw [← inner, ← shown]
    exact eq_shift_of_mem_subtrees (List.mem_of_getElem? hu)
  have coordinates :
      u.preorder.map Prod.snd = (alone.preorder.map Prod.snd).map (· + u.label.2) := by
    have shape := congrArg Rose.preorder drawn
    rw [Rose.preorder_map, Rose.preorder_map] at shape
    rw [shape, List.map_map, List.map_map, List.map_map]
    rfl
  have root : whole.preorder[v]? = some u.label := by
    rw [← Rose.map_label_subtrees, List.getElem?_map, hu, Option.map_some]
  refine ⟨_, _, u.label.2, positions_eq separation r, positions_eq own t, ?_, ?_, ?_⟩
  · rw [List.getElem?_map]
    exact congrArg (Option.map Prod.snd) root
  · rw [List.length_map]
    exact length
  · have size : u.preorder.length = t.preorder.length := by
      have same := congrArg List.length coordinates
      rw [List.length_map, List.length_map, List.length_map] at same
      exact same.trans length
    have part := List.prefix_iff_eq_take.mp (Rose.preorder_prefix_drop hu)
    rw [← coordinates, ← List.map_drop, ← List.map_take, ← size, ← part]

/-- Subtrees are drawn rigidly. Relative to the root of a subtree, its nodes have the coordinates
that they have when the subtree is placed alone; so they have them in every tree in which the
subtree stands with the same separations. -/
theorem positions_subtree_rigid (separation : Nat → Nat → Rat) (r : Rose ν) {v : Nat} {t : Rose ν}
    (site : r.subtrees[v]? = some t) :
    ∃ xs ys x, positions separation r.childLists = some xs ∧
      positions (fun a b => separation (v + a) (v + b)) t.childLists = some ys ∧
      xs[v]? = some x ∧ ys.length = t.preorder.length ∧
      ((xs.drop v).take t.preorder.length).map (· - x) = ys ∧
      ∀ (separation' : Nat → Nat → Rat) (r' : Rose ν) (v' : Nat), r'.subtrees[v']? = some t →
        (∀ a < t.preorder.length, ∀ b < t.preorder.length,
          separation' (v' + a) (v' + b) = separation (v + a) (v + b)) →
        ∃ xs' x', positions separation' r'.childLists = some xs' ∧ xs'[v']? = some x' ∧
          ((xs'.drop v').take t.preorder.length).map (· - x') =
            ((xs.drop v).take t.preorder.length).map (· - x) := by
  have unshifted : ∀ (ys : List Rat) (x : Rat), (ys.map (· + x)).map (· - x) = ys := by
    intro ys x
    simp [Function.comp_def]
  obtain ⟨xs, ys, x, whole, alone, root, length, shifted⟩ :=
    exists_shift_positions separation (fun a b => separation (v + a) (v + b)) site
      fun _ _ _ _ => rfl
  refine ⟨xs, ys, x, whole, alone, root, length, ?_, ?_⟩
  · rw [shifted, unshifted]
  · intro separation' r' v' site' agree
    obtain ⟨xs', ys', x', whole', alone', root', -, shifted'⟩ :=
      exists_shift_positions separation' _ site' agree
    obtain rfl : ys = ys' := Option.some.inj (alone.symm.trans alone')
    exact ⟨xs', x', whole', root', by rw [shifted', unshifted, shifted, unshifted]⟩

/-- A root above a leaf and a node with two children. -/
def lopsided : Rose Unit := .mk () [.mk () [], .mk () [.mk () [], .mk () []]]

/-- The same tree when a child has appeared below the leaf. -/
def unfolded : Rose Unit := .mk () [.mk () [.mk () []], .mk () [.mk () [], .mk () []]]

/-- The node with two children keeps its shape when its sibling gets a child. -/
theorem positions_subtree_rigid_unfolded :
    lopsided.subtrees[2]? = some (.mk () [.mk () [], .mk () []]) ∧
    unfolded.subtrees[3]? = some (.mk () [.mk () [], .mk () []]) ∧
    ∃ xs ys x xs' x', positions (fun _ _ => (1 : Rat)) lopsided.childLists = some xs ∧
      positions (fun _ _ => (1 : Rat)) (Rose.mk () [.mk () [], .mk () []]).childLists = some ys ∧
      xs[2]? = some x ∧ ((xs.drop 2).take 3).map (· - x) = ys ∧
      positions (fun _ _ => (1 : Rat)) unfolded.childLists = some xs' ∧ xs'[3]? = some x' ∧
      ((xs'.drop 3).take 3).map (· - x') = ((xs.drop 2).take 3).map (· - x) := by
  obtain ⟨xs, ys, x, whole, alone, root, -, same, elsewhere⟩ :=
    positions_subtree_rigid (fun _ _ => 1) lopsided (v := 2)
      (t := .mk () [.mk () [], .mk () []]) rfl
  obtain ⟨xs', x', whole', root', same'⟩ := elsewhere (fun _ _ => 1) unfolded 3 rfl
    fun _ _ _ _ => rfl
  exact ⟨rfl, rfl, xs, ys, x, xs', x', whole, alone, root, same, whole', root', same'⟩

end TidyTree.Placement
