import TidyTree.Proofs.Placement.Soundness

set_option autoImplicit false
set_option relaxedAutoImplicit false

namespace TidyTree.Placement

variable {ν α : Type}

/-- The contours of the block are the edges of the trees below its root. -/
structure Block.HasEdges (b : Block ν α) (rs : List (Rose ν)) : Prop where
  left : ∀ depth, (b.left.map (·.label))[depth]? = (Rose.levelAll rs depth).head?
  right : ∀ depth, (b.right.map (·.label))[depth]? = (Rose.levelAll rs depth).getLast?

structure Forest.HasEdges (f : Forest ν α) (rs : List (Rose ν)) : Prop where
  left : ∀ depth, (f.left.map (·.label))[depth]? = (Rose.levelAll rs depth).head?
  right : ∀ depth, (f.right.map (·.2.label))[depth]? = (Rose.levelAll rs depth).getLast?
  /-- A node of the right contour belongs to the subtree at its place. -/
  owner : ∀ m ∈ f.right, ∃ t, rs[m.1]? = some t ∧ m.2.label ∈ t.preorder

theorem Block.HasEdges.length_left {b : Block ν α} {rs : List (Rose ν)} (h : b.HasEdges rs) :
    b.left.length = b.right.length := by
  have same : (b.left.map (·.label)).length = (b.right.map (·.label)).length := by
    apply length_eq_of_isSome
    intro depth
    rw [h.left, h.right, isSome_head?_eq]
  simpa using same

theorem Forest.HasEdges.length_left {f : Forest ν α} {rs : List (Rose ν)} (h : f.HasEdges rs) :
    f.left.length = f.right.length := by
  have same : (f.left.map (·.label)).length = (f.right.map (·.2.label)).length := by
    apply length_eq_of_isSome
    intro depth
    rw [h.left, h.right, isSome_head?_eq]
  simpa using same

private theorem Forest.HasEdges.exists_tops {f : Forest ν α} {r : Rose ν} {rs : List (Rose ν)}
    (h : f.HasEdges (r :: rs)) : ∃ lk lks rk rks, f.left = lk :: lks ∧ f.right = rk :: rks := by
  have first := h.left 0
  rw [Rose.levelAll, Rose.level_zero] at first
  have leftNe : f.left ≠ [] := by
    rintro empty
    simp [empty] at first
  have rightNe : f.right ≠ [] := by
    rw [← List.length_pos_iff, ← h.length_left]
    exact List.length_pos_iff.mpr leftNe
  obtain ⟨lk, lks, hleft⟩ := List.exists_cons_of_ne_nil leftNe
  obtain ⟨rk, rks, hright⟩ := List.exists_cons_of_ne_nil rightNe
  exact ⟨lk, lks, rk, rks, hleft, hright⟩

private theorem edge_cons {cs : List (Rose ν)} {below : List ν} (edge : List ν → Option ν) (v : ν)
    (single : edge [v] = some v) (h : ∀ depth : Nat, below[depth]? = edge (Rose.levelAll cs depth))
    (depth : Nat) : (v :: below)[depth]? = edge ((Rose.mk v cs).level depth) := by
  cases depth with
  | zero => exact single.symm
  | succ depth => exact h depth

private theorem subset_of_block {b : Block ν α} {cs : List (Rose ν)} (h : b.HasEdges cs) :
    b.label :: b.right.map (·.label) ⊆ (Rose.mk b.label cs).preorder := by
  intro v hv
  obtain ⟨depth, hdepth⟩ := List.getElem?_of_mem hv
  rw [edge_cons List.getLast? b.label rfl h.right] at hdepth
  exact Rose.level_subset_preorder _ depth (List.mem_of_getLast? hdepth)

theorem Block.HasEdges.goesDown_left {b : Block ν α} {rs : List (Rose ν)} (h : b.HasEdges rs) :
    Rose.GoesDown rs (b.left.map (·.label)) :=
  fun depth _ hv => List.mem_of_head? ((h.left depth).symm.trans hv)

theorem Block.HasEdges.goesDown_right {b : Block ν α} {rs : List (Rose ν)} (h : b.HasEdges rs) :
    Rose.GoesDown rs (b.right.map (·.label)) :=
  fun depth _ hv => List.mem_of_getLast? ((h.right depth).symm.trans hv)

theorem Forest.HasEdges.goesDown_left {f : Forest ν α} {rs : List (Rose ν)} (h : f.HasEdges rs) :
    Rose.GoesDown rs (f.left.map (·.label)) :=
  fun depth _ hv => List.mem_of_head? ((h.left depth).symm.trans hv)

theorem Forest.HasEdges.goesDown_right {f : Forest ν α} {rs : List (Rose ν)} (h : f.HasEdges rs) :
    Rose.GoesDown rs (f.right.map (·.2.label)) :=
  fun depth _ hv => List.mem_of_getLast? ((h.right depth).symm.trans hv)

theorem Forest.hasEdges_empty : (Forest.empty : Forest ν α).HasEdges [] :=
  ⟨fun _ => rfl, fun _ => rfl, fun _ hm => absurd hm List.not_mem_nil⟩

variable [Scalar α]

@[simp] theorem map_label_correctLast (correction : α) (ks : List (Knot ν α)) :
    (correctLast correction ks).map (·.label) = ks.map (·.label) := by
  induction ks with
  | nil => rfl
  | cons k ks ih =>
    cases ks with
    | nil => rfl
    | cons l ks => exact congrArg (k.label :: ·) ih

@[simp] theorem map_label_shiftHead (way : Option α) (ks : List (Knot ν α)) :
    (shiftHead way ks).map (·.label) = ks.map (·.label) := by
  unfold shiftHead
  split <;> rfl

private theorem rests_walk (separation : ν → ν → α) (s : Sums α) (lis : List (Nat × Knot ν α))
    (los ris ros : List (Knot ν α)) (hleft : lis.length = los.length)
    (hright : ris.length = ros.length) :
    (walk separation s lis los ris ros).leftRest = lis.drop ris.length ∧
      (walk separation s lis los ris ros).rightRest = ris.drop lis.length := by
  induction lis generalizing s los ris ros with
  | nil => simp [walk]
  | cons li lis ih =>
    cases ris with
    | nil => simp [walk]
    | cons ri ris =>
      obtain ⟨lo, los, rfl⟩ := List.exists_cons_of_length_eq_add_one hleft.symm
      obtain ⟨ro, ros, rfl⟩ := List.exists_cons_of_length_eq_add_one hright.symm
      have rest := fun s => ih s los ris ros (by simpa using hleft) (by simpa using hright)
      simp only [walk]
      split
      · exact rest _
      · exact rest _

private theorem Forest.rests_meet {f : Forest ν α} {s : Slot (Block ν α) α} {rs cs : List (Rose ν)}
    (separation : ν → ν → α) (hf : f.HasEdges rs) (hs : s.content.HasEdges cs) :
    (f.meet separation s).leftRest = f.right.tail.drop s.content.left.length ∧
      (f.meet separation s).rightRest = s.content.left.drop f.right.tail.length := by
  have tails : f.right.tail.length = f.left.tail.length := by
    rw [List.length_tail, List.length_tail, hf.length_left]
  exact rests_walk separation _ _ _ _ _ tails hs.length_left

theorem Forest.getLast?_moved (separation : ν → ν → α) (f : Forest ν α) (b : Block ν α)
    (moves : List (Nat × α)) :
    ∃ s, (moves.foldl (fun row m => move row m.1 f.row.length m.2)
      (f.row ++ [f.enter separation b])).getLast? = some s ∧ s.content = b := by
  have contents := map_content_foldl_move (f.row ++ [f.enter separation b]) moves f.row.length
  have last := congrArg List.getLast? contents
  rw [List.map_append, List.map_singleton, List.getLast?_concat, f.content_enter,
    List.getLast?_map, Option.map_eq_some_iff] at last
  exact last

private theorem labels_append (separation : ν → ν → α) {f : Forest ν α} {b : Block ν α}
    {r : Rose ν} {rs cs : List (Rose ν)} (hf : f.HasEdges (r :: rs)) (hb : b.HasEdges cs)
    (hne : f.row ≠ []) :
    (f.append separation b).left.map (·.label) =
        f.left.map (·.label) ++ (b.label :: b.left.map (·.label)).drop f.left.length ∧
      (f.append separation b).right.map (fun m => (m.1, m.2.label)) =
        (b.label :: b.right.map (·.label)).map (f.row.length, ·) ++
          (f.right.map fun m => (m.1, m.2.label)).drop (b.right.length + 1) := by
  have hs : (f.enter separation b).content.HasEdges cs := by rwa [f.content_enter]
  obtain ⟨leftRest, rightRest⟩ := f.rests_meet separation hf hs
  obtain ⟨lk, lks, rk, rks, hleft, hright⟩ := hf.exists_tops
  obtain ⟨last, hlast, content⟩ :=
    f.getLast?_moved separation b (f.meet separation (f.enter separation b)).moves
  have notEmpty : f.row.isEmpty = false := by simpa using hne
  have heights := hf.length_left
  have heightsBelow := hb.length_left
  rw [f.content_enter, hright] at leftRest
  rw [f.content_enter, hright] at rightRest
  rw [hleft, hright] at heights
  simp only [Forest.append, notEmpty, Bool.false_eq_true, if_false, hlast, Option.getD_some]
  constructor
  · have below : (f.meet separation (f.enter separation b)).rightRest.map (·.label) =
        (b.label :: b.left.map (·.label)).drop f.left.length := by
      rw [rightRest, hleft, heights, List.length_cons, List.drop_succ_cons, List.map_drop]
      rfl
    rw [← below]
    split
    · next ended => rw [List.isEmpty_iff.mp ended, List.map_nil, List.append_nil]
    · rw [List.map_append, map_label_correctLast]
  · have below : (f.meet separation (f.enter separation b)).leftRest.map
        (fun m => (m.1, m.2.label)) =
          (f.right.map fun m => (m.1, m.2.label)).drop (b.right.length + 1) := by
      rw [leftRest, hright, heightsBelow, List.map_cons, List.drop_succ_cons, List.map_drop]
      rfl
    have top : (last.knot :: b.right).map (·.label) = b.label :: b.right.map (·.label) := by
      rw [List.map_cons, Slot.knot, content]
    have placed : ∀ ks : List (Knot ν α), (ks.map (f.row.length, ·)).map
        (fun m : Nat × Knot ν α => (m.1, m.2.label)) = (ks.map (·.label)).map (f.row.length, ·) := by
      intro ks
      rw [List.map_map, List.map_map]
      rfl
    rw [← below, ← top]
    split
    · next ended => rw [List.isEmpty_iff.mp ended, List.map_nil, List.append_nil, placed]
    · rw [List.map_append, placed, map_label_correctLast]

private theorem Forest.HasEdges.append {f : Forest ν α} {b : Block ν α} {rs cs : List (Rose ν)}
    (hf : f.HasEdges rs) (separation : ν → ν → α) (shown : f.outlines = rs) (hb : b.HasEdges cs) :
    (f.append separation b).HasEdges (rs ++ [.mk b.label cs]) := by
  have row : f.row.length = rs.length := by rw [← shown]; simp [Forest.outlines]
  have leftEdge := edge_cons List.head? b.label rfl hb.left
  have rightEdge := edge_cons List.getLast? b.label rfl hb.right
  have levels : ∀ depth, Rose.levelAll (rs ++ [.mk b.label cs]) depth =
      Rose.levelAll rs depth ++ (Rose.mk b.label cs).level depth := by
    intro depth
    simp [Rose.levelAll_eq_flatMap]
  cases rs with
  | nil =>
    have empty : f.row.isEmpty = true := by simpa using row
    have place : f.row.length = 0 := row
    have label : (f.enter separation b).knot.label = b.label := by
      rw [Slot.knot, f.content_enter]
    simp only [Forest.append, empty, if_true]
    constructor
    case left =>
      intro depth
      rw [levels, List.map_cons, label]
      exact leftEdge depth
    case right =>
      intro depth
      rw [levels, List.map_map, Function.comp_def]
      dsimp only
      rw [List.map_cons, label]
      exact rightEdge depth
    case owner =>
      intro m hm
      obtain ⟨k, hk, rfl⟩ := List.mem_map.mp hm
      refine ⟨.mk b.label cs, by rw [place]; rfl, subset_of_block hb ?_⟩
      rw [← label]
      exact List.mem_map_of_mem (f := (·.label)) hk
  | cons r rs =>
    have hne : f.row ≠ [] := by
      rintro none
      simp [none] at row
    obtain ⟨left, right⟩ := labels_append separation hf hb hne
    have rightLabels := congrArg (List.map Prod.snd) right
    simp only [List.map_map, Function.comp_def, List.map_append, List.map_drop, List.map_id']
      at rightLabels
    constructor
    case left =>
      intro depth
      have joined := head?_over hf.left leftEdge depth
      rw [levels, left, ← joined, List.length_map]
    case right =>
      intro depth
      have joined := getLast?_over hf.right rightEdge depth
      rw [levels, rightLabels, ← joined, List.length_cons, List.length_map]
    case owner =>
      intro m hm
      have listed : (m.1, m.2.label) ∈ (f.append separation b).right.map fun m => (m.1, m.2.label) :=
        List.mem_map_of_mem hm
      rw [right, List.mem_append] at listed
      rcases listed with new | old
      · obtain ⟨v, hv, same⟩ := List.mem_map.mp new
        obtain ⟨place, label⟩ := Prod.mk.inj same
        refine ⟨.mk b.label cs, ?_, label ▸ subset_of_block hb hv⟩
        rw [← place, row, List.getElem?_concat_length]
      · obtain ⟨n, hn, same⟩ := List.mem_map.mp (List.mem_of_mem_drop old)
        obtain ⟨place, label⟩ := Prod.mk.inj same
        obtain ⟨t, ht, inside⟩ := hf.owner n hn
        refine ⟨t, ?_, label ▸ inside⟩
        rw [← place, List.getElem?_append_left (List.getElem?_eq_some_iff.mp ht).1, ht]

private theorem Forest.HasEdges.under {f : Forest ν α} {rs : List (Rose ν)} (h : f.HasEdges rs)
    (label : ν) : (f.under label).HasEdges rs := by
  constructor
  · intro depth
    rw [Forest.under, map_label_shiftHead, h.left]
  · intro depth
    rw [Forest.under, map_label_shiftHead, List.map_map]
    exact h.right depth

mutual

theorem hasEdges_block (separation : ν → ν → α) :
    ∀ r : Rose ν, (block separation r).HasEdges r.children
  | .mk label children =>
    (hasEdges_forest separation .empty [] Forest.hasEdges_empty rfl children).under label

theorem hasEdges_forest (separation : ν → ν → α) (f : Forest ν α) (rs : List (Rose ν))
    (hf : f.HasEdges rs) (shown : f.outlines = rs) :
    ∀ cs : List (Rose ν), (forest separation f cs).HasEdges (rs ++ cs)
  | [] => by
    rw [List.append_nil]
    exact hf
  | .mk label children :: cs => by
    have first := hf.append separation shown
      (hasEdges_block separation (.mk label children))
    have rest := hasEdges_forest separation _ _ first
      (by rw [Forest.outlines_append, shown, outline_block]; rfl) cs
    rw [List.append_assoc] at rest
    exact rest

end

end TidyTree.Placement
