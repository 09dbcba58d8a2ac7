import TidyTree.Proofs.Placement.Numbering
import TidyTree.Proofs.Placement.Tracing

set_option autoImplicit false
set_option relaxedAutoImplicit false

/-!
# Rows in memory

When the children of a node have been placed, their cells stand for the forest of their subtrees:
the slots and drawings, both contours, and for the nodes of the right contour the child that each
belongs to. Settling the children turns this into what is known of a block.
-/

namespace TidyTree.Placement

open Rose (preorderAll)

variable {α : Type}

/-- A node of the right contour is found to belong to the child `owner` of `p`. -/
def Cells.BelongsTo (k : Kinship) (cells : Cells α) (p fallback owner node : Nat) : Prop :=
  (if k.parent (cells node).ancestor = p then (cells node).ancestor else fallback) = owner

/-- The cells of the subtrees `cs` stand for what is below the root of a block. -/
structure Cells.Carries (k : Kinship) (cells : Cells α) (cs : List (Rose Nat)) (b : Block Nat α) :
    Prop where
  draws : cells.DrawsAll k b.children
  left : cells.Traces (cells.nextLeft k) (cs.head?.map Rose.label) b.left
  right : cells.Traces (cells.nextRight k) (cs.getLast?.map Rose.label) b.right

theorem Cells.Carries.congr {k : Kinship} {cells cells' : Cells α} {cs : List (Rose Nat)}
    {b : Block Nat α} (h : cells.Carries k cs b) (edges : b.HasEdges cs)
    (shown : Draft.outlineAll b.children = cs) (same : ∀ u ∈ preorderAll cs, cells' u = cells u) :
    cells'.Carries k cs b := by
  have traced : ∀ u ∈ preorderAll cs, cells'.nextLeft k u = cells.nextLeft k u ∧
      cells'.nextRight k u = cells.nextRight k u ∧ cells'.knot u = cells.knot u := by
    intro u hu
    simp only [Cells.nextLeft, Cells.nextRight, Cells.knot, same u hu, and_self]
  constructor
  case draws => exact h.draws.congr fun u hu => .of_eq (same u (shown ▸ hu))
  case left =>
    refine h.left.congr fun u hu => ?_
    obtain ⟨next, -, knot⟩ := traced u (edges.goesDown_left.subset hu)
    exact ⟨next, knot⟩
  case right =>
    refine h.right.congr fun u hu => ?_
    obtain ⟨-, next, knot⟩ := traced u (edges.goesDown_right.subset hu)
    exact ⟨next, knot⟩

variable [Scalar α]

/-- The cells of the subtrees `rs`, which are the first ones below `p`, stand for their forest. -/
structure Cells.Reflects (k : Kinship) (separation : Nat → Nat → α) (cells : Cells α) (p : Nat)
    (rs : List (Rose Nat)) : Prop where
  stands : ∀ s ∈ (forest separation .empty rs).row, cells.Stands k s
  draws : ∀ s ∈ (forest separation .empty rs).row, cells.DrawsAll k s.content.children
  left : cells.Traces (cells.nextLeft k) (rs.head?.map Rose.label)
    (forest separation .empty rs).left
  right : cells.Traces (cells.nextRight k) (rs.getLast?.map Rose.label)
    ((forest separation .empty rs).right.map (·.2))
  fresh : rs = [] → (cells p).fallback = none
  owner : rs ≠ [] → ∃ fallback, (cells p).fallback = some fallback ∧
    ∀ m ∈ (forest separation .empty rs).right, ∀ t, rs[m.1]? = some t →
      cells.BelongsTo k p fallback t.label m.2.label
  inside : ∀ t ∈ rs, ∀ u ∈ t.preorder, (cells u).ancestor ∈ t.preorder

private theorem outlines_row (separation : Nat → Nat → α) (rs : List (Rose Nat)) :
    (forest separation .empty rs).row.map (·.content.outline) = rs := by
  have outlines := outlines_forest separation (.empty : Forest Nat α) rs
  rw [Forest.outlines, List.map_map] at outlines
  exact outlines

theorem labels_row (separation : Nat → Nat → α) (rs : List (Rose Nat)) :
    (forest separation .empty rs).row.map (·.content.label) = rs.map Rose.label := by
  have labels := congrArg (List.map Rose.label) (outlines_row separation rs)
  rwa [List.map_map] at labels

theorem shown_under (separation : Nat → Nat → α) (v : Nat) (cs : List (Rose Nat)) :
    Draft.outlineAll ((forest separation .empty cs).under v).children = cs := by
  have shown := outline_block separation (Rose.mk v cs)
  rw [block, Block.outline, Rose.mk.injEq] at shown
  rw [Draft.outlineAll_eq_map]
  exact shown.2

theorem edges_forest (separation : Nat → Nat → α) (rs : List (Rose Nat)) :
    (forest separation .empty rs).HasEdges rs :=
  hasEdges_forest separation .empty [] Forest.hasEdges_empty rfl rs

private theorem outline_mem_of_row {separation : Nat → Nat → α} {rs : List (Rose Nat)}
    {s : Slot (Block Nat α) α} (hs : s ∈ (forest separation .empty rs).row) :
    s.content.outline ∈ rs := by
  rw [← outlines_row separation rs]
  exact List.mem_map_of_mem hs

private theorem label_mem_of_row {separation : Nat → Nat → α} {rs : List (Rose Nat)}
    {s : Slot (Block Nat α) α} (hs : s ∈ (forest separation .empty rs).row) :
    s.content.label ∈ preorderAll rs :=
  Rose.preorder_subset_preorderAll (outline_mem_of_row hs) (Rose.label_mem_preorder _)

theorem below_mem_of_row {separation : Nat → Nat → α} {rs : List (Rose Nat)}
    {s : Slot (Block Nat α) α} (hs : s ∈ (forest separation .empty rs).row) {u : Nat}
    (hu : u ∈ preorderAll (Draft.outlineAll s.content.children)) : u ∈ preorderAll rs := by
  apply Rose.preorder_subset_preorderAll (outline_mem_of_row hs)
  rw [Draft.outlineAll_eq_map] at hu
  exact List.mem_cons_of_mem _ hu

theorem left_subset (separation : Nat → Nat → α) (rs : List (Rose Nat)) :
    (forest separation .empty rs).left.map (·.label) ⊆ preorderAll rs :=
  (edges_forest separation rs).goesDown_left.subset

theorem right_subset (separation : Nat → Nat → α) (rs : List (Rose Nat)) :
    ((forest separation .empty rs).right.map (·.2)).map (·.label) ⊆ preorderAll rs := by
  rw [List.map_map]
  exact (edges_forest separation rs).goesDown_right.subset

theorem Cells.Reflects.congr {k : Kinship} {separation : Nat → Nat → α} {cells cells' : Cells α}
    {p : Nat} {rs : List (Rose Nat)} (h : cells.Reflects k separation p rs)
    (same : ∀ u ∈ preorderAll rs, cells' u = cells u)
    (fallback : (cells' p).fallback = (cells p).fallback) : cells'.Reflects k separation p rs := by
  have traced : ∀ u ∈ preorderAll rs, cells'.nextLeft k u = cells.nextLeft k u ∧
      cells'.nextRight k u = cells.nextRight k u ∧ cells'.knot u = cells.knot u := by
    intro u hu
    simp only [Cells.nextLeft, Cells.nextRight, Cells.knot, same u hu, and_self]
  constructor
  case stands =>
    intro s hs
    obtain ⟨coordinate, offset, change, shift⟩ := h.stands s hs
    constructor <;> rw [same _ (label_mem_of_row hs)]
    exacts [coordinate, offset, change, shift]
  case draws =>
    intro s hs
    exact (h.draws s hs).congr fun u hu => .of_eq (same u (below_mem_of_row hs hu))
  case left =>
    refine h.left.congr fun u hu => ?_
    obtain ⟨next, -, knot⟩ := traced u (left_subset separation rs hu)
    exact ⟨next, knot⟩
  case right =>
    refine h.right.congr fun u hu => ?_
    obtain ⟨-, next, knot⟩ := traced u (right_subset separation rs hu)
    exact ⟨next, knot⟩
  case fresh => exact fun first => fallback.trans (h.fresh first)
  case owner =>
    intro hne
    obtain ⟨x, hx, belongs⟩ := h.owner hne
    refine ⟨x, fallback.trans hx, fun m hm t ht => ?_⟩
    have inside : m.2.label ∈ preorderAll rs := by
      apply right_subset separation rs
      rw [List.map_map]
      exact List.mem_map_of_mem hm
    rw [Cells.BelongsTo, same _ inside]
    exact belongs m hm t ht
  case inside =>
    intro t ht u hu
    rw [same u (Rose.preorder_subset_preorderAll ht hu)]
    exact h.inside t ht u hu

section Settling

variable {k : Kinship} {separation : Nat → Nat → α} {cells : Cells α} {v : Nat}
  {cs : List (Rose Nat)}

private theorem Cells.traces_shiftHead {next next' : Nat → Option Nat} {cells settled : Cells α}
    {start : Option Nat} {ns : List (Knot Nat α)} {way : Option α}
    (h : cells.Traces next start ns) (sameNext : next' = next)
    (head : ∀ n ∈ ns.head?, ∃ w, way = some w ∧ settled.knot n.label =
      ⟨n.label, n.coordinate + w, n.offset + w⟩)
    (tail : ∀ n ∈ ns.tail, settled.knot n.label = cells.knot n.label) :
    settled.Traces next' start (shiftHead way ns) := by
  subst sameNext
  cases ns with
  | nil => cases way <;> exact h
  | cons n ns =>
    obtain ⟨first, -, rest⟩ := h
    obtain ⟨w, rfl, shifted⟩ := head n rfl
    refine ⟨first, shifted, rest.congr ?_⟩
    intro u hu
    obtain ⟨m, hm, rfl⟩ := List.mem_map.mp hu
    exact ⟨rfl, tail m hm⟩

/-- The cells of `settled` are those of `cells` with the children moved along their ways. -/
private structure Cells.IsSettled (cells settled : Cells α) (row : List (Slot (Block Nat α) α)) :
    Prop where
  moved : ∀ (i : Nat) (s : Slot (Block Nat α) α) (way : α), row[i]? = some s →
    (ways row)[i]? = some way → settled s.content.label =
      { cells s.content.label with
        coordinate := (cells s.content.label).coordinate + way
        offset := (cells s.content.label).offset + way }
  others : ∀ u, u ∉ row.map (·.content.label) → settled u = cells u

private theorem Cells.IsSettled.knot_eq {settled : Cells α} {row : List (Slot (Block Nat α) α)}
    (h : cells.IsSettled settled row) {i : Nat} {s : Slot (Block Nat α) α} (hs : row[i]? = some s)
    {n : Knot Nat α} (label : n.label = s.content.label) (traced : cells.knot n.label = n) :
    ∃ way, (ways row)[i]? = some way ∧
      settled.knot n.label = ⟨n.label, n.coordinate + way, n.offset + way⟩ := by
  have inside : i < (ways row).length := by
    rw [length_ways]
    exact (List.getElem?_eq_some_iff.mp hs).1
  refine ⟨(ways row)[i], List.getElem?_eq_getElem inside, ?_⟩
  have moved := h.moved i s _ hs (List.getElem?_eq_getElem inside)
  rw [← label] at moved
  rw [Cells.knot, moved]
  exact congrArg (fun m : Knot Nat α =>
    (⟨n.label, m.coordinate + (ways row)[i], m.offset + (ways row)[i]⟩ : Knot Nat α)) traced

private theorem exists_of_settle {γ : Type} {row : List (Slot γ α)} {i : Nat} {t : Slot γ α}
    (h : (settle row)[i]? = some t) :
    ∃ s way, row[i]? = some s ∧ (ways row)[i]? = some way ∧ t = s.settled way := by
  rw [settle, List.getElem?_zipWith_eq_some] at h
  obtain ⟨s, way, hs, hway, rfl⟩ := h
  exact ⟨s, way, hs, hway, rfl⟩

private theorem Cells.IsSettled.drawsAll {settled : Cells α} (h : cells.Reflects k separation v cs)
    (settles : cells.IsSettled settled (forest separation .empty cs).row)
    (once : (preorderAll cs).Nodup) :
    settled.DrawsAll k ((forest separation .empty cs).under v).children := by
  rw [Cells.drawsAll_iff]
  intro d hd
  obtain ⟨t, ht, rfl⟩ := List.mem_map.mp hd
  obtain ⟨i, hi⟩ := List.getElem?_of_mem ht
  obtain ⟨s, way, hs, hway, rfl⟩ := exists_of_settle hi
  have slot := List.mem_of_getElem? hs
  have stands := h.stands s slot
  have moved := settles.moved i s way hs hway
  have child := outline_mem_of_row slot
  refine ⟨?_, ?_, (h.draws s slot).congr ?_⟩
  · exact (congrArg Cell.coordinate moved).trans (congrArg (· + way) stands.coordinate)
  · intro inner
    exact (congrArg Cell.offset moved).trans (congrArg (· + way) (stands.offset inner))
  · intro u hu
    apply Cells.DrawsAlike.of_eq
    apply settles.others
    rw [labels_row]
    apply Rose.label_not_mem_below once child
    rwa [Draft.outlineAll_eq_map] at hu

private theorem Cells.IsSettled.traces_left {settled : Cells α}
    (h : cells.Reflects k separation v cs)
    (settles : cells.IsSettled settled (forest separation .empty cs).row)
    (next : settled.nextLeft k = cells.nextLeft k) (once : (preorderAll cs).Nodup) :
    settled.Traces (settled.nextLeft k) (cs.head?.map Rose.label)
      ((forest separation .empty cs).under v).left := by
  have labels := labels_row separation cs
  refine Cells.traces_shiftHead h.left next ?_ ?_
  · intro n hn
    have top : ((forest separation .empty cs).row.map (·.content.label))[0]? = some n.label := by
      rw [labels, List.getElem?_map, ← List.head?_eq_getElem?, h.left.start_eq, hn, Option.map_some]
    rw [List.getElem?_map, Option.map_eq_some_iff] at top
    obtain ⟨s, hs, label⟩ := top
    obtain ⟨way, hway, knot⟩ :=
      settles.knot_eq hs label.symm (h.left.knot_eq (List.mem_of_head? hn))
    exact ⟨way, by rw [List.head?_eq_getElem?, hway], knot⟩
  · intro n hn
    have aside := (edges_forest separation cs).goesDown_left.tail_aside once
      (List.map_tail ▸ List.mem_map_of_mem hn)
    rw [← labels] at aside
    rw [Cells.knot, settles.others _ aside]
    rfl

private theorem Cells.IsSettled.traces_right {settled : Cells α}
    (h : cells.Reflects k separation v cs)
    (settles : cells.IsSettled settled (forest separation .empty cs).row)
    (next : settled.nextRight k = cells.nextRight k) (once : (preorderAll cs).Nodup) :
    settled.Traces (settled.nextRight k) (cs.getLast?.map Rose.label)
      ((forest separation .empty cs).under v).right := by
  have labels := labels_row separation cs
  refine Cells.traces_shiftHead h.right next ?_ ?_
  · intro n hn
    have top : ((forest separation .empty cs).row.map (·.content.label))[
        (forest separation .empty cs).row.length - 1]? = some n.label := by
      rw [labels, List.getElem?_map, show (forest separation .empty cs).row.length = cs.length by
        simpa using congrArg List.length labels, ← List.getLast?_eq_getElem?, h.right.start_eq, hn,
        Option.map_some]
    rw [List.getElem?_map, Option.map_eq_some_iff] at top
    obtain ⟨s, hs, label⟩ := top
    obtain ⟨way, hway, knot⟩ :=
      settles.knot_eq hs label.symm (h.right.knot_eq (List.mem_of_head? hn))
    exact ⟨way, by rw [List.getLast?_eq_getElem?, length_ways, hway], knot⟩
  · intro n hn
    obtain ⟨m, hm, rfl⟩ := List.mem_map.mp (List.map_tail ▸ hn)
    have path := (edges_forest separation cs).goesDown_right
    have below : m.2.label ∈ ((forest separation .empty cs).right.map (·.2.label)).tail :=
      List.map_tail ▸ List.mem_map_of_mem (f := fun m : Nat × Knot Nat α => m.2.label) hm
    have aside := path.tail_aside once below
    rw [← labels] at aside
    rw [Cells.knot, settles.others _ aside]
    rfl

private theorem Cells.IsSettled.middle_eq {settled : Cells α}
    (h : cells.Reflects k separation v cs)
    (settles : cells.IsSettled settled (forest separation .empty cs).row) {first last : Rose Nat}
    (hfirst : cs.head? = some first) (hlast : cs.getLast? = some last) :
    ((forest separation .empty cs).under v).middle =
      some (((settled first.label).coordinate + (settled last.label).coordinate) / 2) := by
  have labels := labels_row separation cs
  -- The settled slot at a place has the coordinate of the settled cell of the child there.
  have settledAt : ∀ (i : Nat) (c : Rose Nat), cs[i]? = some c → ∃ t,
      (settle (forest separation .empty cs).row)[i]? = some t ∧
        t.coordinate = (settled c.label).coordinate := by
    intro i c hc
    have label := congrArg (·[i]?) labels
    rw [List.getElem?_map, List.getElem?_map, hc, Option.map_some, Option.map_eq_some_iff] at label
    obtain ⟨s, hs, label⟩ := label
    have inside : i < (ways (forest separation .empty cs).row).length := by
      rw [length_ways]
      exact (List.getElem?_eq_some_iff.mp hs).1
    have hway := List.getElem?_eq_getElem inside
    have stands := (h.stands s (List.mem_of_getElem? hs)).coordinate
    have moved := congrArg Cell.coordinate (settles.moved i s _ hs hway)
    refine ⟨s.settled _, List.getElem?_zipWith_eq_some.mpr ⟨s, _, hs, hway, rfl⟩, ?_⟩
    rw [← label, moved, stands]
    rfl
  have same : (settle (forest separation .empty cs).row).length = cs.length := by
    rw [settle, List.length_zipWith, length_ways, Nat.min_self]
    simpa using congrArg List.length labels
  rw [List.head?_eq_getElem?] at hfirst
  rw [List.getLast?_eq_getElem?] at hlast
  obtain ⟨s, hs, coordinate⟩ := settledAt _ _ hfirst
  obtain ⟨t, ht, coordinate'⟩ := settledAt _ _ hlast
  rw [Forest.under, ← coordinate, ← coordinate']
  dsimp only
  rw [List.head?_eq_getElem?, List.getLast?_eq_getElem?, same, hs, ht]
  rfl

theorem Cells.Reflects.settle (h : cells.Reflects k separation v cs)
    (children : k.children v = cs.map Rose.label) (once : (preorderAll cs).Nodup) :
    (cells.settleChildren k v).Carries k cs ((forest separation .empty cs).under v) ∧
      (∀ u, u ∉ cs.map Rose.label → cells.settleChildren k v u = cells u) ∧
      (∀ u, cells.settleChildren k v u =
        { cells u with
          coordinate := (cells.settleChildren k v u).coordinate
          offset := (cells.settleChildren k v u).offset }) ∧
      ∀ first last, cs.head? = some first → cs.getLast? = some last →
        ((forest separation .empty cs).under v).middle =
          some (((cells.settleChildren k v first.label).coordinate +
            (cells.settleChildren k v last.label).coordinate) / 2) := by
  let row := (forest separation .empty cs).row
  have labels : row.map (·.content.label) = cs.map Rose.label := labels_row separation cs
  have topsOnce : (row.map (·.content.label)).Nodup := by
    rw [labels]
    exact once.sublist (Rose.map_label_sublist cs)
  obtain ⟨settled, folded, others, moved⟩ := foldr_settleChild Block.label row topsOnce
    fun s hs => ⟨(h.stands s hs).change, (h.stands s hs).shift⟩
  have same : cells.settleChildren k v = settled := by
    rw [Cells.settleChildren, children, ← labels, folded]
  rw [same]
  have settles : cells.IsSettled settled row := ⟨moved, others⟩
  have unwritten : ∀ u, settled u =
      { cells u with coordinate := (settled u).coordinate, offset := (settled u).offset } := by
    intro u
    by_cases top : u ∈ row.map (·.content.label)
    · obtain ⟨s, hs, rfl⟩ := List.mem_map.mp top
      obtain ⟨i, hi⟩ := List.getElem?_of_mem hs
      have inside : i < (ways row).length := by
        rw [length_ways]
        exact (List.getElem?_eq_some_iff.mp hi).1
      rw [moved i s _ hi (List.getElem?_eq_getElem inside)]
    · rw [others u top]
  have nextLeft : settled.nextLeft k = cells.nextLeft k := by
    funext u
    rw [Cells.nextLeft, Cells.nextLeft, unwritten]
  have nextRight : settled.nextRight k = cells.nextRight k := by
    funext u
    rw [Cells.nextRight, Cells.nextRight, unwritten]
  refine ⟨⟨settles.drawsAll h once, settles.traces_left h nextLeft once,
    settles.traces_right h nextRight once⟩, fun u hu => others u (labels ▸ hu), unwritten, ?_⟩
  intro first last hfirst hlast
  exact settles.middle_eq h hfirst hlast

end Settling

end TidyTree.Placement
