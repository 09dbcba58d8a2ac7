import TidyTree.Proofs.Layout.Widths
import TidyTree.Proofs.Placement.Tidiness
import TidyTree.Settings.Check

set_option autoImplicit false
set_option relaxedAutoImplicit false

/-!
# Boxes do not overlap

Boxes of one column stand below each other in pre-order, at least a box height apart, because the
rows of neighbours are at least the separation of siblings apart. Boxes of different columns are no
wider than a column. So no two boxes meet, and the shown children of a node go down the column in
their order.
-/

namespace TidyTree

variable {σ : Type} {s : Sizing Rat}

/-- The lengths leave room for every box in its row and in its column. -/
structure Sizing.IsSpacious (s : Sizing Rat) : Prop where
  rows : 0 < s.rowSpacing
  height : 0 < s.boxHeight
  close : s.boxHeight ≤ s.rowSpacing * s.siblingSeparation
  cousins : s.siblingSeparation ≤ s.cousinSeparation
  columns : 0 < s.minColumnWidth
  minimum : s.minBoxWidth ≤ s.minColumnWidth
  margin : 1 ≤ s.columnMargin
  fallback : 0 ≤ s.fallbackWidth

namespace Sizing.IsSpacious

private theorem siblings (h : s.IsSpacious) : 0 < s.siblingSeparation :=
  (pos_iff_pos_of_mul_pos (h.height.trans_le h.close)).mp h.rows

private theorem siblings_le (h : s.IsSpacious) (columnWidth : Rat) (a b : Visit × Rat) :
    s.siblingSeparation ≤ Layout.separation s columnWidth a b := by
  rw [Layout.separation, separation, Scalar.max_eq]
  have factor : (1 : Rat) ≤ Max.max ((a.2 + b.2 + 4 * s.labelPadding) / columnWidth) 1 :=
    le_max_right _ _
  split
  · exact le_mul_of_one_le_right h.siblings.le factor
  · exact h.cousins.trans (le_mul_of_one_le_right (h.siblings.le.trans h.cousins) factor)

theorem room_le (h : s.IsSpacious) {labelWidth widest : Rat} (le : labelWidth ≤ widest) :
    labelWidth + 2 * s.labelPadding + s.columnMargin ≤ s.columnWidthOf widest := by
  have counted : labelWidth ≤ if widest > 0 then widest else s.fallbackWidth := by
    split
    · exact le
    · next none => exact le.trans ((not_lt.mp none).trans h.fallback)
  have room := Scalar.le_ceil
    ((if widest > 0 then widest else s.fallbackWidth) + 2 * s.labelPadding + s.columnMargin)
  rw [columnWidthOf, Scalar.max_eq]
  refine le_trans ?_ (le_max_left _ _)
  linarith

/-- A column whose margin makes up for rounding holds the box of every label that is no wider than
its widest. -/
theorem boxWidth_le (h : s.IsSpacious) {labelWidth widest : Rat} (le : labelWidth ≤ widest) :
    s.boxWidth labelWidth ≤ s.columnWidthOf widest := by
  have rounded := Scalar.ceil_lt labelWidth
  have room := h.room_le le
  have margin := h.margin
  have least : s.minColumnWidth ≤ s.columnWidthOf widest := by
    rw [columnWidthOf, Scalar.max_eq]
    exact le_max_right _ _
  rw [boxWidth, Scalar.max_eq]
  exact max_le (by linarith) (h.minimum.trans least)

theorem columnWidthOf_pos (h : s.IsSpacious) (widest : Rat) : 0 < s.columnWidthOf widest := by
  rw [columnWidthOf, Scalar.max_eq]
  exact h.columns.trans_le (le_max_right _ _)

end Sizing.IsSpacious

private theorem Settings.lengths_of_isValid {s : Settings Rat} (h : s.isValid = true) :
    0 < s.sizing.rowSpacing ∧ 0 < s.sizing.minColumnWidth ∧
      s.sizing.boxHeight ≤ s.sizing.rowSpacing * s.sizing.siblingSeparation := by
  simp only [isValid, problems, List.isEmpty_iff, List.append_eq_nil_iff, needPositive,
    Scalar.isPositive, hasCloseRows, ite_eq_left_iff, ite_eq_right_iff, imp_false, not_not,
    Bool.and_eq_true, decide_eq_true_eq, not_lt, List.cons_ne_nil] at h
  obtain ⟨⟨⟨⟨⟨_, rows⟩, columns⟩, _⟩, close⟩, _⟩ := h
  exact ⟨rows.2, columns.2, close⟩

private theorem Rect.intersects_comm (r s : Rect Rat) : r.intersects s = s.intersects r := by
  rw [Bool.eq_iff_iff]
  simp only [intersects, gt_iff_lt, Bool.and_eq_true, decide_eq_true_eq]
  tauto

/-- One box stands at least a column to the left of another, or in the same column and at least a
height above it. -/
def NodeBox.Precedes (columnWidth height : Rat) (a b : NodeBox Rat) : Prop :=
  a.position.x + columnWidth ≤ b.position.x ∨
    (a.position.x = b.position.x ∧ a.position.y + height ≤ b.position.y)

private theorem NodeBox.Precedes.not_intersects {a b : NodeBox Rat} {columnWidth height : Rat}
    (precedes : a.Precedes columnWidth height b) (wide : a.size.width ≤ columnWidth)
    (wide' : b.size.width ≤ columnWidth) (high : a.size.height = height)
    (high' : b.size.height = height) : a.bounds.intersects b.bounds = false := by
  rcases precedes with left | ⟨_, above⟩
  · have edges : ¬ a.bounds.right > b.bounds.left := by
      simp only [bounds, Rect.around, Rect.right, Rect.left, not_lt, gt_iff_lt]
      linarith
    rw [Rect.intersects, decide_eq_false edges, Bool.and_false, Bool.false_and, Bool.false_and]
  · have edges : ¬ a.bounds.bottom > b.bounds.top := by
      simp only [bounds, Rect.around, Rect.bottom, Rect.top, high, high', not_lt, gt_iff_lt]
      linarith
    rw [Rect.intersects, decide_eq_false edges, Bool.and_false]

namespace Layout

variable {columnWidth : Rat} {root : Node} {widthOf : String → Rat}

private theorem pairwise_level (h : s.IsSpacious) (columnWidth : Rat) (visits : Rose (Visit × Rat))
    (depth : Nat) :
    ((Placement.tidy (separation s columnWidth) visits).level depth).Pairwise
      fun a b => a.2 + s.siblingSeparation ≤ b.2 := by
  have siblings := h.siblings
  have trans : IsTrans ((Visit × Rat) × Rat) fun a b => a.2 + s.siblingSeparation ≤ b.2 :=
    ⟨fun a b c hab hbc => by linarith⟩
  refine List.IsChain.pairwise ((Placement.isChain_level_tidy _ visits depth).imp ?_)
  intro a b apart
  have least := h.siblings_le columnWidth a.1 b.1
  rw [Placement.IsApart] at apart
  linarith

private theorem shows_ofWidths (s : Sizing Rat) (columnWidth : Rat) (root : Node)
    (widthOf : String → Rat) : (ofWidths s columnWidth root widthOf).Shows root := by
  rw [Shows, ofWidths, map_visit_ofMeasured, ← Rose.preorder_map, Rose.map_map]
  exact congrArg Rose.preorder (Rose.map_id _)

private theorem depth_of_mem_level {separation : Visit × Rat → Visit × Rat → Rat} {depth : Nat}
    {v : (Visit × Rat) × Rat}
    (h : v ∈ (Placement.tidy separation
      (root.visibleTree.map fun visit => (visit, widthOf visit.item.label))).level depth) :
    v.1.1.depth = 0 + depth := by
  have measured := List.mem_map_of_mem (f := Prod.fst) h
  rw [← Rose.level_map, Placement.map_fst_tidy, Rose.level_map, List.mem_map] at measured
  obtain ⟨visit, here, same⟩ := measured
  rw [← same]
  exact Node.depth_of_mem_level here

private theorem pairwise_boxes (h : s.IsSpacious) :
    (ofWidths s columnWidth root widthOf).boxes.Pairwise fun a b =>
      a.visit.depth = b.visit.depth → a.position.y + s.boxHeight ≤ b.position.y := by
  rw [ofWidths, ofMeasured, List.pairwise_map]
  have depths : ∀ depth, ∀ v ∈ (Placement.tidy (separation s columnWidth)
      (root.visibleTree.map fun visit => (visit, widthOf visit.item.label))).level depth,
      v.1.1.depth = 0 + depth := fun _ _ hv => depth_of_mem_level hv
  refine (Rose.pairwise_preorder depths (pairwise_level h columnWidth _)).imp ?_
  intro a b below same
  have rise := mul_le_mul_of_nonneg_right (below same) h.rows.le
  have close := h.close
  show a.2 * s.rowSpacing + s.boxHeight ≤ b.2 * s.rowSpacing
  linarith

private theorem Shows.of_id_lt {l : Layout Rat} {id : NodeId} (h : l.Shows root)
    (numbered : root.IsNumbered id) {R : NodeBox Rat → NodeBox Rat → Prop}
    (ordered : l.boxes.Pairwise R) {a b : NodeBox Rat} (ha : a ∈ l.boxes) (hb : b ∈ l.boxes)
    (hab : a.id < b.id) : R a b := by
  have rising : l.boxes.Pairwise fun a b => a.id < b.id :=
    List.pairwise_map.mp (h.pairwise_ids numbered)
  have forward : l.boxes.Pairwise fun a b => a.id < b.id → R a b :=
    ordered.imp fun {a b} holds (_ : a.id < b.id) => holds
  have backward : l.boxes.Pairwise (flip fun a b => a.id < b.id → R a b) :=
    rising.imp fun less more => absurd more less.asymm
  exact forward.forall_of_forall_of_flip (fun x _ less => absurd less (lt_irrefl _)) backward ha hb
    hab

theorem geometry_of_mem {b : NodeBox Rat} (h : b ∈ (ofWidths s columnWidth root widthOf).boxes) :
    b.position.x = b.visit.depth * columnWidth ∧
      b.size = ⟨s.boxWidth b.labelWidth, s.boxHeight⟩ ∧
        ∃ n ∈ root.preorder, b.labelWidth = widthOf n.item.label := by
  have visited : b.visit.item ∈ root.drawn.map Node.item := by
    rw [← Node.map_item_visits none 0 0 root]
    exact List.mem_map_of_mem (shows_ofWidths s columnWidth root widthOf ▸ List.mem_map_of_mem h)
  obtain ⟨v, hv, rfl⟩ := List.mem_map.mp h
  have measured := List.mem_map_of_mem (f := Prod.fst) hv
  rw [← Rose.preorder_map, Placement.map_fst_tidy, Rose.preorder_map, List.mem_map] at measured
  obtain ⟨visit, _, same⟩ := measured
  obtain ⟨_, row⟩ := v
  obtain rfl : (visit, widthOf visit.item.label) = _ := same
  obtain ⟨n, hn, item⟩ := List.mem_map.mp visited
  exact ⟨rfl, rfl, n, root.drawn_sublist.subset hn, by rw [item]; rfl⟩

theorem add_columnWidth_le (columns : 0 ≤ columnWidth) {a b : NodeBox Rat}
    (ha : a ∈ (ofWidths s columnWidth root widthOf).boxes)
    (hb : b ∈ (ofWidths s columnWidth root widthOf).boxes)
    (deeper : a.visit.depth < b.visit.depth) : a.position.x + columnWidth ≤ b.position.x := by
  have next : (a.visit.depth : Rat) + 1 ≤ b.visit.depth := by exact_mod_cast deeper
  rw [(geometry_of_mem ha).1, (geometry_of_mem hb).1]
  linarith [mul_le_mul_of_nonneg_right next columns]

/-- Of two boxes one precedes the other. -/
theorem precedes_or_precedes (h : s.IsSpacious) {id : NodeId} (numbered : root.IsNumbered id)
    (columns : 0 ≤ columnWidth) {a b : NodeBox Rat}
    (ha : a ∈ (ofWidths s columnWidth root widthOf).boxes)
    (hb : b ∈ (ofWidths s columnWidth root widthOf).boxes) (hne : a.id ≠ b.id) :
    a.Precedes columnWidth s.boxHeight b ∨ b.Precedes columnWidth s.boxHeight a := by
  have below : ∀ a ∈ (ofWidths s columnWidth root widthOf).boxes,
      ∀ b ∈ (ofWidths s columnWidth root widthOf).boxes, a.id < b.id →
        a.visit.depth = b.visit.depth → a.Precedes columnWidth s.boxHeight b := by
    intro a ha b hb less same
    refine Or.inr ⟨?_, (shows_ofWidths s columnWidth root widthOf).of_id_lt numbered
      (pairwise_boxes h) ha hb less same⟩
    rw [(geometry_of_mem ha).1, (geometry_of_mem hb).1, same]
  rcases lt_trichotomy a.visit.depth b.visit.depth with deeper | same | higher
  · exact Or.inl (Or.inl (add_columnWidth_le columns ha hb deeper))
  · rcases lt_or_gt_of_ne hne with less | more
    · exact Or.inl (below a ha b hb less same)
    · exact Or.inr (below b hb a ha more same.symm)
  · exact Or.inr (Or.inl (add_columnWidth_le columns hb ha higher))

private theorem not_intersects_ofWidths (h : s.IsSpacious) {id : NodeId}
    (numbered : root.IsNumbered id)
    (columns : 0 ≤ columnWidth)
    (fits : ∀ n ∈ root.preorder, s.boxWidth (widthOf n.item.label) ≤ columnWidth) :
    ∀ a ∈ (ofWidths s columnWidth root widthOf).boxes,
      ∀ b ∈ (ofWidths s columnWidth root widthOf).boxes,
        a.id ≠ b.id → a.bounds.intersects b.bounds = false := by
  have size : ∀ b ∈ (ofWidths s columnWidth root widthOf).boxes,
      b.size.width ≤ columnWidth ∧ b.size.height = s.boxHeight := by
    intro b hb
    obtain ⟨_, same, n, hn, label⟩ := geometry_of_mem hb
    rw [same, label]
    exact ⟨fits n hn, rfl⟩
  intro a ha b hb hne
  obtain ⟨wide, high⟩ := size a ha
  obtain ⟨wide', high'⟩ := size b hb
  rcases precedes_or_precedes h numbered columns ha hb hne with first | second
  · exact first.not_intersects wide wide' high high'
  · rw [Rect.intersects_comm]
    exact second.not_intersects wide' wide high' high

private theorem descending_ofWidths (h : s.IsSpacious) {id : NodeId} (numbered : root.IsNumbered id)
    {n : Node} (hn : n ∈ root.preorder)
    (hcontains : (ofWidths s columnWidth root widthOf).contains n.id = true) :
    n.visible.Pairwise fun c d => ∃ p ∈ (ofWidths s columnWidth root widthOf).position? c.id,
      ∃ q ∈ (ofWidths s columnWidth root widthOf).position? d.id, p.y < q.y := by
  have shows := shows_ofWidths s columnWidth root widthOf
  have proper := shows.isProper numbered
  have drawn : n ∈ root.drawn := by
    rw [contains_iff, shows.ids_eq] at hcontains
    obtain ⟨x, hx, same⟩ := List.mem_map.mp hcontains
    rwa [← numbered.eq_of_id_eq (root.drawn_sublist.subset hx) hn same]
  obtain ⟨level, visited⟩ : ∃ level, ∀ c ∈ n.visible, ∃ i,
      c.visit (some n.id) level i ∈ (root.visits none 0 0).preorder :=
    Node.exists_visits_children drawn
  have box : ∀ c ∈ n.visible, ∃ b ∈ (ofWidths s columnWidth root widthOf).boxes,
      b.id = c.id ∧ b.visit.depth = level := by
    intro c hc
    obtain ⟨i, hi⟩ := visited c hc
    obtain ⟨b, hb, same⟩ := List.mem_map.mp ((shows ▸ hi : _ ∈ List.map _ _))
    exact ⟨b, hb, by rw [NodeBox.id, same]; rfl, by rw [same]; rfl⟩
  have rising : n.visible.Pairwise fun c d => c.id < d.id := by
    obtain ⟨item, shown, children⟩ := n
    cases shown
    · exact List.Pairwise.nil
    · exact ((Node.isNumbered_iff _ _).mp (numbered.of_mem hn)).2.2.pairwise_id
  refine rising.imp_of_mem fun hc hd less => ?_
  obtain ⟨a, ha, hac, adepth⟩ := box _ hc
  obtain ⟨b, hb, hbd, bdepth⟩ := box _ hd
  refine ⟨a.position, ?_, b.position, ?_, ?_⟩
  · rw [← hac, proper.position?_id ha, Option.mem_def]
  · rw [← hbd, proper.position?_id hb, Option.mem_def]
  · have below := shows.of_id_lt numbered (pairwise_boxes h) ha hb (by rwa [hac, hbd])
      (adepth.trans bdepth.symm)
    linarith [h.height]

/-- In the layout of a tree no two boxes meet, and the shown children of every node go down in their
order. The settings are without problems, boxes are not flat, cousins are not closer than siblings,
the margin of a column makes up for rounding, and a column is at least as wide as the least box. -/
theorem not_intersects_ofTree {settings : Settings Rat} (valid : settings.isValid = true)
    (height : 0 < settings.sizing.boxHeight)
    (cousins : settings.sizing.siblingSeparation ≤ settings.sizing.cousinSeparation)
    (margin : 1 ≤ settings.sizing.columnMargin)
    (minimum : settings.sizing.minBoxWidth ≤ settings.sizing.minColumnWidth)
    (fallback : 0 ≤ settings.sizing.fallbackWidth) {t : Tree} (reachable : t.IsReachable)
    {m : Metrics σ Rat} {f : String → Font Rat → Except (MeasureError Rat) Rat}
    (answers : m.Answers f) (state : σ) :
    (∀ a ∈ (ofTree settings.sizing m t state).1.boxes,
      ∀ b ∈ (ofTree settings.sizing m t state).1.boxes,
        a.id ≠ b.id → a.bounds.intersects b.bounds = false) ∧
    ∀ n ∈ t.nodes, (ofTree settings.sizing m t state).1.contains n.id = true →
      n.visible.Pairwise fun c d =>
        ∃ p ∈ (ofTree settings.sizing m t state).1.position? c.id,
          ∃ q ∈ (ofTree settings.sizing m t state).1.position? d.id, p.y < q.y := by
  obtain ⟨rows, columns, close⟩ := Settings.lengths_of_isValid valid
  have spacious : settings.sizing.IsSpacious :=
    ⟨rows, height, close, cousins, columns, minimum, margin, fallback⟩
  have numbered := reachable.isNumbered
  have laid : (ofTree settings.sizing m t state).1 = ofWidths settings.sizing
      (settings.sizing.columnWidth m t state).1 t.root (settings.sizing.widthBy f) :=
    withColumns_eq answers _ _ _ _
  rw [laid, Sizing.columnWidth_eq answers]
  refine ⟨not_intersects_ofWidths spacious numbered (spacious.columnWidthOf_pos _).le ?_,
    fun n hn => descending_ofWidths spacious numbered hn⟩
  intro n hn
  exact spacious.boxWidth_le (Scalar.le_foldl_max (Or.inr (List.mem_map_of_mem hn)))

theorem not_intersects_ofTree_standard :
    ∃ t : Tree, ∃ l : Layout Rat, l.ids = [0, 1, 2, 3, 4] ∧
      (∀ a ∈ l.boxes, ∀ b ∈ l.boxes, a.id ≠ b.id → a.bounds.intersects b.bounds = false) ∧
      ∀ n ∈ t.nodes, l.contains n.id = true →
        n.visible.Pairwise fun c d => ∃ p ∈ l.position? c.id, ∃ q ∈ l.position? d.id, p.y < q.y :=
  ⟨.ofRecord { label := "root", visible := [
      { label := "left", visible := [{ label := "a long label below" }, { label := "leaf" }] },
      { label := "right", hidden := [{ label := "a still longer label, folded away" }] }] },
    (ofTree Settings.standard.sizing (Metrics.fixed 8) _ ()).1, by decide +kernel,
    not_intersects_ofTree (by decide +kernel) (by decide +kernel) (by decide +kernel)
      (by decide +kernel) (by decide +kernel) (by decide +kernel) (.ofRecord _)
      (fun _ _ _ => rfl) ()⟩

end Layout

end TidyTree
