import TidyTree.Picture.Shapes
import TidyTree.Proofs.Layout.Disjoint

set_option autoImplicit false
set_option relaxedAutoImplicit false

namespace TidyTree

def NodeBox.shape {α : Type} [Scalar α] (b : NodeBox α) : NodeShape α :=
  ⟨b, .shown b.position, false⟩

private theorem Rect.contains_around_iff (center : Point Rat) (size : Size Rat) (p : Point Rat) :
    (Rect.around center size).contains p = true ↔
      |p.x - center.x| ≤ size.width / 2 ∧ |p.y - center.y| ≤ size.height / 2 := by
  simp only [contains, Bool.and_eq_true, decide_eq_true_eq, ge_iff_le, abs_le]
  simp only [around, left, right, top, bottom]
  constructor
  · rintro ⟨⟨⟨left, right⟩, top⟩, bottom⟩
    exact ⟨⟨by linarith, by linarith⟩, by linarith, by linarith⟩
  · rintro ⟨⟨left, right⟩, top, bottom⟩
    exact ⟨⟨⟨by linarith, by linarith⟩, by linarith⟩, by linarith⟩

private theorem Disc.not_contains_of_lt {d : Disc Rat} {p : Point Rat}
    (far : d.radius < |p.x - d.center.x|) : d.contains p = false := by
  rw [contains, Point.isWithin]
  refine decide_eq_false fun within => ?_
  obtain ⟨radius, near⟩ := within
  have square := mul_self_lt_mul_self radius far
  rw [abs_mul_abs_self] at square
  rw [Scalar.Exact.normSq] at near
  linarith [mul_self_nonneg (p.y - d.center.y)]

private theorem lt_indicatorOffset (labelWidth padding : Rat) :
    indicatorRadius < indicatorOffset labelWidth padding := by
  rw [indicatorOffset, Scalar.max_eq]
  exact lt_of_lt_of_le (by decide +kernel) (le_max_right _ _)

private theorem Sizing.isSpacious_standard : (standard : Sizing Rat).IsSpacious := by
  constructor <;> decide +kernel

private theorem Sizing.indicatorOffset_lt {labelWidth widest : Rat} (nonneg : 0 ≤ labelWidth)
    (le : labelWidth ≤ widest) :
    indicatorOffset labelWidth (standard : Sizing Rat).labelPadding + indicatorRadius <
      (standard : Sizing Rat).columnWidthOf widest := by
  have room : labelWidth + 2 * 14 + 28 ≤ (standard : Sizing Rat).columnWidthOf widest :=
    isSpacious_standard.room_le le
  have inner := Scalar.ceil_lt labelWidth
  have outer := Scalar.ceil_lt (Scalar.ceil labelWidth / 2)
  have radius : (indicatorRadius : Rat) = 10 := rfl
  have padding : (standard : Sizing Rat).labelPadding = 14 := rfl
  rw [indicatorOffset, Scalar.max_eq, halfLabel, radius, padding, ← lt_sub_iff_add_lt]
  exact max_lt (by linarith) (by linarith)

namespace NodeBox

variable {a b : NodeBox Rat} {columnWidth height : Rat}

private theorem contains_bounds_iff (b : NodeBox Rat) (p : Point Rat) :
    b.bounds.contains p = true ↔
      |p.x - b.position.x| ≤ b.size.width / 2 ∧ |p.y - b.position.y| ≤ b.size.height / 2 :=
  Rect.contains_around_iff b.position b.size p

private theorem Precedes.not_contains (precedes : a.Precedes columnWidth height b)
    (columns : 0 < columnWidth) (rows : 0 < height) (wide : a.size.width ≤ columnWidth)
    (wide' : b.size.width ≤ columnWidth) (high : a.size.height = height)
    (high' : b.size.height = height) :
    a.bounds.contains b.position = false ∧ b.bounds.contains a.position = false := by
  rw [← Bool.not_eq_true, ← Bool.not_eq_true, contains_bounds_iff, contains_bounds_iff, high, high',
    abs_le, abs_le, abs_le, abs_le]
  rcases precedes with left | ⟨_, above⟩
  · exact ⟨fun ⟨near, _⟩ => by linarith, fun ⟨near, _⟩ => by linarith⟩
  · exact ⟨fun ⟨_, near⟩ => by linarith, fun ⟨_, near⟩ => by linarith⟩

private theorem not_contains_indicator {p : Point Rat} {padding : Rat}
    (clear : indicatorOffset b.labelWidth padding + indicatorRadius < columnWidth)
    (beside : p.x ≤ b.position.x ∨ b.position.x + columnWidth ≤ p.x) {d : Disc Rat}
    (hd : b.shape.indicator? padding = some d) : d.contains p = false := by
  unfold NodeShape.indicator? at hd
  split at hd
  · obtain rfl := Option.some.inj hd
    refine Disc.not_contains_of_lt ?_
    have offset := lt_indicatorOffset b.labelWidth padding
    show indicatorRadius < |p.x - (b.position.x + indicatorOffset b.labelWidth padding)|
    rcases beside with left | right
    · exact lt_of_lt_of_le (by linarith) (neg_le_abs _)
    · exact lt_of_lt_of_le (by linarith) (le_abs_self _)
  · exact absurd hd (Option.some_ne_none d).symm

end NodeBox

/-- The middle of every box lies in that box and in no other, and no indicator reaches it. -/
structure Layout.IsLegible (l : Layout Rat) (padding : Rat) : Prop where
  own : ∀ b ∈ l.boxes, b.bounds.contains b.position = true
  others : ∀ a ∈ l.boxes, ∀ b ∈ l.boxes, a.id ≠ b.id → a.bounds.contains b.position = false
  indicators : ∀ a ∈ l.boxes, ∀ b ∈ l.boxes, ∀ d ∈ a.shape.indicator? padding,
    d.contains b.position = false

private theorem Layout.isLegible_ofWidths {s : Sizing Rat} (h : s.IsSpacious) {root : Node}
    {id : NodeId}
    (numbered : root.IsNumbered id) {columnWidth : Rat} (columns : 0 < columnWidth)
    {widthOf : String → Rat}
    (fits : ∀ n ∈ root.preorder, 0 ≤ s.boxWidth (widthOf n.item.label) ∧
      s.boxWidth (widthOf n.item.label) ≤ columnWidth)
    (clear : ∀ n ∈ root.preorder,
      indicatorOffset (widthOf n.item.label) s.labelPadding + indicatorRadius < columnWidth) :
    (ofWidths s columnWidth root widthOf).IsLegible s.labelPadding := by
  have size : ∀ b ∈ (ofWidths s columnWidth root widthOf).boxes,
      (0 ≤ b.size.width ∧ b.size.width ≤ columnWidth) ∧ b.size.height = s.boxHeight := by
    intro b hb
    obtain ⟨_, same, n, hn, label⟩ := geometry_of_mem hb
    rw [same, label]
    exact ⟨fits n hn, rfl⟩
  constructor
  case own =>
    intro b hb
    obtain ⟨⟨width, _⟩, height⟩ := size b hb
    rw [b.contains_bounds_iff, sub_self, sub_self, abs_zero, height]
    exact ⟨by linarith, by linarith [h.height]⟩
  case others =>
    intro a ha b hb hne
    obtain ⟨⟨_, wide⟩, high⟩ := size a ha
    obtain ⟨⟨_, wide'⟩, high'⟩ := size b hb
    rcases precedes_or_precedes h numbered columns.le ha hb hne with first | second
    · exact (first.not_contains columns h.height wide wide' high high').1
    · exact (second.not_contains columns h.height wide' wide high' high).2
  case indicators =>
    intro a ha b hb d hd
    obtain ⟨column, _, n, hn, label⟩ := geometry_of_mem ha
    refine NodeBox.not_contains_indicator (label ▸ clear n hn) ?_ hd
    rcases lt_or_ge a.visit.depth b.visit.depth with deeper | higher
    · exact Or.inr (add_columnWidth_le columns.le ha hb deeper)
    · refine Or.inl ?_
      have depths : (b.visit.depth : Rat) ≤ a.visit.depth := by exact_mod_cast higher
      rw [column, (geometry_of_mem hb).1]
      exact mul_le_mul_of_nonneg_right depths columns.le

private theorem Sizing.widthBy_nonneg {s : Sizing Rat} (fallback : 0 ≤ s.fallbackWidth)
    (f : String → Font Rat → Except (MeasureError Rat) Rat) (label : String) :
    0 ≤ s.widthBy f label := by
  unfold widthBy Metrics.widthBy
  split
  · split
    · next length => exact of_decide_eq_true (Bool.and_eq_true_iff.mp length).2
    · exact fallback
  · exact fallback

def Node.widest (widthOf : String → Rat) (root : Node) : Rat :=
  (root.preorder.map fun n => widthOf n.item.label).foldl Scalar.max 0

private theorem Node.le_widest (widthOf : String → Rat) {root n : Node} (h : n ∈ root.preorder) :
    widthOf n.item.label ≤ root.widest widthOf :=
  Scalar.le_foldl_max (Or.inr (List.mem_map_of_mem h))

theorem Layout.isLegible_standard {root : Node} {id : NodeId} (numbered : root.IsNumbered id)
    (f : String → Font Rat → Except (MeasureError Rat) Rat) :
    (ofWidths .standard (Sizing.standard.columnWidthOf (root.widest (Sizing.standard.widthBy f)))
      root (Sizing.standard.widthBy f)).IsLegible (Sizing.standard : Sizing Rat).labelPadding := by
  have spacious := Sizing.isSpacious_standard
  have least (labelWidth : Rat) : 0 ≤ (Sizing.standard : Sizing Rat).boxWidth labelWidth := by
    have minimum : (0 : Rat) ≤ (Sizing.standard : Sizing Rat).minBoxWidth := by decide +kernel
    rw [Sizing.boxWidth, Scalar.max_eq]
    exact minimum.trans (le_max_right _ _)
  refine isLegible_ofWidths spacious numbered (spacious.columnWidthOf_pos _) ?_ ?_
  · exact fun n hn => ⟨least _, spacious.boxWidth_le (Node.le_widest _ hn)⟩
  · exact fun n hn => Sizing.indicatorOffset_lt (Sizing.widthBy_nonneg spacious.fallback f _)
      (Node.le_widest _ hn)

end TidyTree
