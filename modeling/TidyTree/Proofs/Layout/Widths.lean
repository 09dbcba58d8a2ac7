import TidyTree.Proofs.Layout.Boxes
import TidyTree.Scalar.Exact

set_option autoImplicit false
set_option relaxedAutoImplicit false

namespace TidyTree

variable {σ α : Type}

namespace Metrics

def widthBy [Scalar α] (f : String → Font α → Except (MeasureError α) α) (fallback : α)
    (font : Font α) (text : String) : α :=
  match f text font with
  | .ok width => if isLength width then width else fallback
  | .error _ => fallback

variable [Scalar α] {m : Metrics σ α} {f : String → Font α → Except (MeasureError α) α}

theorem Answers.widthOr_eq (h : m.Answers f) (fallback : α) (font : Font α) (text : String)
    (s : σ) : (m.widthOr fallback font text s).1 = widthBy f fallback font text := by
  have answer := h text font s
  unfold widthOr widthBy
  rw [← answer]
  rcases m.measure text font s with ⟨_ | _, _⟩ <;> rfl

theorem Answers.widthsOr_eq (h : m.Answers f) (fallback : α) (font : Font α) (texts : List String)
    (s : σ) : (m.widthsOr fallback font texts s).1 = texts.map (widthBy f fallback font) := by
  induction texts generalizing s with
  | nil => rfl
  | cons text texts ih =>
    rw [widthsOr, List.map_cons]
    exact congrArg₂ List.cons (h.widthOr_eq fallback font text s) (ih _)

end Metrics

def Sizing.widthBy [Scalar α] (s : Sizing α) (f : String → Font α → Except (MeasureError α) α)
    (label : String) : α := Metrics.widthBy f s.fallbackWidth s.font label

variable [Scalar α] {m : Metrics σ α} {f : String → Font α → Except (MeasureError α) α}

theorem Sizing.columnWidth_eq (h : m.Answers f) (s : Sizing α) (t : Tree) (state : σ) :
    (s.columnWidth m t state).1 =
      s.columnWidthOf ((t.nodes.map fun n => s.widthBy f n.item.label).foldl Scalar.max 0) := by
  rw [columnWidth, labelWidths]
  simp only [h.widthsOr_eq, List.map_map]
  rfl

/-- The layout of a root whose labels have given widths. -/
def Layout.ofWidths (s : Sizing α) (columnWidth : α) (root : Node) (widthOf : String → α) :
    Layout α :=
  ofMeasured s columnWidth
    (root.visibleTree.map fun visit => (visit, widthOf visit.item.label))

theorem Layout.withColumns_eq (h : m.Answers f) (s : Sizing α) (columnWidth : α) (t : Tree)
    (state : σ) :
    (withColumns s m columnWidth t state).1 = ofWidths s columnWidth t.root (s.widthBy f) := by
  refine congrArg (ofMeasured s columnWidth) (Rose.mapState_eq_map ?_ _ _)
  intro visit state
  exact Prod.ext rfl (h.widthOr_eq _ _ _ _)

namespace Scalar

theorem max_eq (x y : Rat) : Scalar.max x y = Max.max x y := by
  rw [Scalar.max, if_neg (by simp [isNaN]), if_neg (by simp [isNaN])]
  split
  · next h => exact (max_eq_left h.le).symm
  · next h => exact (max_eq_right (not_lt.mp h)).symm

theorem min_eq (x y : Rat) : Scalar.min x y = Min.min x y := by
  rw [Scalar.min, if_neg (by simp [isNaN]), if_neg (by simp [isNaN])]
  split
  · next h => exact (min_eq_left h.le).symm
  · next h => exact (min_eq_right (not_lt.mp h)).symm

theorem le_foldl_max {x start : Rat} {xs : List Rat} (h : x ≤ start ∨ x ∈ xs) :
    x ≤ xs.foldl Scalar.max start := by
  induction xs generalizing start with
  | nil => exact h.resolve_right List.not_mem_nil
  | cons y ys ih =>
    rw [List.foldl_cons, max_eq]
    apply ih
    rcases h with h | h
    · exact Or.inl (h.trans (le_max_left _ _))
    · exact (List.mem_cons.mp h).imp_left fun same => same.le.trans (le_max_right _ _)

theorem le_ceil (x : Rat) : x ≤ Scalar.ceil x := Rat.le_ceil

theorem ceil_lt (x : Rat) : Scalar.ceil x < x + 1 := Rat.ceil_lt

end Scalar

end TidyTree
