import Mathlib.Order.Bounds.Basic
import TidyTree.Proofs.Layout.Widths

set_option autoImplicit false
set_option relaxedAutoImplicit false

namespace TidyTree

namespace Rect

/-- Where one side of some rectangles lies. -/
def sides (side : Rect Rat → Rat) (rs : List (Rect Rat)) : Set Rat := {x | ∃ r ∈ rs, side r = x}

structure IsUpright (r : Rect Rat) : Prop where
  width : 0 ≤ r.width
  height : 0 ≤ r.height

/-- On each side the rectangle has the outermost side of some. -/
structure IsHull (hull : Rect Rat) (rs : List (Rect Rat)) : Prop where
  left : IsLeast (sides Rect.left rs) hull.left
  top : IsLeast (sides Rect.top rs) hull.top
  right : IsGreatest (sides Rect.right rs) hull.right
  bottom : IsGreatest (sides Rect.bottom rs) hull.bottom

private theorem sides_concat (side : Rect Rat → Rat) (rs : List (Rect Rat)) (r : Rect Rat) :
    sides side (rs ++ [r]) = insert (side r) (sides side rs) := by
  ext x
  simp only [sides, Set.mem_insert_iff, Set.mem_ofPred_eq, List.mem_append, List.mem_singleton]
  constructor
  · rintro ⟨s, hs | rfl, same⟩
    · exact Or.inr ⟨s, hs, same⟩
    · exact Or.inl same.symm
  · rintro (same | ⟨s, hs, same⟩)
    · exact ⟨r, Or.inr rfl, same.symm⟩
    · exact ⟨s, Or.inl hs, same⟩

private theorem sides_singleton (side : Rect Rat → Rat) (r : Rect Rat) : sides side [r] = {side r}
    := by
  ext x
  simp only [sides, Set.mem_ofPred_eq, List.mem_singleton, exists_eq_left, Set.mem_singleton_iff]
  exact eq_comm

private theorem isHull_singleton (r : Rect Rat) : r.IsHull [r] := by
  constructor
  all_goals rw [sides_singleton]
  · exact isLeast_singleton
  · exact isLeast_singleton
  · exact isGreatest_singleton
  · exact isGreatest_singleton

variable {hull r : Rect Rat} {rs : List (Rect Rat)}

private theorem IsUpright.union_eq (upright : hull.IsUpright) (r : Rect Rat) :
    hull.union r = ⟨min hull.left r.left, min hull.top r.top,
      max hull.right r.right - min hull.left r.left,
      max hull.bottom r.bottom - min hull.top r.top⟩ := by
  have wide : min hull.left r.left ≤ max hull.right r.right :=
    calc min hull.left r.left ≤ hull.left := min_le_left _ _
      _ ≤ hull.right := le_add_of_nonneg_right upright.width
      _ ≤ max hull.right r.right := le_max_left _ _
  have high : min hull.top r.top ≤ max hull.bottom r.bottom :=
    calc min hull.top r.top ≤ hull.top := min_le_left _ _
      _ ≤ hull.bottom := le_add_of_nonneg_right upright.height
      _ ≤ max hull.bottom r.bottom := le_max_left _ _
  rw [Rect.union, Scalar.min_eq, Scalar.min_eq, Scalar.max_eq, Scalar.max_eq, between,
    if_pos wide, if_pos high]

private theorem isUpright_between (left top right bottom : Rat) :
    (between left top right bottom).IsUpright := by
  unfold between
  constructor
  · by_cases h : left ≤ right
    · simp only [if_pos h]
      exact sub_nonneg.mpr h
    · simp only [if_neg h]
      exact sub_nonneg.mpr (not_le.mp h).le
  · by_cases h : top ≤ bottom
    · simp only [if_pos h]
      exact sub_nonneg.mpr h
    · simp only [if_neg h]
      exact sub_nonneg.mpr (not_le.mp h).le

private theorem IsHull.union (h : hull.IsHull rs) (upright : hull.IsUpright) (r : Rect Rat) :
    (hull.union r).IsHull (rs ++ [r]) := by
  have same := upright.union_eq r
  have left : (hull.union r).left = min r.left hull.left := by
    rw [same, min_comm r.left]
    rfl
  have top : (hull.union r).top = min r.top hull.top := by
    rw [same, min_comm r.top]
    rfl
  have right : (hull.union r).right = max r.right hull.right := by
    rw [same, max_comm r.right]
    exact add_sub_cancel _ _
  have bottom : (hull.union r).bottom = max r.bottom hull.bottom := by
    rw [same, max_comm r.bottom]
    exact add_sub_cancel _ _
  constructor
  · rw [sides_concat, left]
    exact h.left.insert r.left
  · rw [sides_concat, top]
    exact h.top.insert r.top
  · rw [sides_concat, right]
    exact h.right.insert r.right
  · rw [sides_concat, bottom]
    exact h.bottom.insert r.bottom

private theorem IsHull.foldl (h : hull.IsHull rs) (upright : hull.IsUpright)
    (more : List (Rect Rat)) :
    (more.foldl Rect.union hull).IsHull (rs ++ more) := by
  induction more generalizing hull rs with
  | nil =>
    rw [List.append_nil]
    exact h
  | cons r more ih =>
    rw [List.append_cons]
    exact ih (h.union upright r) (isUpright_between _ _ _ _)

theorem isHull_of_hull? (upright : ∀ r ∈ rs, r.IsUpright) (some_hull : hull? rs = some hull) :
    hull.IsHull rs := by
  cases rs with
  | nil => exact absurd some_hull.symm (Option.some_ne_none hull)
  | cons r rs =>
    obtain rfl := Option.some.inj some_hull
    exact (isHull_singleton r).foldl (upright r List.mem_cons_self) rs

end Rect

end TidyTree
