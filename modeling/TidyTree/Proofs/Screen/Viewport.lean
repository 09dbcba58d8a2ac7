import Mathlib.Logic.Relation
import TidyTree.Proofs.Scalar.Order

set_option autoImplicit false
set_option relaxedAutoImplicit false

namespace TidyTree

theorem Transform.invert_apply {t : Transform Rat} (scaled : t.scale ≠ 0) (world : Point Rat) :
    t.invert (t.apply world) = world := by
  rw [invert, apply, add_sub_cancel_right, add_sub_cancel_right, mul_div_cancel_right₀ _ scaled,
    mul_div_cancel_right₀ _ scaled]

namespace Viewport

variable {α : Type} [Scalar α]

/-- What can be done to a viewport at once. Where it is to hold still, no transform is asked for,
but for the first one. -/
inductive Move (still : Prop) : Viewport α → Viewport α → Prop where
  | place (v : Viewport α) (bounds : Option (Rect α)) (absent : v.transform? = none) :
      Move still v (v.place bounds)
  | resize (v : Viewport α) (container : Size α) : Move still v (v.resize container)
  | set (v : Viewport α) (t : Transform α) (moving : ¬ still) : Move still v (v.set t)
  | pan (v : Viewport α) (dx dy : α) (moving : ¬ still) : Move still v (v.pan dx dy)
  | scaleTo (v : Viewport α) (anchor : Point α) (scale : α) (moving : ¬ still) :
      Move still v (v.scaleTo anchor scale)
  | reset (v : Viewport α) (moving : ¬ still) : Move still v v.reset

/-- The diagram was placed with a transform, and its scale is in the extent of the window. -/
structure IsAnchored (v : Viewport α) (extent : ScaleExtent α) (start : Transform α) : Prop where
  window : v.window.extent = extent
  initial : v.initial? = some start
  first : extent.contains start.scale = true
  current : ∃ t, v.transform? = some t ∧ extent.contains t.scale = true

variable {v v' : Viewport α} {still : Prop} {extent : ScaleExtent α} {start : Transform α}

private theorem Move.window_eq (h : Move still v v') :
    v'.window = { v.window with container := v'.window.container } := by
  cases h with
  | place bounds absent => rfl
  | resize container => rfl
  | set t _ => unfold Viewport.set; split <;> rfl
  | pan dx dy _ => unfold Viewport.pan; split <;> rfl
  | scaleTo anchor scale _ => unfold Viewport.scaleTo; split <;> rfl
  | reset _ => unfold Viewport.reset; split <;> rfl

theorem window_moves (h : Relation.ReflTransGen (Move still) v v') :
    v'.window = { v.window with container := v'.window.container } := by
  induction h with
  | refl => rfl
  | tail _ last ih =>
    rw [last.window_eq, ih]

theorem extent_moves (h : Relation.ReflTransGen (Move still) v v') :
    v'.window.extent = v.window.extent := by
  rw [window_moves h]

private theorem Move.transform?_eq (h : Move still v v') (holds : still) {t : Transform α}
    (placed : v.transform? = some t) : v'.transform? = some t := by
  cases h with
  | place bounds absent => exact absurd (placed.symm.trans absent) (Option.some_ne_none t)
  | resize container => exact placed
  | set t moving => exact absurd holds moving
  | pan dx dy moving => exact absurd holds moving
  | scaleTo anchor scale moving => exact absurd holds moving
  | reset moving => exact absurd holds moving

theorem Move.mono {loose : Prop} (h : loose → still) (m : Move still v v') : Move loose v v' := by
  cases m with
  | place bounds absent => exact .place v bounds absent
  | resize container => exact .resize v container
  | set t moving => exact .set v t (moving ∘ h)
  | pan dx dy moving => exact .pan v dx dy (moving ∘ h)
  | scaleTo anchor scale moving => exact .scaleTo v anchor scale (moving ∘ h)
  | reset moving => exact .reset v (moving ∘ h)

theorem Move.zoom (v : Viewport α) (anchor : Point α) (factor : α) (moving : ¬ still) :
    Relation.ReflTransGen (Move still) v (v.zoom anchor factor) := by
  unfold Viewport.zoom
  split
  · exact .single (.scaleTo v anchor _ moving)
  · exact .refl

theorem transform?_moves (h : Relation.ReflTransGen (Move still) v v') (holds : still)
    {t : Transform α} (placed : v.transform? = some t) : v'.transform? = some t := by
  induction h with
  | refl => exact placed
  | tail _ last ih => exact last.transform?_eq holds ih

theorem Move.resume (v : Viewport α) (bounds : Option (Rect α)) :
    Relation.ReflTransGen (Move still) v (v.resume v.transform? bounds) := by
  cases placed : v.transform? with
  | none => exact .single (.place v bounds placed)
  | some t =>
    have same : v.withTransform t = v := by rw [withTransform, ← placed]
    rw [Viewport.resume, same]

namespace IsAnchored

theorem contains_scale (h : v.IsAnchored extent start) :
    extent.contains v.transform.scale = true := by
  obtain ⟨t, placed, within⟩ := h.current
  rw [transform, placed]
  exact within

private theorem withTransform (h : v.IsAnchored extent start) {t : Transform α}
    (within : extent.contains t.scale = true) : (v.withTransform t).IsAnchored extent start :=
  ⟨h.window, h.initial, h.first, t, rfl, within⟩

theorem reset_eq (h : v.IsAnchored extent start) : v.reset = v.withTransform start := by
  rw [reset, h.initial]

variable [Scalar.LawfulOrder α]

private theorem move (h : v.IsAnchored extent start) (ordered : extent.IsOrdered)
    (m : Move still v v') :
    v'.IsAnchored extent start := by
  have clamped (scale : α) : extent.contains (v.window.extent.clamp scale) = true := by
    rw [h.window]
    exact ordered.contains_clamp scale
  cases m with
  | place bounds absent =>
    obtain ⟨t, placed, _⟩ := h.current
    exact absurd (placed.symm.trans absent) (Option.some_ne_none t)
  | resize container => exact ⟨h.window, h.initial, h.first, h.current⟩
  | set t _ =>
    unfold Viewport.set
    split
    · exact h.withTransform (clamped t.scale)
    · exact h
  | pan dx dy _ =>
    unfold Viewport.pan
    split
    · exact h.withTransform h.contains_scale
    · exact h
  | scaleTo anchor scale _ =>
    unfold Viewport.scaleTo
    split
    · exact h.withTransform (clamped scale)
    · exact h
  | reset _ =>
    rw [h.reset_eq]
    exact h.withTransform h.first

theorem moves (h : v.IsAnchored extent start) (ordered : extent.IsOrdered)
    (moves : Relation.ReflTransGen (Move still) v v') : v'.IsAnchored extent start := by
  induction moves with
  | refl => exact h
  | tail _ last ih => exact ih.move ordered last

theorem place (v : Viewport α) (ordered : v.window.extent.IsOrdered) (bounds : Rect α) :
    (v.place (some bounds)).IsAnchored v.window.extent (v.window.placement (some bounds)) := by
  have within := ordered.contains_clamp 1
  exact ⟨rfl, rfl, within, _, rfl, within⟩

end IsAnchored

end Viewport

end TidyTree
