import TidyTree.Plane.Point

set_option autoImplicit false
set_option relaxedAutoImplicit false

namespace TidyTree

/-- A course of time: it takes the share of a duration that has passed to the share of the way that
has been covered. -/
abbrev Easing (α : Type) := α → α

namespace Easing

variable {α : Type} [Scalar α]

def linear : Easing α := Scalar.toUnit

/-- Slow at both ends: a cubic up to the middle, then the same cubic reversed. -/
def cubicInOut : Easing α := fun t =>
  let t := Scalar.toUnit t
  if t < 0.5 then 4 * t * t * t
  else
    let left := -2 * t + 2
    1 - left * left * left / 2

end Easing

class Lerp (α : outParam Type) (ν : Type) where
  /-- The value at time `t` on the way from the first to the second. -/
  lerp : ν → ν → α → ν

export Lerp (lerp)

variable {α : Type} [Scalar α]

/-- The number at time `t` on the way from `a` to `b`, with exact ends. -/
def Scalar.lerp (a b t : α) : α :=
  if t ≤ 0 then a else if t ≥ 1 then b else a + (b - a) * t

instance : Lerp α α := ⟨Scalar.lerp⟩

instance : Lerp α (Point α) := ⟨fun p q t => ⟨Scalar.lerp p.x q.x t, Scalar.lerp p.y q.y t⟩⟩

end TidyTree
