import TidyTree.Plane.Rect

set_option autoImplicit false
set_option relaxedAutoImplicit false

namespace TidyTree

/-- A scaling with a shift behind it. -/
structure Transform (α : Type) where
  shiftX : α
  shiftY : α
  scale : α
  deriving DecidableEq, Repr

structure ScaleExtent (α : Type) where
  min : α
  max : α
  deriving DecidableEq, Repr

variable {α : Type} [Scalar α]

namespace Transform

def identity : Transform α := ⟨0, 0, 1⟩

def apply (t : Transform α) (world : Point α) : Point α :=
  ⟨world.x * t.scale + t.shiftX, world.y * t.scale + t.shiftY⟩

def invert (t : Transform α) (screen : Point α) : Point α :=
  ⟨(screen.x - t.shiftX) / t.scale, (screen.y - t.shiftY) / t.scale⟩

end Transform

namespace ScaleExtent

def standard : ScaleExtent α := ⟨0.1, 4⟩

/-- The scale of the extent that is nearest to another. The upper end wins over the lower one, and a
value that is not a number becomes the lesser end. -/
def clamp (e : ScaleExtent α) (scale : α) : α :=
  if Scalar.isNaN scale then Scalar.min e.min e.max
  else Scalar.min (Scalar.max scale e.min) e.max

def contains (e : ScaleExtent α) (scale : α) : Bool := scale ≥ e.min && scale ≤ e.max

end ScaleExtent

end TidyTree
