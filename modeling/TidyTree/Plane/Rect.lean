import TidyTree.Plane.Point

set_option autoImplicit false
set_option relaxedAutoImplicit false

namespace TidyTree

/-- A rectangle whose top left corner is `(x, y)`. -/
structure Rect (α : Type) where
  x : α
  y : α
  width : α
  height : α
  deriving DecidableEq, Repr

namespace Rect

variable {α : Type} [Scalar α]

def around (center : Point α) (size : Size α) : Rect α :=
  ⟨center.x - size.width / 2, center.y - size.height / 2, size.width, size.height⟩

/-- The rectangle between two vertical and two horizontal lines, each pair in either order. -/
def between (left top right bottom : α) : Rect α :=
  let (l, r) := if left ≤ right then (left, right) else (right, left)
  let (t, b) := if top ≤ bottom then (top, bottom) else (bottom, top)
  ⟨l, t, r - l, b - t⟩

def left (r : Rect α) : α := r.x

def top (r : Rect α) : α := r.y

def right (r : Rect α) : α := r.x + r.width

def bottom (r : Rect α) : α := r.y + r.height

def center (r : Rect α) : Point α := ⟨r.x + r.width / 2, r.y + r.height / 2⟩

def size (r : Rect α) : Size α := ⟨r.width, r.height⟩

/-- The point lies inside or on the edge. -/
def contains (r : Rect α) (p : Point α) : Bool :=
  p.x ≥ r.left && p.x ≤ r.right && p.y ≥ r.top && p.y ≤ r.bottom

/-- The insides of two rectangles meet; a common edge is not enough. -/
def intersects (r s : Rect α) : Bool :=
  r.left < s.right && r.right > s.left && r.top < s.bottom && r.bottom > s.top

def union (r s : Rect α) : Rect α :=
  between (Scalar.min r.left s.left) (Scalar.min r.top s.top) (Scalar.max r.right s.right)
    (Scalar.max r.bottom s.bottom)

/-- The rectangle with each side moved outward by a length, down to an empty one. -/
def outset (r : Rect α) (s : Sides α) : Rect α :=
  ⟨r.x - s.left, r.y - s.top, Scalar.max (r.width + s.horizontal) 0,
    Scalar.max (r.height + s.vertical) 0⟩

def hull? : List (Rect α) → Option (Rect α)
  | [] => none
  | r :: rs => some (rs.foldl union r)

end Rect

end TidyTree
