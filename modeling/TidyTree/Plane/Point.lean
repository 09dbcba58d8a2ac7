import TidyTree.Scalar

set_option autoImplicit false
set_option relaxedAutoImplicit false

namespace TidyTree

/-- A place in the plane: of the drawing, or of the screen with `y` growing downward. -/
structure Point (α : Type) where
  x : α
  y : α
  deriving DecidableEq, Repr

structure Size (α : Type) where
  width : α
  height : α
  deriving DecidableEq, Repr

structure Sides (α : Type) where
  top : α
  right : α
  bottom : α
  left : α
  deriving DecidableEq, Repr

variable {α : Type} [Scalar α]

namespace Point

def origin : Point α := ⟨0, 0⟩

def add (p q : Point α) : Point α := ⟨p.x + q.x, p.y + q.y⟩

def sub (p q : Point α) : Point α := ⟨p.x - q.x, p.y - q.y⟩

def isWithin (p q : Point α) (r : α) : Bool := Scalar.isWithin (q.x - p.x) (q.y - p.y) r

def isBeyond (p q : Point α) (r : α) : Bool := Scalar.isBeyond (q.x - p.x) (q.y - p.y) r

def beq (p q : Point α) : Bool := p.x == q.x && p.y == q.y

instance : BEq (Point α) := ⟨beq⟩

end Point

namespace Size

def isEmpty (s : Size α) : Bool := !(s.width > 0 && s.height > 0)

/-- Replace each side that is not positive by that of `other`. -/
def orElse (s other : Size α) : Size α :=
  ⟨if s.width > 0 then s.width else other.width, if s.height > 0 then s.height else other.height⟩

end Size

namespace Sides

def all (length : α) : Sides α := ⟨length, length, length, length⟩

def symmetric (vertical horizontal : α) : Sides α := ⟨vertical, horizontal, vertical, horizontal⟩

def horizontal (s : Sides α) : α := s.left + s.right

def vertical (s : Sides α) : α := s.top + s.bottom

end Sides

end TidyTree
