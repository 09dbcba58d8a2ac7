set_option autoImplicit false
set_option relaxedAutoImplicit false

/-!
# The arithmetic of a drawing

Every coordinate, width, scale and opacity of a diagram is a value of one scalar type. A scalar has
the four operations, comparisons that may all fail on a value that is not a number, a ceiling, and
two tests of a vector's length. Binary floating point is one such arithmetic (it is what runs) and
the exact rationals are another (there the geometry is exact).
-/

namespace TidyTree

/-- The arithmetic that a drawing is computed in. Nothing is assumed of the comparisons, so a value
that is not a number may fail all of them. -/
class Scalar (α : Type) extends Add α, Sub α, Mul α, Div α, Neg α, LT α, LE α, BEq α, NatCast α,
    OfScientific α where
  decideLT : DecidableLT α
  decideLE : DecidableLE α
  /-- Neither infinite nor undefined. -/
  isFinite : α → Bool
  /-- The least whole value that is not below the argument. -/
  ceil : α → α
  /-- `isWithin dx dy r`: the vector `(dx, dy)` is at most `r` long. -/
  isWithin : α → α → α → Bool
  /-- `isBeyond dx dy r`: the vector `(dx, dy)` is longer than `r`. -/
  isBeyond : α → α → α → Bool

namespace Scalar

variable {α : Type} [Scalar α]

instance : DecidableLT α := decideLT

instance : DecidableLE α := decideLE

instance instOfNat (n : Nat) : OfNat α n := ⟨(n : α)⟩

/-- Not a number: the only value that differs from itself. -/
def isNaN (x : α) : Bool := !(x == x)

/-- The larger of two values, the second of two equal ones; a value that is not a number gives way
to the other. -/
def max (x y : α) : α :=
  if isNaN x then y else if isNaN y then x else if y < x then x else y

def min (x y : α) : α :=
  if isNaN x then y else if isNaN y then x else if x < y then x else y

/-- The nearest value of the closed interval from 0 to 1; a value that is not a number stays. -/
def toUnit (x : α) : α :=
  if x < 0 then 0 else if 1 < x then 1 else x

end Scalar

class PowTwo (α : Type) where
  powTwo : α → α

end TidyTree
