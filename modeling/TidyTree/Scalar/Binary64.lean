import TidyTree.Scalar

set_option autoImplicit false
set_option relaxedAutoImplicit false

namespace TidyTree.Scalar.Binary64

def wholeFrom : Float := 4503599627370496.0

/-- The least whole number that is not below `x`, with the sign of `x`; what is infinite or not a
number stays. -/
def ceil (x : Float) : Float :=
  if x > 0.0 && x < wholeFrom then
    let whole := x.toUInt64.toFloat
    if whole < x then whole + 1.0 else whole
  else if x < 0.0 && x > -wholeFrom then
    -((-x).toUInt64.toFloat)
  else x

/-- The length of `(x, y)` for `0 ≤ y ≤ x` whose squares neither overflow nor underflow: the root
of the sum of squares, with its rounding error taken off once. -/
def hypotKernel (x y : Float) : Float :=
  let h := (x * x + y * y).sqrt
  let excess :=
    if h ≤ 2.0 * y then
      let delta := h - y
      x * (2.0 * delta - x) + (delta - 2.0 * (x - y)) * delta
    else
      let delta := h - x
      2.0 * delta * (x - 2.0 * y) + ((4.0 * delta - y) * y + delta * delta)
  h - excess / (2.0 * h)

def twoTo (e : Int) : Float := Float.ofBits (((e + 1023).toNat.toUInt64) <<< 52)

/-- The length of the vector `(x, y)`: infinite when a side is, whatever the other side. -/
def hypot (x y : Float) : Float :=
  if x.isInf || y.isInf then 1.0 / 0.0
  else if x.isNaN || y.isNaN then 0.0 / 0.0
  else
    let x := x.abs
    let y := y.abs
    let long := if x < y then y else x
    let short := if x < y then x else y
    if long > twoTo 511 then
      if short ≤ long * twoTo (-54) then long + short
      else hypotKernel (long * twoTo (-600)) (short * twoTo (-600)) / twoTo (-600)
    else if short < twoTo (-459) then
      if long ≥ short / twoTo (-54) then long + short
      else hypotKernel (long / twoTo (-600)) (short / twoTo (-600)) * twoTo (-600)
    else if short ≤ long * twoTo (-54) then long + short
    else hypotKernel long short

/-- The digits of a number whose value is beyond every power of ten in range decide nothing. -/
def exponentBound : Nat := 400

/-- The number nearest to `digits · 10^e` (`10^-e` when `negative`). Exponents far outside the range
give zero or infinity at once. -/
def ofScientific (digits : Nat) (negative : Bool) (e : Nat) : Float :=
  if digits = 0 then 0.0
  else if negative then
    if e > exponentBound + Nat.log2 digits + 1 then 0.0 else Float.ofScientific digits true e
  else
    if e > exponentBound then 1.0 / 0.0 else Float.ofScientific digits false e

instance : Scalar Float where
  decideLT := inferInstance
  decideLE := inferInstance
  natCast := Float.ofNat
  ofScientific := ofScientific
  isFinite := Float.isFinite
  ceil := ceil
  isWithin dx dy r := decide (hypot dx dy ≤ r)
  isBeyond dx dy r := decide (hypot dx dy > r)

instance : PowTwo Float := ⟨Float.exp2⟩

end TidyTree.Scalar.Binary64
