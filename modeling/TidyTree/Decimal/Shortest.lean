set_option autoImplicit false
set_option relaxedAutoImplicit false

/-!
# Shortest decimals

Many decimals round to one binary number. The one written is the decimal with the fewest digits
that reads back as that number, and of those the nearest to it; of two equally near ones the
larger. The search runs over decimal grids from coarse to fine in exact natural arithmetic, so the
first grid that has a point in the interval of the number gives its digits.
-/

namespace TidyTree.Decimal

structure Binary where
  mantissa : Nat
  exponent : Int
  /-- The next smaller number is half as far away as the next larger one. -/
  narrowBelow : Bool
  deriving DecidableEq, Repr

structure Shortest where
  digits : Nat
  exponent : Int
  deriving DecidableEq, Repr

def Binary.ofBits (bits : UInt64) : Binary :=
  let biased := ((bits >>> 52) &&& 0x7FF).toNat
  let fraction := (bits &&& 0xFFFFFFFFFFFFF).toNat
  if biased = 0 then ⟨fraction, -1074, false⟩
  else ⟨Nat.pow 2 52 + fraction, (biased : Int) - 1075, fraction == 0 && biased > 1⟩

namespace Binary

/-- A quarter of the unit in the last place is the common measure of a number and of the ends of
its interval. On the grid of step `10^g`, `multiple x g k / step x g` is `k` of these quarters. -/
def multiple (x : Binary) (g : Int) (k : Nat) : Nat :=
  k * Nat.pow 2 (x.exponent - 2).toNat * Nat.pow 10 (-g).toNat

def step (x : Binary) (g : Int) : Nat :=
  Nat.pow 10 g.toNat * Nat.pow 2 (2 - x.exponent).toNat

/-- The decimal `c · 10^g` lies in the interval of values that round to `x`. The ends belong to it
when the mantissa is even. -/
def readsBack (x : Binary) (g : Int) (c : Nat) : Bool :=
  let point := c * x.step g
  let low := x.multiple g (if x.narrowBelow then 4 * x.mantissa - 1 else 4 * x.mantissa - 2)
  let high := x.multiple g (4 * x.mantissa + 2)
  if x.mantissa % 2 = 0 then low ≤ point && point ≤ high else low < point && point < high

/-- The nearest point of the grid of step `10^g` that reads back as `x`, if there is one: it is one
of the two neighbours of `x` on the grid, the upper one on a tie. -/
def onGrid? (x : Binary) (g : Int) : Option Shortest :=
  let value := x.multiple g (4 * x.mantissa)
  let below := value / x.step g
  match x.readsBack g below, x.readsBack g (below + 1) with
  | false, false => none
  | true, false => some ⟨below, g⟩
  | false, true => some ⟨below + 1, g⟩
  | true, true => if 2 * value < (2 * below + 1) * x.step g then some ⟨below, g⟩ else some ⟨below + 1, g⟩

def scaleAbove (x : Binary) : Int :=
  ((Nat.log2 x.mantissa : Int) + x.exponent + 1) * 30103 / 100000 + 1

def exact (x : Binary) : Shortest :=
  ⟨x.mantissa * Nat.pow 2 x.exponent.toNat * Nat.pow 5 (-x.exponent).toNat, min x.exponent 0⟩

def search (x : Binary) (g : Int) : Nat → Shortest
  | 0 => x.exact
  | n + 1 => (x.onGrid? g).getD (x.search (g - 1) n)

/-- The decimal with the fewest digits that reads back as `x`, and of those the nearest. -/
def shortest (x : Binary) : Shortest := x.search x.scaleAbove 20

end Binary

namespace Shortest

def positional (d : Shortest) : String :=
  let digits := Nat.toDigits 10 d.digits
  let places := (-d.exponent).toNat
  if places = 0 then String.ofList (digits ++ List.replicate d.exponent.toNat '0')
  else if places < digits.length then
    String.ofList (digits.take (digits.length - places) ++ '.' :: digits.drop (digits.length - places))
  else String.ofList ('0' :: '.' :: List.replicate (places - digits.length) '0' ++ digits)

end Shortest

/-- The text of a double-precision number: its shortest decimal in positional digits behind its
sign. Zero keeps its sign, and no decimal is written for what is infinite or not a number. -/
def ofFloat (x : Float) : String :=
  if x.isNaN then "NaN"
  else
    let sign := if x.toBits >>> 63 = 1 then "-" else ""
    if x.isInf then sign ++ "inf"
    else if x == 0.0 then sign ++ "0"
    else sign ++ (Binary.ofBits (x.toBits &&& 0x7FFFFFFFFFFFFFFF)).shortest.positional

end TidyTree.Decimal
