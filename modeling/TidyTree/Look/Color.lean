import TidyTree.Scalar.Binary64
import TidyTree.Text.Blank

set_option autoImplicit false
set_option relaxedAutoImplicit false

namespace TidyTree

/-- Red, green, blue and straight alpha. -/
structure Color where
  red : UInt8
  green : UInt8
  blue : UInt8
  alpha : UInt8
  deriving DecidableEq, Repr

namespace Color

def solid (red green blue : UInt8) : Color := ⟨red, green, blue, 255⟩

/-- The colour whose channels are the four bytes of a word, red in the highest. -/
def ofWord (w : UInt32) : Color :=
  ⟨(w >>> 24).toUInt8, (w >>> 16).toUInt8, (w >>> 8).toUInt8, w.toUInt8⟩

/-- The colour with its alpha channel scaled by an opacity, taken into the interval from 0 to 1 and
rounded to the nearest byte, halves upward. -/
def withOpacity (c : Color) (opacity : Float) : Color :=
  let scaled := c.alpha.toNat.toFloat * Scalar.toUnit opacity
  let whole := scaled.toUInt8
  let rest := scaled - whole.toNat.toFloat
  { c with alpha := if rest ≥ 0.5 then whole + 1 else whole }

def hexDigit (n : Nat) : Char := Nat.digitChar (n % 16)

def hexPair (b : UInt8) : List Char := [hexDigit (b.toNat / 16), hexDigit b.toNat]

def hexText (c : Color) : List Char :=
  '#' :: (hexPair c.red ++ hexPair c.green ++ hexPair c.blue ++
    if c.alpha = 255 then [] else hexPair c.alpha)

def hexValue? (c : Char) : Option UInt8 :=
  let n := c.toNat
  if 48 ≤ n ∧ n ≤ 57 then some (n - 48).toUInt8
  else if 97 ≤ n ∧ n ≤ 102 then some (n - 87).toUInt8
  else if 65 ≤ n ∧ n ≤ 70 then some (n - 55).toUInt8
  else none

/-- The byte that two characters spell: two hexadecimal digits, or a plus and one digit. -/
def byte? (high low : Char) : Option UInt8 :=
  if high = '+' then hexValue? low
  else do
    let h ← hexValue? high
    let l ← hexValue? low
    return h * 16 + l

/-- The colour of a hexadecimal text behind its number sign: a digit for each of three channels, or
two characters for each of three or four. -/
def ofHexBody? : List Char → Option Color
  | [r, g, b] => do
    let r ← hexValue? r
    let g ← hexValue? g
    let b ← hexValue? b
    return solid (r * 17) (g * 17) (b * 17)
  | [r1, r0, g1, g0, b1, b0] => do
    let r ← byte? r1 r0
    let g ← byte? g1 g0
    let b ← byte? b1 b0
    return solid r g b
  | [r1, r0, g1, g0, b1, b0, a1, a0] => do
    let r ← byte? r1 r0
    let g ← byte? g1 g0
    let b ← byte? b1 b0
    let a ← byte? a1 a0
    return ⟨r, g, b, a⟩
  | _ => none

/-- The colour of a hexadecimal text, with blanks around it or not. -/
def ofHex? (text : List Char) : Option Color :=
  match Text.trim text with
  | '#' :: body => ofHexBody? body
  | _ => none

end Color

end TidyTree
