import TidyTree.Look.Color
import TidyTree.Text.Utf8

set_option autoImplicit false
set_option relaxedAutoImplicit false

/-!
# Packed colours

A colour as one word, red in the highest byte and alpha in the lowest. Its text is written from the
word, and read from the bytes of a text: their number tells how many channels there are, and each
channel is a numeral that stands at a fixed position.
-/

namespace TidyTree.Color

def toWord (c : Color) : UInt32 :=
  c.red.toUInt32 <<< 24 ||| c.green.toUInt32 <<< 16 ||| c.blue.toUInt32 <<< 8 ||| c.alpha.toUInt32

def padded (width n : Nat) : List Char :=
  let digits := Nat.toDigits 16 n
  List.replicate (width - digits.length) '0' ++ digits

/-- The text of a word: a numeral for each channel but alpha if that is full, else one numeral. -/
def wordText (w : UInt32) : List Char :=
  let c := ofWord w
  '#' ::
    if c.alpha = 255 then
      padded 2 c.red.toNat ++ padded 2 c.green.toNat ++ padded 2 c.blue.toNat
    else padded 8 w.toNat

def appendDigit? (n digit : UInt8) : Option UInt8 := do
  let value ← hexValue? (Char.ofUInt8 digit)
  let next := n.toNat * 16 + value.toNat
  if next < 256 then some next.toUInt8 else none

/-- The number of a hexadecimal numeral. There may be a plus in front of the digits. -/
def number? : List UInt8 → Option UInt8
  | [] => none
  | b :: bs =>
    let digits := if b.toNat = '+'.toNat ∧ bs ≠ [] then bs else b :: bs
    digits.foldlM appendDigit? 0

def readBytes? (bytes : List UInt8) : Option UInt32 :=
  let numeral? (position size : Nat) := (Text.slice? bytes position size).bind number?
  match bytes.length with
  | 3 => do
    let r ← numeral? 0 1
    let g ← numeral? 1 1
    let b ← numeral? 2 1
    return (solid (r * 17) (g * 17) (b * 17)).toWord
  | 6 => do
    let r ← numeral? 0 2
    let g ← numeral? 2 2
    let b ← numeral? 4 2
    return (solid r g b).toWord
  | 8 => do
    let r ← numeral? 0 2
    let g ← numeral? 2 2
    let b ← numeral? 4 2
    let a ← numeral? 6 2
    return toWord ⟨r, g, b, a⟩
  | _ => none

/-- The word of a hexadecimal text, with blanks around it or not. -/
def readWord? (text : List Char) : Option UInt32 :=
  match Text.trim text with
  | '#' :: body => readBytes? (Text.utf8 body)
  | _ => none

end TidyTree.Color
