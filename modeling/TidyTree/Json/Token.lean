import TidyTree.Json.Quoted
import TidyTree.Decimal.Numeral

set_option autoImplicit false
set_option relaxedAutoImplicit false

namespace TidyTree.Json

def isSpace (c : Char) : Bool := c = ' ' || c = '\x0a' || c = '\x09' || c = '\x0d'

def skipSpace (cs : List Char) : List Char := cs.dropWhile isSpace

def expect : List Char → List Char → Except Fault (List Char)
  | [], cs => .ok cs
  | _ :: _, [] => .error .truncated
  | n :: ns, c :: cs => if n = c then expect ns cs else .error .malformed

def maxSignificand : Nat := 18446744073709551615

/-- Extend a significand by digits while it fits; also the digits that did not fit. -/
def extend (significand : Nat) : List Char → Nat × List Char
  | [] => (significand, [])
  | d :: ds =>
    let next := 10 * significand + Decimal.digitValue d
    if next ≤ maxSignificand then extend next ds else (significand, d :: ds)

/-- The number that whole digits, fraction digits and an exponent denote is finite in double
precision. Of the digits only those count that fit the significand. -/
def inRange (whole fraction : List Char) (exponent : Int) : Bool :=
  let (significand, surplus) := extend 0 whole
  let (significand, rest) := extend significand fraction
  let scale := (surplus.length : Int) - (fraction.length - rest.length : Nat) + exponent
  significand = 0 || scale < 0 ||
    (scale ≤ 308 &&
      ((Float.ofNat significand) * Scalar.Binary64.ofScientific 1 false scale.natAbs).isFinite)

def numberTail (whole fraction : List Char) : List Char → Except Fault Unit
  | [] => if inRange whole fraction 0 then .ok () else .error .malformed
  | c :: cs =>
    if c = 'e' || c = 'E' then
      let (negative, body) := Decimal.splitSign cs
      match body with
      | [] => .error .truncated
      | d :: _ =>
        if d.isDigit then
          let power : Int := Decimal.spelled (body.takeWhile Char.isDigit)
          if inRange whole fraction (if negative then -power else power) then .ok ()
          else .error .malformed
        else .error .malformed
    else if inRange whole fraction 0 then .ok () else .error .malformed

def checkNumber (cs : List Char) : Except Fault Unit :=
  match cs with
  | [] => .error .truncated
  | c :: _ =>
    if !c.isDigit then .error .malformed
    else
      let whole := if c = '0' then ['0'] else cs.takeWhile Char.isDigit
      match cs.drop whole.length with
      | [] => numberTail whole [] []
      | '.' :: rest =>
        let fraction := rest.takeWhile Char.isDigit
        if fraction.isEmpty then .error (if rest.isEmpty then .truncated else .malformed)
        else numberTail whole fraction (rest.dropWhile Char.isDigit)
      | d :: rest => if c = '0' && d.isDigit then .error .malformed else numberTail whole [] (d :: rest)

/-- The fault of a value that stands where another kind of value is asked for. A scalar is read
first, so a fault inside it comes before the mismatch. -/
def mismatch (cs : List Char) : Fault :=
  let fault {β : Type} (r : Except Fault β) : Fault :=
    match r with
    | .ok _ => .mismatched
    | .error e => e
  match cs with
  | [] => .truncated
  | c :: rest =>
    if c = 'n' then fault (expect ['u', 'l', 'l'] rest)
    else if c = 't' then fault (expect ['r', 'u', 'e'] rest)
    else if c = 'f' then fault (expect ['a', 'l', 's', 'e'] rest)
    else if c = '-' then fault (checkNumber rest)
    else if c.isDigit then fault (checkNumber (c :: rest))
    else if c = '"' then fault (readQuoted .plain rest)
    else if c = '[' || c = '\x7b' then .mismatched
    else .malformed

end TidyTree.Json
