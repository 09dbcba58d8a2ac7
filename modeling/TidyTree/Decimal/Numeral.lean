import TidyTree.Scalar
import TidyTree.Scalar.Binary64

set_option autoImplicit false
set_option relaxedAutoImplicit false

namespace TidyTree.Decimal

inductive Numeral where
  | undefined
  | infinite (negative : Bool)
  /-- The value `digits · 10^exponent` behind its sign. -/
  | finite (negative : Bool) (digits : Nat) (exponent : Int)
  deriving DecidableEq, Repr

def digitValue (c : Char) : Nat := c.toNat - '0'.toNat

def spelled (ds : List Char) : Nat := ds.foldl (fun n d => 10 * n + digitValue d) 0

/-- A non-empty row of decimal digits as a number. -/
def digits? (cs : List Char) : Option Nat :=
  if cs.isEmpty || !cs.all Char.isDigit then none else some (spelled cs)

/-- Take an optional sign off the front; `true` stands for minus. -/
def splitSign : List Char → Bool × List Char
  | '-' :: cs => (true, cs)
  | '+' :: cs => (false, cs)
  | cs => (false, cs)

def exponent? : List Char → Option Int
  | [] => some 0
  | e :: cs =>
    if e = 'e' || e = 'E' then
      let (negative, ds) := splitSign cs
      (digits? ds).map fun n => if negative then -(n : Int) else n
    else none

/-- Digits with at most one point, then an exponent. -/
def finite? (negative : Bool) (cs : List Char) : Option Numeral :=
  let whole := cs.takeWhile Char.isDigit
  let (fraction, rest) :=
    match cs.dropWhile Char.isDigit with
    | '.' :: more => (more.takeWhile Char.isDigit, more.dropWhile Char.isDigit)
    | more => ([], more)
  if whole.isEmpty && fraction.isEmpty then none
  else (exponent? rest).map fun e => .finite negative (spelled (whole ++ fraction)) (e - fraction.length)

def Numeral.read? (cs : List Char) : Option Numeral :=
  let (negative, body) := splitSign cs
  let name := body.map Char.toLower
  if name = ['n', 'a', 'n'] then some .undefined
  else if name = ['i', 'n', 'f'] || name = ['i', 'n', 'f', 'i', 'n', 'i', 't', 'y'] then
    some (.infinite negative)
  else finite? negative body

/-- The scalar that `digits · 10^exponent` denotes, behind its sign. -/
def scalarOf {α : Type} [Scalar α] (negative : Bool) (digits : Nat) (exponent : Int) : α :=
  let magnitude : α := OfScientific.ofScientific digits (exponent < 0) exponent.natAbs
  if negative then -magnitude else magnitude

def Numeral.toFinite? {α : Type} [Scalar α] : Numeral → Option α
  | .finite negative digits exponent =>
    let value : α := scalarOf negative digits exponent
    if Scalar.isFinite value then some value else none
  | _ => none

def Numeral.toFloat : Numeral → Float
  | .undefined => 0.0 / 0.0
  | .infinite negative => if negative then -1.0 / 0.0 else 1.0 / 0.0
  | .finite negative digits exponent => scalarOf negative digits exponent

/-- A whole numeral below `bound`: digits behind an optional plus. -/
def whole? (bound : Nat) (cs : List Char) : Option Nat :=
  let ds := match cs with
    | '+' :: more => more
    | more => more
  (digits? ds).filter (· < bound)

end TidyTree.Decimal
