import TidyTree.Scalar
import TidyTree.Decimal.Shortest
import TidyTree.Text.Columns

set_option autoImplicit false
set_option relaxedAutoImplicit false

namespace TidyTree

structure Font (α : Type) where
  size : α
  family : String
  deriving DecidableEq, Repr

inductive MeasureError (α : Type) where
  /-- The width is negative, infinite or not a number. -/
  | invalidWidth (width : α)
  /-- The font size is not positive and finite. -/
  | invalidFontSize (size : α)
  | unavailable (reason : String)
  deriving DecidableEq, Repr

def MeasureError.message : MeasureError Float → String
  | invalidWidth width => "measured width " ++ Decimal.ofFloat width ++ " is not a valid length"
  | invalidFontSize size => "font size " ++ Decimal.ofFloat size ++ " is not a valid length"
  | unavailable reason => "text measurement unavailable: " ++ reason

/-- A way to measure texts, which may change its state. -/
structure Metrics (σ α : Type) where
  measure : String → Font α → σ → Except (MeasureError α) α × σ

namespace Metrics

variable {σ α : Type} [Scalar α]

def ofFunction (f : String → Font α → Except (MeasureError α) α) : Metrics Unit α :=
  ⟨fun text font s => (f text font, s)⟩

/-- The answers of the metrics are those of a function of text and font, whatever its state. -/
def Answers (m : Metrics σ α) (f : String → Font α → Except (MeasureError α) α) : Prop :=
  ∀ text font s, (m.measure text font s).1 = f text font

def isLength (width : α) : Bool := Scalar.isFinite width && width ≥ 0

def fixed (advance : α) : Metrics Unit α :=
  ofFunction fun text _ => .ok ((text.length : α) * advance)

/-- Every column of a text is as wide as a share of the font size. -/
def monospace (ratio : α) : Metrics Unit α :=
  ofFunction fun text font =>
    if !(Scalar.isFinite font.size && font.size > 0) then .error (.invalidFontSize font.size)
    else
      let width := (Text.columns text.toList : α) * ratio * font.size
      if isLength width then .ok width else .error (.invalidWidth width)

/-- The width of a text, or a fallback where there is none or it is no length. -/
def widthOr (m : Metrics σ α) (fallback : α) (font : Font α) (text : String) (s : σ) : α × σ :=
  match m.measure text font s with
  | (.ok width, s) => (if isLength width then width else fallback, s)
  | (.error _, s) => (fallback, s)

def widthsOr (m : Metrics σ α) (fallback : α) (font : Font α) : List String → σ → List α × σ
  | [], s => ([], s)
  | text :: texts, s =>
    let (width, s) := m.widthOr fallback font text s
    let (widths, s) := m.widthsOr fallback font texts s
    (width :: widths, s)

end Metrics

end TidyTree
