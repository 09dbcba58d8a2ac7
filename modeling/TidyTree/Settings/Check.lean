import TidyTree.Decimal.Shortest
import TidyTree.Settings.Basic

set_option autoImplicit false
set_option relaxedAutoImplicit false

namespace TidyTree

/-- A field of the settings that something can be wrong with. -/
inductive Setting where
  | animation
  | minScale
  | maxScale
  | scaleExtent
  | fontSize
  | fontFamily
  | zoomRequiresCtrl
  | theme
  | rowSpacing
  | minColumnWidth
  | zoomStep
  | clickDistance
  deriving DecidableEq, Repr

namespace Setting

def name : Setting → String
  | animation => "animation"
  | minScale => "min_scale"
  | maxScale => "max_scale"
  | scaleExtent => "scale_extent"
  | fontSize => "font_size"
  | fontFamily => "font_family"
  | zoomRequiresCtrl => "zoom_requires_ctrl"
  | theme => "theme"
  | rowSpacing => "row_spacing"
  | minColumnWidth => "min_column_width"
  | zoomStep => "zoom_step"
  | clickDistance => "click_distance"

def expectation : Setting → String
  | animation => "milliseconds (non-negative integer)"
  | fontFamily => "non-empty family name"
  | zoomRequiresCtrl => "bool (1/0/true/false)"
  | theme => "light|dark"
  | _ => "number"

end Setting

inductive Problem (α : Type) where
  /-- The text of a field is not what it should be. -/
  | unreadable (setting : Setting) (text : String)
  | notPositive (setting : Setting) (value : α)
  | invertedExtent (extent : ScaleExtent α)
  /-- Rows are closer than boxes are high. -/
  | closeRows (rowSpacing : α)
  | noClickDistance (value : α)
  deriving DecidableEq, Repr

namespace Problem

def setting {α : Type} : Problem α → Setting
  | unreadable setting _ => setting
  | notPositive setting _ => setting
  | invertedExtent _ => .scaleExtent
  | closeRows _ => .rowSpacing
  | noClickDistance _ => .clickDistance

def value : Problem Float → String
  | unreadable _ text => text
  | notPositive _ value => Decimal.ofFloat value
  | invertedExtent extent =>
    "[" ++ Decimal.ofFloat extent.min ++ ", " ++ Decimal.ofFloat extent.max ++ "]"
  | closeRows rowSpacing => Decimal.ofFloat rowSpacing
  | noClickDistance value => Decimal.ofFloat value

def message {α : Type} : Problem α → String
  | unreadable setting _ => "expected " ++ setting.expectation
  | notPositive _ _ => "must be > 0"
  | invertedExtent _ => "min_scale must not exceed max_scale"
  | closeRows _ => "sibling rows closer than node_height would overlap"
  | noClickDistance _ => "must be >= 0"

def report (p : Problem Float) : String :=
  p.setting.name ++ "=" ++ p.value ++ " (" ++ p.message ++ ")"

end Problem

variable {α : Type} [Scalar α]

def Scalar.isPositive (x : α) : Bool := Scalar.isFinite x && x > 0

namespace Settings

def needPositive (setting : Setting) (value : α) : List (Problem α) :=
  if Scalar.isPositive value then [] else [.notPositive setting value]

/-- Neighbouring rows are closer than boxes are high. -/
def hasCloseRows (s : Settings α) : Bool :=
  s.sizing.rowSpacing * s.sizing.siblingSeparation < s.sizing.boxHeight

/-- The click distance is negative or not a number. -/
def hasNoClickDistance (s : Settings α) : Bool :=
  Scalar.isNaN s.clickDistance || s.clickDistance < 0

def problems (s : Settings α) : List (Problem α) :=
  needPositive .minScale s.window.extent.min ++
  needPositive .maxScale s.window.extent.max ++
  (if s.window.extent.min > s.window.extent.max then [.invertedExtent s.window.extent] else []) ++
  needPositive .fontSize s.sizing.font.size ++
  needPositive .rowSpacing s.sizing.rowSpacing ++
  needPositive .minColumnWidth s.sizing.minColumnWidth ++
  needPositive .zoomStep s.window.zoomStep ++
  (if s.hasCloseRows then [.closeRows s.sizing.rowSpacing] else []) ++
  (if s.hasNoClickDistance then [.noClickDistance s.clickDistance] else [])

def isValid (s : Settings α) : Bool := s.problems.isEmpty

/-- Put the standard value back into a field that can be out of order. Both ends of the extent are
put back together. -/
def restore (s : Settings α) : Setting → Settings α
  | .minScale | .maxScale | .scaleExtent => s.withExtent fun _ => standard.window.extent
  | .fontSize => s.withFont fun f => { f with size := standard.sizing.font.size }
  | .rowSpacing => { s with sizing := { s.sizing with rowSpacing := standard.sizing.rowSpacing } }
  | .minColumnWidth =>
    { s with sizing := { s.sizing with minColumnWidth := standard.sizing.minColumnWidth } }
  | .zoomStep => { s with window := { s.window with zoomStep := standard.window.zoomStep } }
  | .clickDistance => { s with clickDistance := standard.clickDistance }
  | .animation | .fontFamily | .zoomRequiresCtrl | .theme => s

def restored (s : Settings α) : Settings α := s.problems.foldl (fun s p => s.restore p.setting) s

end Settings

end TidyTree
