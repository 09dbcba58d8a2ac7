import TidyTree.Decimal.Numeral
import TidyTree.Settings.Check

set_option autoImplicit false
set_option relaxedAutoImplicit false

/-!
# Settings from the environment

Nine variables of the environment override a field each. A text that cannot be read leaves the field
as it is, and a field with a problem gets its standard value back, so the settings are always in
order. All that went wrong is reported.
-/

namespace TidyTree

inductive Variable where
  | animation
  | minScale
  | maxScale
  | fontSize
  | fontFamily
  | zoomRequiresCtrl
  | theme
  | rowSpacing
  | minColumnWidth
  deriving DecidableEq, Repr

namespace Variable

def all : List Variable :=
  [animation, minScale, maxScale, fontSize, fontFamily, zoomRequiresCtrl, theme, rowSpacing,
    minColumnWidth]

def name : Variable → String
  | animation => "FTREE_ANIMATION_MS"
  | minScale => "FTREE_MIN_SCALE"
  | maxScale => "FTREE_MAX_SCALE"
  | fontSize => "FTREE_FONT_SIZE"
  | fontFamily => "FTREE_FONT_FAMILY"
  | zoomRequiresCtrl => "FTREE_ZOOM_REQUIRES_CTRL"
  | theme => "FTREE_THEME"
  | rowSpacing => "FTREE_ROW_SPACING"
  | minColumnWidth => "FTREE_MIN_COLUMN_WIDTH"

def setting : Variable → Setting
  | animation => .animation
  | minScale => .minScale
  | maxScale => .maxScale
  | fontSize => .fontSize
  | fontFamily => .fontFamily
  | zoomRequiresCtrl => .zoomRequiresCtrl
  | theme => .theme
  | rowSpacing => .rowSpacing
  | minColumnWidth => .minColumnWidth

end Variable

/-- The text of each variable that is set. -/
abbrev Environment := Variable → Option String

namespace Environment

variable {α : Type} [Scalar α]

def countBound : Nat := 18446744073709551616

def duration? (text : String) : Option Duration :=
  (Decimal.whole? countBound (Text.trim text.toList)).map .ofMillis

def number? (text : String) : Option α :=
  (Decimal.Numeral.read? (Text.trim text.toList)).bind (·.toFinite?)

/-- A text that is not all blank, without the blanks around it. -/
def family? (text : String) : Option String :=
  let trimmed := Text.trim text.toList
  if trimmed.isEmpty then none else some (String.ofList trimmed)

/-- A word for yes or no, in any mix of cases. -/
def flag? (text : String) : Option Bool :=
  let word := String.ofList (Text.lower (Text.trim text.toList))
  if ["1", "true", "yes", "on"].contains word then some true
  else if ["0", "false", "no", "off"].contains word then some false
  else none

def override? (s : Settings α) (v : Variable) (text : String) : Option (Settings α) :=
  match v with
  | .animation => (duration? text).map fun d => { s with animation := d }
  | .minScale => (number? text).map fun x => s.withExtent ({ · with min := x })
  | .maxScale => (number? text).map fun x => s.withExtent ({ · with max := x })
  | .fontSize => (number? text).map fun x => s.withFont ({ · with size := x })
  | .fontFamily => (family? text).map fun f => s.withFont ({ · with family := f })
  | .zoomRequiresCtrl => (flag? text).map fun b => { s with zoomRequiresCtrl := b }
  | .theme => (Theme.ofName? text).map fun t => { s with theme := t }
  | .rowSpacing =>
    (number? text).map fun x => { s with sizing := { s.sizing with rowSpacing := x } }
  | .minColumnWidth =>
    (number? text).map fun x => { s with sizing := { s.sizing with minColumnWidth := x } }

def takeOver (env : Environment) (s : Settings α) (v : Variable) : Settings α :=
  ((env v).bind (override? s v)).getD s

def problem? (env : Environment) (v : Variable) : Option (Problem α) := do
  let text ← env v
  if (override? (.standard : Settings α) v text).isSome then none
  else some (.unreadable v.setting text)

/-- The settings with all variables taken over, in order or not. -/
def overridden (env : Environment) : Settings α := Variable.all.foldl (takeOver env) .standard

/-- The settings of an environment: every field with a problem has its standard value. -/
def settings (env : Environment) : Settings α :=
  Settings.restored (overridden env)

def unreadable (env : Environment) : List (Problem α) := Variable.all.filterMap (problem? env)

/-- All that is wrong with an environment: what cannot be read, then what is out of order. -/
def problems (env : Environment) : List (Problem α) :=
  unreadable env ++ (overridden env : Settings α).problems

end Environment

end TidyTree
