import TidyTree.Layout.Sizing
import TidyTree.Look.Theme
import TidyTree.Motion.Duration
import TidyTree.Screen.Viewport
import TidyTree.Tooltip.Basic

set_option autoImplicit false
set_option relaxedAutoImplicit false

namespace TidyTree

structure Settings (α : Type) where
  sizing : Sizing α
  /-- How long an animated change takes. -/
  animation : Duration
  /-- The window until the diagram is told of its size. -/
  window : Window α
  /-- The wheel zooms only while the control key is held. -/
  zoomRequiresCtrl : Bool
  /-- The farthest that a click may go from its start. -/
  clickDistance : α
  tooltip : TooltipStyle α
  theme : Theme
  deriving DecidableEq, Repr

variable {α : Type} [Scalar α]

namespace Settings

def standard : Settings α where
  sizing := .standard
  animation := .ofMillis 750
  window := .standard
  zoomRequiresCtrl := false
  clickDistance := 3
  tooltip := .standard
  theme := .light

instance : Inhabited (Settings α) := ⟨standard⟩

def withFont (s : Settings α) (f : Font α → Font α) : Settings α :=
  { s with sizing := { s.sizing with font := f s.sizing.font } }

def withExtent (s : Settings α) (f : ScaleExtent α → ScaleExtent α) : Settings α :=
  { s with window := { s.window with extent := f s.window.extent } }

end Settings

end TidyTree
