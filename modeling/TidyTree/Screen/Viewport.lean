import TidyTree.Screen.Transform

set_option autoImplicit false
set_option relaxedAutoImplicit false

/-!
# The viewport

A viewport is the window through which a diagram is seen. It has no transform until a diagram is
placed in it; from then on panning and zooming change the transform and a change of the window's
size does not. The first transform is kept, so the view can be reset.
-/

namespace TidyTree

structure Window (α : Type) where
  extent : ScaleExtent α
  margins : Sides α
  /-- The room left of the diagram inside the margins, when it is placed. -/
  inset : α
  /-- What one zoom step adds to the scale. -/
  zoomStep : α
  container : Size α
  deriving DecidableEq, Repr

/-- A window with the transform of the diagram in it. -/
structure Viewport (α : Type) where
  window : Window α
  transform? : Option (Transform α)
  /-- The transform with which the diagram was placed. -/
  initial? : Option (Transform α)
  deriving DecidableEq, Repr

variable {α : Type} [Scalar α]

namespace Window

def standard : Window α := ⟨.standard, ⟨20, 40, 20, 40⟩, 20, 0.2, ⟨1000, 600⟩⟩

def center (w : Window α) : Point α := ⟨w.container.width / 2, w.container.height / 2⟩

/-- The transform that places a diagram of given bounds: its left side behind the left margin and
the inset, its middle in the middle between the margins above and below. -/
def placement (w : Window α) : Option (Rect α) → Transform α
  | none => ⟨w.margins.left + w.inset, w.margins.top, 1⟩
  | some bounds =>
    let room := w.container.height - w.margins.vertical
    ⟨w.margins.left + w.inset - bounds.left,
      w.margins.top + (room - bounds.height) / 2 - bounds.top,
      w.extent.clamp 1⟩

end Window

namespace Viewport

def ofWindow (w : Window α) : Viewport α := ⟨w, none, none⟩

instance : Inhabited (Viewport α) := ⟨ofWindow .standard⟩

/-- The transform of the diagram, or the identity when there is none. -/
def transform (v : Viewport α) : Transform α := v.transform?.getD .identity

def withTransform (v : Viewport α) (t : Transform α) : Viewport α := { v with transform? := some t }

def place (v : Viewport α) (bounds : Option (Rect α)) : Viewport α :=
  let t := v.window.placement bounds
  { v with transform? := some t, initial? := some t }

/-- Go on with a transform, or place the diagram where there is none to go on with. -/
def resume (v : Viewport α) (previous : Option (Transform α)) (bounds : Option (Rect α)) :
    Viewport α :=
  match previous with
  | some t => v.withTransform t
  | none => v.place bounds

/-- Take over a transform with its scale clamped, unless its shift is not finite. -/
def set (v : Viewport α) (t : Transform α) : Viewport α :=
  if Scalar.isFinite t.shiftX && Scalar.isFinite t.shiftY then
    v.withTransform { t with scale := v.window.extent.clamp t.scale }
  else v

def clear (v : Viewport α) : Viewport α := { v with transform? := none, initial? := none }

def reset (v : Viewport α) : Viewport α :=
  match v.initial? with
  | some t => v.withTransform t
  | none => v

def resize (v : Viewport α) (container : Size α) : Viewport α :=
  { v with window := { v.window with container } }

/-- Shift the diagram on the screen, unless the way is not finite. -/
def pan (v : Viewport α) (dx dy : α) : Viewport α :=
  if Scalar.isFinite dx && Scalar.isFinite dy then
    let t := v.transform
    v.withTransform { t with shiftX := t.shiftX + dx, shiftY := t.shiftY + dy }
  else v

/-- Give the diagram a scale, clamped, and keep what appears at a point of the screen there. -/
def scaleTo (v : Viewport α) (anchor : Point α) (scale : α) : Viewport α :=
  if Scalar.isFinite anchor.x && Scalar.isFinite anchor.y then
    let world := v.transform.invert anchor
    let k := v.window.extent.clamp scale
    v.withTransform ⟨anchor.x - world.x * k, anchor.y - world.y * k, k⟩
  else v

/-- Multiply the scale by a positive finite factor and keep what appears at a point of the screen
there. -/
def zoom (v : Viewport α) (anchor : Point α) (factor : α) : Viewport α :=
  if Scalar.isFinite factor && factor > 0 then v.scaleTo anchor (v.transform.scale * factor) else v

def zoomIn (v : Viewport α) : Viewport α :=
  v.scaleTo v.window.center (v.transform.scale + v.window.zoomStep)

def zoomOut (v : Viewport α) : Viewport α :=
  v.scaleTo v.window.center (v.transform.scale - v.window.zoomStep)

end Viewport

end TidyTree
