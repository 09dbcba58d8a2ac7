import TidyTree.Pointer.Event
import TidyTree.Pointer.Regions

set_option autoImplicit false
set_option relaxedAutoImplicit false

/-!
# The pointer

The pointer turns events into what they ask for. A press that stays near its start until it is
released is a click on what it started on; one that goes farther is a drag, which pans. A click on
an indicator arms a listener for clicks outside of the tooltip, which close it. The listener never
hears the click that armed it: it is pending until that event has been dealt with.
-/

namespace TidyTree

inductive Intent (α : Type) where
  | toggle (id : NodeId)
  /-- Show the comment of a node beside a point of the screen. -/
  | openTooltip (id : NodeId) (position : Point α)
  | closeTooltip
  | pan (dx dy : α)
  /-- Multiply the scale and keep what appears at a point of the screen there. -/
  | zoom (anchor : Point α) (factor : α)
  | resize (size : Size α)
  deriving DecidableEq, Repr

structure Press (α : Type) where
  origin : Point α
  last : Point α
  target : Target
  /-- The pointer has been farther from the origin than a click allows. -/
  moved : Bool
  deriving DecidableEq, Repr

/-- Whether clicks outside of the tooltip are listened for. -/
inductive Listener where
  | disarmed
  /-- Armed once the event at hand has been dealt with. -/
  | pending
  | armed
  deriving DecidableEq, Repr

structure Pointer (α : Type) where
  /-- The farthest that a click may go from its start. -/
  clickDistance : α
  /-- The wheel zooms only while the control key is held. -/
  zoomRequiresCtrl : Bool
  press? : Option (Press α)
  listener : Listener
  deriving DecidableEq, Repr

variable {α : Type} [Scalar α]

def Target.isTooltip : Target → Bool
  | tooltip => true
  | closeButton => true
  | _ => false

/-- A click on the target is outside of the tooltip. Indicators are not outside. -/
def Target.isOutside : Target → Bool
  | node _ => true
  | background => true
  | _ => false

/-- What a click on a target asks for by itself. -/
def Target.clicked (position : Point α) : Target → List (Intent α)
  | node id => [.toggle id]
  | indicator id => [.openTooltip id position]
  | closeButton => [.closeTooltip]
  | tooltip => []
  | background => []

def Listener.clicked (l : Listener) : Target → Listener
  | .indicator _ => .pending
  | .closeButton => .disarmed
  | .tooltip => l
  | _ => if l = .armed then .disarmed else l

def Listener.settle : Listener → Listener
  | pending => armed
  | l => l

def WheelUnit.weight : WheelUnit → α
  | pixel => 0.002
  | line => 0.05
  | page => 1

/-- The factor by which the wheel zooms: a power of two, below one for a downward turn. -/
def wheelFactor [PowTwo α] (delta : α) (unit : WheelUnit) : α :=
  PowTwo.powTwo (-delta * (unit.weight : α))

namespace Pointer

def idle (clickDistance : α) (zoomRequiresCtrl : Bool) : Pointer α :=
  ⟨clickDistance, zoomRequiresCtrl, none, .disarmed⟩

def isPressed (p : Pointer α) : Bool := p.press?.isSome

def isDragging (p : Pointer α) : Bool := p.press?.any (·.moved)

def isArmed (p : Pointer α) : Bool := p.listener = .armed

def click (p : Pointer α) (target : Target) (position : Point α) : Pointer α × List (Intent α) :=
  ({ p with listener := p.listener.clicked target },
    (if p.listener = .armed && target.isOutside then [.closeTooltip] else []) ++
      target.clicked position)

def pressed (p : Pointer α) (regions : Regions α) (position : Point α) : Pointer α :=
  { p with press? := some ⟨position, position, regions.hit position, false⟩ }

/-- The pointer moves. A press that did not start on the tooltip pans by the way since the last
move. -/
def moved (p : Pointer α) (position : Point α) : Pointer α × List (Intent α) :=
  match p.press? with
  | none => (p, [])
  | some press =>
    if press.target.isTooltip then (p, [])
    else
      let way := position.sub press.last
      let moved := press.moved || press.origin.isBeyond position p.clickDistance
      ({ p with press? := some { press with last := position, moved } },
        if way.x != 0 || way.y != 0 then [.pan way.x way.y] else [])

def released (p : Pointer α) (position : Point α) : Pointer α × List (Intent α) :=
  match p.press? with
  | none => (p, [])
  | some press =>
    let p := { p with press? := none }
    if press.moved || press.origin.isBeyond position p.clickDistance then (p, [])
    else p.click press.target position

/-- What the wheel asks for: a zoom by its factor, unless that is one or no positive number. -/
def wheeled [PowTwo α] (p : Pointer α) (position : Point α) (delta : α) (unit : WheelUnit)
    (ctrl : Bool) : List (Intent α) :=
  if p.zoomRequiresCtrl && !ctrl then []
  else
    let factor := wheelFactor delta unit
    if Scalar.isFinite factor && factor > 0 && factor != 1 then [.zoom position factor] else []

/-- Deal with an event, but for a listener that it leaves pending. -/
def react [PowTwo α] (p : Pointer α) (regions : Regions α) : Event α → Pointer α × List (Intent α)
  | .down .primary position => (p.pressed regions position, [])
  | .up .primary position => p.released position
  | .down _ _ => (p, [])
  | .up _ _ => (p, [])
  | .move position => p.moved position
  | .leave => ({ p with press? := none }, [])
  | .wheel position delta unit ctrl => (p, p.wheeled position delta unit ctrl)
  | .resize size => (p, [.resize size])

def handle [PowTwo α] (p : Pointer α) (regions : Regions α) (event : Event α) :
    Pointer α × List (Intent α) :=
  let (p, intents) := p.react regions event
  ({ p with listener := p.listener.settle }, intents)

def tooltipClosed (p : Pointer α) : Pointer α := { p with listener := .disarmed }

def detach (p : Pointer α) : Pointer α := { p with press? := none, listener := .disarmed }

end Pointer

end TidyTree
