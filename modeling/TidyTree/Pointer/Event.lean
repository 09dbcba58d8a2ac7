import TidyTree.Plane.Point

set_option autoImplicit false
set_option relaxedAutoImplicit false

namespace TidyTree

inductive Button where
  | primary
  | secondary
  | middle
  deriving DecidableEq, Repr

inductive WheelUnit where
  | pixel
  | line
  | page
  deriving DecidableEq, Repr

inductive Event (α : Type) where
  | down (button : Button) (position : Point α)
  | up (button : Button) (position : Point α)
  | move (position : Point α)
  | leave
  /-- The wheel turned, downward when `delta` is positive, while the control key was held or not. -/
  | wheel (position : Point α) (delta : α) (unit : WheelUnit) (ctrl : Bool)
  | resize (size : Size α)
  deriving DecidableEq, Repr

end TidyTree
