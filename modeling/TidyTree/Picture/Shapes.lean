import TidyTree.Layout.Basic
import TidyTree.Motion.Visual
import TidyTree.Picture.Curve
import TidyTree.Pointer.Regions

set_option autoImplicit false
set_option relaxedAutoImplicit false

namespace TidyTree

variable {α : Type} [Scalar α]

def boxCornerRadius : α := 8

def boxLineWidth : α := 1.4

def linkLineWidth : α := 1.6

def indicatorRadius : α := 10

def halfLabel (labelWidth : α) : α := Scalar.ceil (Scalar.ceil labelWidth / 2)

/-- How far an indicator lies to the right of its node's centre. -/
def indicatorOffset (labelWidth padding : α) : α :=
  Scalar.max (halfLabel labelWidth + padding + 16) 24

def toggleOffset (labelWidth padding : α) : α :=
  Scalar.max (halfLabel labelWidth + padding) 18

/-- The path data of the toggle in a state, relative to its origin. -/
def BranchState.glyph? : BranchState → Option String
  | leaf => none
  | expanded => some "M -6 8 L 0 2 L 6 8 Z"
  | collapsed => some "M -3 -6 L 3 0 L -3 6 Z"

structure NodeShape (α : Type) where
  box : NodeBox α
  spot : Spot α
  /-- The node is no longer in the layout. -/
  isLeaving : Bool
  deriving DecidableEq, Repr

structure LinkShape (α : Type) where
  link : Link
  strand : Strand α
  deriving DecidableEq, Repr

namespace NodeShape

def id (n : NodeShape α) : NodeId := n.box.id

def bounds (n : NodeShape α) : Rect α := .around n.spot.position n.box.size

/-- The indicator of a node with a comment, the padding of labels being given. -/
def indicator? (n : NodeShape α) (padding : α) : Option (Disc α) :=
  if n.box.visit.item.hasComment then
    some ⟨⟨n.spot.position.x + indicatorOffset n.box.labelWidth padding, n.spot.position.y + -8⟩,
      indicatorRadius⟩
  else none

/-- The origin of the toggle of a node with children, the padding of labels being given. -/
def toggle? (n : NodeShape α) (padding : α) : Option (Point α) :=
  n.box.visit.state.glyph?.map fun _ =>
    ⟨n.spot.position.x + toggleOffset n.box.labelWidth padding, n.spot.position.y + -6⟩

end NodeShape

def LinkShape.curve (l : LinkShape α) : Curve α := .between l.strand.source l.strand.target

end TidyTree
