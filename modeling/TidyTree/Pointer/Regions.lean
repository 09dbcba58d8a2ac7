import TidyTree.Outline.Node
import TidyTree.Screen.Transform

set_option autoImplicit false
set_option relaxedAutoImplicit false

/-!
# What lies under the pointer

A picture on the screen is a set of regions: the tooltip with its button above all else, then the
indicators of comments, then the boxes of nodes. Of two regions of one kind the later one lies
above.
-/

namespace TidyTree

inductive Target where
  | node (id : NodeId)
  | indicator (id : NodeId)
  | tooltip
  | closeButton
  | background
  deriving DecidableEq, Repr

structure Disc (α : Type) where
  center : Point α
  radius : α
  deriving DecidableEq, Repr

structure TooltipRegion (α : Type) where
  body : Rect α
  closeButton : Rect α
  deriving DecidableEq, Repr

/-- What can be hit: boxes and discs in the drawing, the tooltip on the screen. -/
structure Regions (α : Type) where
  transform : Transform α
  boxes : List (NodeId × Rect α)
  discs : List (NodeId × Disc α)
  tooltip? : Option (TooltipRegion α)
  deriving DecidableEq, Repr

variable {α : Type} [Scalar α]

/-- The point lies on the disc or on its edge. -/
def Disc.contains (d : Disc α) (p : Point α) : Bool := d.center.isWithin p d.radius

def TooltipRegion.hit? (r : TooltipRegion α) (screen : Point α) : Option Target :=
  if r.closeButton.contains screen then some .closeButton
  else if r.body.contains screen then some .tooltip
  else none

namespace Regions

def empty : Regions α := ⟨.identity, [], [], none⟩

/-- The last of the discs at a point of the drawing. -/
def discAt? (r : Regions α) (world : Point α) : Option NodeId :=
  (r.discs.reverse.find? fun d => d.2.contains world).map (·.1)

/-- The last of the boxes at a point of the drawing. -/
def boxAt? (r : Regions α) (world : Point α) : Option NodeId :=
  (r.boxes.reverse.find? fun b => b.2.contains world).map (·.1)

def hitDrawing (r : Regions α) (world : Point α) : Target :=
  match r.discAt? world, r.boxAt? world with
  | some id, _ => .indicator id
  | none, some id => .node id
  | none, none => .background

/-- What lies on top at a point of the screen. -/
def hit (r : Regions α) (screen : Point α) : Target :=
  match r.tooltip?.bind (·.hit? screen) with
  | some target => target
  | none => r.hitDrawing (r.transform.invert screen)

end Regions

end TidyTree
