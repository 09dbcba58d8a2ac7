import TidyTree.Outline.Node
import TidyTree.Placement.Rose

set_option autoImplicit false
set_option relaxedAutoImplicit false

namespace TidyTree

/-- A node of the visible tree with its place there. -/
structure Visit where
  item : Item
  state : BranchState
  parent : Option NodeId
  /-- The number of nodes above this one. -/
  depth : Nat
  /-- The number of siblings before this one. -/
  siblingIndex : Nat
  deriving DecidableEq, Repr

namespace Node

mutual

/-- The visible tree below a node that has a parent, a depth and a place among its siblings. -/
def visits (parent : Option NodeId) (depth siblingIndex : Nat) : Node → Rose Visit
  | mk item shown children =>
    .mk ⟨item, (mk item shown children).state, parent, depth, siblingIndex⟩
      (if shown then visitsAll (some item.id) (depth + 1) 0 children else [])

def visitsAll (parent : Option NodeId) (depth siblingIndex : Nat) : List Node → List (Rose Visit)
  | [] => []
  | n :: ns => n.visits parent depth siblingIndex :: visitsAll parent depth (siblingIndex + 1) ns

end

def visibleTree (n : Node) : Rose Visit := n.visits none 0 0

end Node

end TidyTree
