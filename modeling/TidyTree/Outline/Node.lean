set_option autoImplicit false
set_option relaxedAutoImplicit false

/-!
# Nodes

An outline is a tree of labelled nodes whose child lists can be folded away. A node has one child
list, either shown or hidden, so it never has a shown and a hidden child at once. Nodes are numbered
in pre-order, so the numbers of a subtree are consecutive and a node is found by comparing numbers.
-/

namespace TidyTree

/-- The number of a node: its place in the pre-order of its tree. -/
abbrev NodeId := Nat

def NodeId.name (id : NodeId) : String := "n" ++ toString id

/-- What a node shows of its children. -/
inductive BranchState where
  | leaf
  | expanded
  | collapsed
  deriving DecidableEq, Repr

namespace BranchState

def name : BranchState → String
  | leaf => "leaf"
  | expanded => "expanded"
  | collapsed => "collapsed"

def toggled : BranchState → BranchState
  | leaf => leaf
  | expanded => collapsed
  | collapsed => expanded

end BranchState

structure Item where
  id : NodeId
  /-- The number of nodes in the subtree, the node and hidden ones included. -/
  span : Nat
  label : String
  kind : Option String
  comment : Option String
  deriving DecidableEq, Repr

def noComment : String := "No comment available"

def Item.hasComment (item : Item) : Bool :=
  match item.comment with
  | none => false
  | some text => text != "" && text != noComment

/-- The number belongs to the subtree of the item's node. -/
def Item.owns (item : Item) (id : NodeId) : Bool := item.id ≤ id && id - item.id < item.span

inductive Node where
  | mk (item : Item) (shown : Bool) (children : List Node)

namespace Node

def item : Node → Item
  | mk item _ _ => item

def children : Node → List Node
  | mk _ _ children => children

def id (n : Node) : NodeId := n.item.id

def span (n : Node) : Nat := n.item.span

def owns (n : Node) (id : NodeId) : Bool := n.item.owns id

def state : Node → BranchState
  | mk _ _ [] => .leaf
  | mk _ true (_ :: _) => .expanded
  | mk _ false (_ :: _) => .collapsed

def visible : Node → List Node
  | mk _ true children => children
  | mk _ false _ => []

def hidden : Node → List Node
  | mk _ true _ => []
  | mk _ false children => children

/-- The node with its children shown or hidden as a state says. A leaf stays a leaf. -/
def withState (n : Node) (state : BranchState) : Node :=
  match n, state with
  | mk item _ (c :: cs), .expanded => mk item true (c :: cs)
  | mk item _ (c :: cs), .collapsed => mk item false (c :: cs)
  | n, _ => n

def totalSpan : List Node → Nat
  | [] => 0
  | n :: ns => n.span + totalSpan ns

mutual

/-- The nodes of the subtree in pre-order, hidden ones included. -/
def preorder : Node → List Node
  | mk item shown children => mk item shown children :: preorderAll children

def preorderAll : List Node → List Node
  | [] => []
  | n :: ns => n.preorder ++ preorderAll ns

end

mutual

def visibleCount : Node → Nat
  | mk _ shown children => 1 + if shown then visibleCountAll children else 0

def visibleCountAll : List Node → Nat
  | [] => 0
  | n :: ns => n.visibleCount + visibleCountAll ns

end

mutual

/-- Go down to the node of a number, into the first child that owns it. -/
def descend (id : NodeId) : Node → Option Node
  | mk item shown children =>
    if item.id = id then some (mk item shown children) else descendAny id children

def descendAny (id : NodeId) : List Node → Option Node
  | [] => none
  | n :: ns => if n.owns id then n.descend id else descendAny id ns

end

def find? (n : Node) (id : NodeId) : Option Node := if n.owns id then n.descend id else none

mutual

def trail (id : NodeId) : Node → Option (List NodeId)
  | mk item _ children =>
    if item.id = id then some [item.id] else (trailAny id children).map (item.id :: ·)

def trailAny (id : NodeId) : List Node → Option (List NodeId)
  | [] => none
  | n :: ns => if n.owns id then n.trail id else trailAny id ns

end

/-- The numbers from the node down to the one of a number in its subtree. -/
def path? (n : Node) (id : NodeId) : Option (List NodeId) := if n.owns id then n.trail id else none

mutual

def setState (id : NodeId) (state : BranchState) : Node → Node
  | mk item shown children =>
    if item.id = id then (mk item shown children).withState state
    else mk item shown (setStateAny id state children)

/-- Give the node of a number another state, in the subtree that owns it. -/
def setStateAny (id : NodeId) (state : BranchState) : List Node → List Node
  | [] => []
  | n :: ns => if n.owns id then n.setState id state :: ns else n :: setStateAny id state ns

end

end Node

end TidyTree
