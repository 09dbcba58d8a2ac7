import TidyTree.Outline.Record

set_option autoImplicit false
set_option relaxedAutoImplicit false

/-!
# Trees

A tree keeps the nodes made of a record. Folding is the only change: it moves one child list between
shown and hidden. Every change is counted and waits in a feed until it is drained.
-/

namespace TidyTree

/-- A node that switched to a state. -/
structure Change where
  id : NodeId
  state : BranchState
  deriving DecidableEq, Repr

inductive Fold where
  | toggle
  | expand
  | collapse
  deriving DecidableEq, Repr

/-- The state that a way of folding leads to. A leaf stays a leaf. -/
def Fold.apply : Fold → BranchState → BranchState
  | _, .leaf => .leaf
  | toggle, state => state.toggled
  | expand, _ => .expanded
  | collapse, _ => .collapsed

structure NodeNotFound where
  id : NodeId
  deriving DecidableEq, Repr

def NodeNotFound.message (e : NodeNotFound) : String := "node " ++ e.id.name ++ " not found in tree"

/-- A hierarchy of nodes with the feed of its changes. -/
structure Tree where
  root : Node
  /-- The number of changes so far. -/
  revision : Nat
  /-- The changes since the feed was last drained, oldest first. -/
  feed : List Change

namespace Tree

def ofRecord (r : Record) : Tree := ⟨(r.number 0).1, 0, []⟩

/-- What is left out when a tree is made of a record, in pre-order. -/
def droppedOf (r : Record) : List Dropped := (r.number 0).2

def toRecord (t : Tree) : Record := t.root.toRecord

def size (t : Tree) : Nat := t.root.span

def nodes (t : Tree) : List Node := t.root.preorder

def visibleCount (t : Tree) : Nat := t.root.visibleCount

def find? (t : Tree) (id : NodeId) : Option Node := t.root.find? id

/-- The numbers from the root down to a node. -/
def path? (t : Tree) (id : NodeId) : Option (List NodeId) := t.root.path? id

/-- The number of the node that owns another as a child. -/
def parent? (t : Tree) (id : NodeId) : Option NodeId := (t.path? id).bind (·.dropLast.getLast?)

/-- The node of `id` lies in the subtree of `ancestor`. -/
def isWithin (t : Tree) (ancestor id : NodeId) : Bool := (t.find? ancestor).any (·.owns id)

def subtree? (t : Tree) (id : NodeId) : Option (List NodeId) :=
  (t.find? id).map fun n => List.range' n.id n.span

/-- Fold a node and give its state. Where the state is new the change is counted and fed. -/
def fold (t : Tree) (how : Fold) (id : NodeId) : Except NodeNotFound (BranchState × Tree) :=
  match t.find? id with
  | none => .error ⟨id⟩
  | some n =>
    let state := how.apply n.state
    if state = n.state then .ok (state, t)
    else .ok (state, ⟨t.root.setState id state, t.revision + 1, t.feed ++ [⟨id, state⟩]⟩)

/-- The tree after a fold; a number without a node changes nothing. -/
def folded (t : Tree) (how : Fold) (id : NodeId) : Tree :=
  match t.fold how id with
  | .ok (_, t') => t'
  | .error _ => t

def drained (t : Tree) : Tree := { t with feed := [] }

def shared (p q : List NodeId) : Nat := ((p.zip q).takeWhile fun e => e.1 == e.2).length

/-- The deepest node whose subtree holds all of the numbers that have a node; the root when none
has. -/
def commonAncestor (t : Tree) (ids : List NodeId) : NodeId :=
  match ids.filterMap t.path? with
  | [] => t.root.id
  | p :: ps => ((ps.foldl (fun common q => common.take (shared common q)) p).getLast?).getD t.root.id

end Tree

end TidyTree
