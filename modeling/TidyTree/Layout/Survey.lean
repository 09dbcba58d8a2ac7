import TidyTree.Layout.Basic
import TidyTree.Placement.Threads

set_option autoImplicit false
set_option relaxedAutoImplicit false

/-!
# Surveys

The layout of a tree as one pass over lists. A walk with a stack lists the nodes that are drawn, each
with its standing, and beside them the places of the children of each node. Nodes are known by their
places from then on: the labels are measured in that order, the lists of children are placed by
threads, and every box is put together from what stands at its place.
-/

namespace TidyTree

/-- Where a node stands in the visible tree. -/
structure Standing where
  /-- The place of the parent. -/
  parent : Option Nat
  /-- The number of nodes above this one. -/
  depth : Nat
  /-- The number of siblings before this one. -/
  siblingIndex : Nat
  deriving DecidableEq, Repr

/-- The nodes that have been listed, and for each of them the places of its children. -/
structure Survey where
  stops : List (Node × Standing)
  children : List (List Nat)

namespace Survey

def adopt (children : List (List Nat)) (parent : Option Nat) (places : List Nat) : List (List Nat) :=
  match parent with
  | some parent => children.modify parent (· ++ places)
  | none => children

def add (s : Survey) (stop : Node × Standing) : Survey :=
  ⟨s.stops ++ [stop], adopt s.children stop.2.parent [s.stops.length] ++ [[]]⟩

/-- Put the children that a node shows on the stack, from the last to the first. -/
def push (place : Nat) (stop : Node × Standing) (stack : List (Node × Standing)) :
    List (Node × Standing) :=
  stop.1.visible.zipIdx.foldr
    (fun child stack => (child.1, ⟨some place, stop.2.depth + 1, child.2⟩) :: stack) stack

def step : Survey × List (Node × Standing) → Option (Survey × List (Node × Standing))
  | (_, []) => none
  | (s, stop :: stack) => some (s.add stop, push s.stops.length stop stack)

/-- The survey of a tree; none if the walk goes on after as many nodes as are drawn. -/
def ofNode (root : Node) : Option Survey :=
  (Placement.lastState step root.visibleCount (⟨[], []⟩, [(root, ⟨none, 0, 0⟩)])).map Prod.fst

def node? (s : Survey) (place : Nat) : Option Node := (s.stops[place]?).map Prod.fst

def visit (s : Survey) (stop : Node × Standing) : Visit where
  item := stop.1.item
  state := stop.1.state
  parent := (stop.2.parent.bind s.node?).map Node.id
  depth := stop.2.depth
  siblingIndex := stop.2.siblingIndex

variable {σ α : Type} [Scalar α]

def separation (s : Survey) (sizing : Sizing α) (columnWidth : α) (widths : List α) (a b : Nat) : α :=
  let parent (place : Nat) : Option Nat := (s.stops[place]?).bind (·.2.parent)
  sizing.separation columnWidth (decide (parent a = parent b)) (widths.getD a 0) (widths.getD b 0)

def layout (s : Survey) (sizing : Sizing α) (columnWidth : α) (widths : List α) : Option (Layout α) :=
  (Placement.positions (s.separation sizing columnWidth widths) s.children).map fun rows =>
    ⟨(((s.stops.map s.visit).zip widths).zip rows).map (Layout.box sizing columnWidth), columnWidth⟩

end Survey

/-- The layout of a tree by way of its survey. -/
def Layout.surveyed {σ α : Type} [Scalar α] (s : Sizing α) (m : Metrics σ α) (columnWidth : α)
    (t : Tree) (state : σ) : Option (Layout α × σ) := do
  let survey ← Survey.ofNode t.root
  let (widths, state) := s.labelWidths m (survey.stops.map (·.1.item.label)) state
  let layout ← survey.layout s columnWidth widths
  return (layout, state)

end TidyTree
