import TidyTree.Scalar

set_option autoImplicit false
set_option relaxedAutoImplicit false

/-!
# Rows of siblings

The children of a node stand in a row. A child that collides with one further left is moved to the
right with its subtree, and the children between the two take even shares of the move. The shares
are not given out at once: each move leaves a mark at its two ends, and one walk over the row from
the right spreads all of them.
-/

namespace TidyTree.Placement

/-- A child in a row: its coordinate, the offset of the coordinates below it, and the marks of the
moves that ended or began at it. `content` is what the child stands for. -/
structure Slot (γ α : Type) where
  content : γ
  coordinate : α
  offset : α
  /-- What the moves starting and ending here add to the share that each child further left takes
  more than its right neighbour. -/
  change : α
  /-- The sum of the moves that ended here. -/
  shift : α

variable {γ α : Type} [Scalar α]

def Slot.moved (s : Slot γ α) (distance share : α) : Slot γ α :=
  { s with
    coordinate := s.coordinate + distance
    offset := s.offset + distance
    change := s.change - share
    shift := s.shift + distance }

def Slot.blocked (s : Slot γ α) (share : α) : Slot γ α := { s with change := s.change + share }

/-- Move the child at place `mover` to the right, away from the one at place `blocker`, and mark
what the children between them have to take of the move. -/
def move (row : List (Slot γ α)) (blocker mover : Nat) (distance : α) : List (Slot γ α) :=
  let share := distance / ((mover - blocker : Nat) : α)
  (row.modify mover (·.moved distance share)).modify blocker (·.blocked share)

/-- The way that each child still has to take, by the marks of the children to its right. Also the
way and the share at the left of the row. -/
def spread : List (Slot γ α) → List α × α × α
  | [] => ([], 0, 0)
  | s :: ss =>
    let (ways, shift, change) := spread ss
    let change := change + s.change
    (shift :: ways, shift + (s.shift + change), change)

def ways (row : List (Slot γ α)) : List α := (spread row).1

def Slot.settled (s : Slot γ α) (way : α) : Slot γ α :=
  { s with coordinate := s.coordinate + way, offset := s.offset + way }

def settle (row : List (Slot γ α)) : List (Slot γ α) := List.zipWith Slot.settled row (ways row)

end TidyTree.Placement
