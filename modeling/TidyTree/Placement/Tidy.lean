import TidyTree.Placement.Rose
import TidyTree.Placement.Row

set_option autoImplicit false
set_option relaxedAutoImplicit false

/-!
# Tidy placement

A tidy drawing of a tree puts each parent in the middle above its first and last child, keeps
neighbours on a level apart, draws equal subtrees alike and is as narrow as that allows. Subtrees
are drawn one by one and set beside each other in a row. Two contours of a row, the leftmost and the
rightmost node of each level, tell how far the next subtree has to move, and walking down both takes
no more steps than the shallower of the two has levels.

The coordinates on a contour are relative: a node lies at its own coordinate plus the offsets of the
nodes above it on the contour. Where a contour goes over from a subtree to a deeper one, the offset
of the last node before is corrected so that this still holds.
-/

namespace TidyTree.Placement

structure Knot (ν α : Type) where
  label : ν
  coordinate : α
  offset : α

/-- A drawn subtree, with the coordinates of the children relative to those of the parent. -/
inductive Draft (ν α : Type) where
  | mk (label : ν) (coordinate offset : α) (children : List (Draft ν α))

/-- A subtree before it is set in a row: what is drawn below its root, and its contours below its
root. -/
structure Block (ν α : Type) where
  label : ν
  children : List (Draft ν α)
  /-- The middle of the first and the last child; none without children. -/
  middle : Option α
  left : List (Knot ν α)
  right : List (Knot ν α)

structure Forest (ν α : Type) where
  row : List (Slot (Block ν α) α)
  /-- The leftmost node of each level. -/
  left : List (Knot ν α)
  /-- The rightmost node of each level, with the place of its subtree in the row. -/
  right : List (Nat × Knot ν α)

variable {ν α : Type} [Scalar α]

/-- The sums of the offsets above a level on the four contours of two neighbours: the inner and the
outer one of the left neighbour, the inner and the outer one of the right neighbour. -/
structure Sums (α : Type) where
  leftInner : α
  leftOuter : α
  rightInner : α
  rightOuter : α

def Sums.push (s : Sums α) (distance : α) : Sums α :=
  { s with rightInner := s.rightInner + distance, rightOuter := s.rightOuter + distance }

def Sums.descend (s : Sums α) (leftInner leftOuter rightInner rightOuter : Knot ν α) : Sums α :=
  ⟨s.leftInner + leftInner.offset, s.leftOuter + leftOuter.offset,
    s.rightInner + rightInner.offset, s.rightOuter + rightOuter.offset⟩

/-- How far the right neighbour has to move so that two nodes of a level are apart. -/
def overlap (separation : ν → ν → α) (s : Sums α) (leftInner rightInner : Knot ν α) : α :=
  leftInner.coordinate + s.leftInner - rightInner.coordinate - s.rightInner +
    separation leftInner.label rightInner.label

structure Walk (ν α : Type) where
  sums : Sums α
  /-- The moves of the right neighbour, each with the place of the subtree in its way. -/
  moves : List (Nat × α)
  /-- What the inner contour of the left neighbour has below the last level of the right one. -/
  leftRest : List (Nat × Knot ν α)
  /-- What the inner contour of the right neighbour has below the last level of the left one. -/
  rightRest : List (Knot ν α)

/-- Walk down the contours between two neighbours as far as both go, and push the right one away
wherever the two are too close. -/
def walk (separation : ν → ν → α) :
    Sums α → List (Nat × Knot ν α) → List (Knot ν α) → List (Knot ν α) → List (Knot ν α) → Walk ν α
  | s, (owner, li) :: lis, lo :: los, ri :: ris, ro :: ros =>
    let distance := overlap separation s li ri
    if distance > 0 then
      let w := walk separation ((s.push distance).descend li lo ri ro) lis los ris ros
      { w with moves := (owner, distance) :: w.moves }
    else walk separation (s.descend li lo ri ro) lis los ris ros
  | s, lis, _, ris, _ => ⟨s, [], lis, ris⟩

def correctLast (correction : α) : List (Knot ν α) → List (Knot ν α)
  | [] => []
  | [k] => [{ k with offset := k.offset + correction }]
  | k :: ks => k :: correctLast correction ks

def Slot.knot (s : Slot (Block ν α) α) : Knot ν α := ⟨s.content.label, s.coordinate, s.offset⟩

namespace Forest

def empty : Forest ν α := ⟨[], [], []⟩

/-- The place of a subtree in the row before it is checked against those at its left: at its own
middle if it is the first, else beside the root of its left neighbour. -/
def enter (separation : ν → ν → α) (f : Forest ν α) (b : Block ν α) : Slot (Block ν α) α :=
  match f.row.getLast? with
  | none => ⟨b, b.middle.getD 0, 0, 0, 0⟩
  | some neighbour =>
    let coordinate := neighbour.coordinate + separation neighbour.content.label b.label
    ⟨b, coordinate, (b.middle.map (coordinate - ·)).getD 0, 0, 0⟩

/-- The walk between the forest and a subtree that enters it, below their top level. -/
def meet (separation : ν → ν → α) (f : Forest ν α) (s : Slot (Block ν α) α) : Walk ν α :=
  let offsetOf (k : Option (Knot ν α)) : α := (k.map (·.offset)).getD 0
  walk separation
    ⟨offsetOf (f.right.head?.map (·.2)), offsetOf f.left.head?, s.offset, s.offset⟩
    f.right.tail f.left.tail s.content.left s.content.right

def append (separation : ν → ν → α) (f : Forest ν α) (b : Block ν α) : Forest ν α :=
  let place := f.row.length
  let entered := f.enter separation b
  if f.row.isEmpty then
    ⟨[entered], entered.knot :: b.left, (entered.knot :: b.right).map (place, ·)⟩
  else
    let w := f.meet separation entered
    let row := w.moves.foldl (fun row m => move row m.1 place m.2) (f.row ++ [entered])
    let knot := ((row.getLast?).getD entered).knot
    let right := knot :: b.right
    ⟨row,
      if w.rightRest.isEmpty then f.left
      else correctLast (w.sums.rightInner - w.sums.leftOuter) f.left ++ w.rightRest,
      if w.leftRest.isEmpty then right.map (place, ·)
      else (correctLast (w.sums.leftInner - w.sums.rightOuter) right).map (place, ·) ++ w.leftRest⟩

end Forest

def shiftHead (way : Option α) (contour : List (Knot ν α)) : List (Knot ν α) :=
  match way, contour with
  | some way, k :: ks => { k with coordinate := k.coordinate + way, offset := k.offset + way } :: ks
  | _, contour => contour

/-- The drawing of a child whose place in the row is final. -/
def Slot.draft (s : Slot (Block ν α) α) : Draft ν α :=
  .mk s.content.label s.coordinate s.offset s.content.children

def Forest.under (f : Forest ν α) (label : ν) : Block ν α :=
  let settled := settle f.row
  let middle := do
    let first ← settled.head?
    let last ← settled.getLast?
    return (first.coordinate + last.coordinate) / 2
  ⟨label, settled.map Slot.draft, middle, shiftHead (ways f.row).head? f.left,
    shiftHead (ways f.row).getLast? (f.right.map (·.2))⟩

mutual

def block (separation : ν → ν → α) : Rose ν → Block ν α
  | .mk label children => (forest separation .empty children).under label

def forest (separation : ν → ν → α) (f : Forest ν α) : List (Rose ν) → Forest ν α
  | [] => f
  | r :: rs => forest separation (f.append separation (block separation r)) rs

end

mutual

/-- Make the coordinates of a drawing absolute; those of the top level are relative to `base`. -/
def Draft.place (base : α) : Draft ν α → Rose (ν × α)
  | .mk label coordinate offset children =>
    .mk (label, coordinate + base) (placeAll (offset + base) children)

def Draft.placeAll (base : α) : List (Draft ν α) → List (Rose (ν × α))
  | [] => []
  | d :: ds => d.place base :: placeAll base ds

end

/-- The coordinate of every node in the tidy drawing of a tree, with the root at zero. The least
distance of two neighbours on a level is their separation. -/
def tidy (separation : ν → ν → α) (r : Rose ν) : Rose (ν × α) :=
  let root := Forest.empty.enter separation (block separation r)
  root.draft.place (-root.coordinate)

end TidyTree.Placement
