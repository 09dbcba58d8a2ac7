import TidyTree.Placement.Tidy

set_option autoImplicit false
set_option relaxedAutoImplicit false

/-!
# Placement by threads

The tidy placement as one pass over cells of memory. The tree is given by the children of each node,
with the nodes numbered in pre-order and a virtual node above the root. Contours are not kept: a
walk down a contour goes from a node to its first or last child and, at a leaf, along the thread of
the leaf, which has been left there by an earlier walk. One thread of a leaf serves both contours.
Which subtree of a row a node of the right contour belongs to is read off the node's `ancestor`, and
off the `fallback` of the parent of the row where that is out of date.

Nothing about the lists of children is checked. A loop that goes on for more steps than there are
nodes, as it may on lists that are not those of a tree, gives no result.
-/

namespace TidyTree.Placement

/-- The state that a loop is in after some iterations; none if it has ended before. -/
def stateAfter {σ : Type} (step : σ → Option σ) : Nat → σ → Option σ
  | 0, s => some s
  | n + 1, s => (step s).bind (stateAfter step n)

/-- The state in which a loop ends; none if it goes on after `bound` iterations. -/
def lastState {σ : Type} (step : σ → Option σ) : Nat → σ → Option σ
  | 0, s => if (step s).isNone then some s else none
  | bound + 1, s =>
    match step s with
    | none => some s
    | some t => lastState step bound t

def write {β : Type} (f : Nat → β) (i : Nat) (b : β) (j : Nat) : β := if j = i then b else f j

/-- The relations between the nodes of a tree. -/
structure Kinship where
  /-- How many nodes there are. -/
  size : Nat
  children : Nat → List Nat
  parent : Nat → Nat
  /-- The place of a node among its siblings. -/
  place : Nat → Nat

namespace Kinship

def adopt (k : Kinship) (parent : Nat) (child : Nat × Nat) : Kinship :=
  { k with parent := write k.parent child.1 parent, place := write k.place child.1 child.2 }

/-- The kinship of the nodes with the listed children. The node behind the last one is the parent of
the root. -/
def ofChildren (lists : List (List Nat)) : Kinship :=
  lists.zipIdx.foldl (fun k list => list.1.zipIdx.foldl (fun k child => k.adopt list.2 child) k)
    ⟨lists.length, fun v => (lists ++ [[0]]).getD v [], fun _ => lists.length, fun _ => 0⟩

def previousSibling (k : Kinship) (v : Nat) : Option Nat :=
  if 0 < k.place v then (k.children (k.parent v))[k.place v - 1]? else none

def firstSibling (k : Kinship) (v : Nat) : Nat := (k.children (k.parent v)).headD v

/-- The nodes from below upwards: children, from left to right, before their parent. -/
def postorder (k : Kinship) : Option (List Nat) :=
  (lastState step k.size ([], [0])).map Prod.fst
where
  /-- Take a node off the stack and put it before the nodes taken so far, and its children on the
  stack, the last one on top. -/
  step : List Nat × List Nat → Option (List Nat × List Nat)
    | (_, []) => none
    | (taken, v :: stack) => some (v :: taken, (k.children v).reverse ++ stack)

end Kinship

@[ext]
structure Cell (α : Type) where
  coordinate : α
  /-- The offset of the coordinates below the node. -/
  offset : α
  change : α
  shift : α
  /-- The node below a leaf on a contour. -/
  thread : Option Nat
  ancestor : Nat
  /-- The subtree below this node that a node with an outdated ancestor belongs to. -/
  fallback : Option Nat

structure Cells (α : Type) where
  get : Nat → Cell α

variable {α : Type}

namespace Cells

instance : CoeFun (Cells α) fun _ => Nat → Cell α := ⟨get⟩

def alter (cells : Cells α) (v : Nat) (f : Cell α → Cell α) : Cells α :=
  let changed := f (cells v)
  ⟨write cells v changed⟩

/-- The node as it lies on a contour. -/
def knot (cells : Cells α) (v : Nat) : Knot Nat α := ⟨v, (cells v).coordinate, (cells v).offset⟩

def nextLeft (k : Kinship) (cells : Cells α) (v : Nat) : Option Nat :=
  (k.children v).head?.or (cells v).thread

def nextRight (k : Kinship) (cells : Cells α) (v : Nat) : Option Nat :=
  (k.children v).getLast?.or (cells v).thread

/-- The child that a node of the right contour left of `v` belongs to. -/
def nextAncestor (k : Kinship) (cells : Cells α) (v fallback node : Nat) : Nat :=
  let ancestor := (cells node).ancestor
  if k.parent ancestor = k.parent v then ancestor else fallback

/-- The thread of a leaf to the node below it, with the correction of its offset. -/
def tie (cells : Cells α) [Add α] (leaf below : Nat) (correction : α) : Cells α :=
  cells.alter leaf fun c => { c with thread := some below, offset := c.offset + correction }

variable [Scalar α]

def start : Cells α := ⟨fun v => ⟨0, 0, 0, 0, none, v, none⟩⟩

def push (k : Kinship) (cells : Cells α) (blocker mover : Nat) (distance : α) : Cells α :=
  let gap := k.place mover - k.place blocker
  let share := if gap = 0 then 0 else distance / (gap : α)
  (cells.alter mover fun c =>
    { c with
      coordinate := c.coordinate + distance
      offset := c.offset + distance
      change := c.change - share
      shift := c.shift + distance }).alter blocker fun c => { c with change := c.change + share }

/-- A child takes its way. Also the way and the share of the next child to the left. -/
def settleChild (child : Nat) (acc : Cells α × α × α) : Cells α × α × α :=
  let (cells, way, change) := acc
  let change := change + (cells child).change
  (cells.alter child fun c => { c with coordinate := c.coordinate + way, offset := c.offset + way },
    way + ((cells child).shift + change), change)

/-- Spread the moves over the children of a node. -/
def settleChildren (k : Kinship) (cells : Cells α) (v : Nat) : Cells α :=
  ((k.children v).foldr settleChild (cells, 0, 0)).1

def enter (k : Kinship) (separation : Nat → Nat → α) (cells : Cells α) (v : Nat) : Cells α :=
  let beside (cells : Cells α) (w : Nat) : α := (cells w).coordinate + separation w v
  match (k.children v).head?, (k.children v).getLast? with
  | some first, some last =>
    let cells := cells.settleChildren k v
    let middle := ((cells first).coordinate + (cells last).coordinate) / 2
    match k.previousSibling v with
    | some w =>
      cells.alter v fun c =>
        { c with coordinate := beside cells w, offset := beside cells w - middle }
    | none => cells.alter v fun c => { c with coordinate := middle }
  | _, _ =>
    match k.previousSibling v with
    | some w => cells.alter v fun c => { c with coordinate := beside cells w }
    | none => cells

end Cells

/-- A walk down the contours between the row on the left of a node and the node's subtree. -/
structure Descent (α : Type) where
  cells : Cells α
  sums : Sums α
  leftInner : Option Nat
  rightInner : Option Nat
  leftOuter : Nat
  rightOuter : Nat

namespace Descent

variable [Scalar α]

/-- The walk for the node `v` with the left neighbour `w`, before its first level. -/
def begin (k : Kinship) (cells : Cells α) (v w : Nat) : Descent α where
  cells := cells
  sums :=
    ⟨(cells w).offset, (cells (k.firstSibling v)).offset, (cells v).offset, (cells v).offset⟩
  leftInner := cells.nextRight k w
  rightInner := cells.nextLeft k v
  leftOuter := k.firstSibling v
  rightOuter := v

/-- The nodes of a level are compared, and `v` makes a move if two of them are too close. -/
def compare (k : Kinship) (separation : Nat → Nat → α) (v fallback : Nat) (cells : Cells α)
    (sums : Sums α) (leftInner rightInner : Nat) : Cells α × Sums α :=
  let distance := overlap separation sums (cells.knot leftInner) (cells.knot rightInner)
  if 0 < distance then
    (cells.push k (cells.nextAncestor k v fallback leftInner) v distance, sums.push distance)
  else (cells, sums)

/-- One level of the walk; none where one of the inner contours has ended. -/
def step (k : Kinship) (separation : Nat → Nat → α) (v fallback : Nat) (d : Descent α) :
    Option (Descent α) :=
  match d.leftInner, d.rightInner with
  | some leftInner, some rightInner =>
    let leftOuter := (d.cells.nextLeft k d.leftOuter).getD d.leftOuter
    let rightOuter := (d.cells.nextRight k d.rightOuter).getD d.rightOuter
    let cells := d.cells.alter rightOuter fun c => { c with ancestor := v }
    let (cells, sums) := compare k separation v fallback cells d.sums leftInner rightInner
    some
      { cells := cells
        sums := sums.descend (cells.knot leftInner) (cells.knot leftOuter) (cells.knot rightInner)
          (cells.knot rightOuter)
        leftInner := cells.nextRight k leftInner
        rightInner := cells.nextLeft k rightInner
        leftOuter := leftOuter
        rightOuter := rightOuter }
  | _, _ => none

/-- Tie the contours of the joined row where one of them goes on. Also the fallback from now on. -/
def finish (k : Kinship) (v fallback : Nat) (d : Descent α) : Cells α × Nat :=
  let cells :=
    match d.leftInner with
    | some below =>
      if (d.cells.nextRight k d.rightOuter).isNone then
        d.cells.tie d.rightOuter below (d.sums.leftInner - d.sums.rightOuter)
      else d.cells
    | none => d.cells
  match d.rightInner with
  | some below =>
    if (cells.nextLeft k d.leftOuter).isNone then
      (cells.tie d.leftOuter below (d.sums.rightInner - d.sums.leftOuter), v)
    else (cells, fallback)
  | none => (cells, fallback)

end Descent

namespace Cells

variable [Scalar α]

/-- Set the subtree of a node apart from the row on its left. Also the fallback of the longer
row. -/
def apportion (k : Kinship) (separation : Nat → Nat → α) (cells : Cells α) (v fallback : Nat) :
    Option (Cells α × Nat) :=
  match k.previousSibling v with
  | none => some (cells, fallback)
  | some w =>
    (lastState (Descent.step k separation v fallback) k.size (.begin k cells v w)).map
      (Descent.finish k v fallback)

def rowFallback (k : Kinship) (cells : Cells α) (v : Nat) : Nat :=
  (cells (k.parent v)).fallback.getD (k.firstSibling v)

def visit (k : Kinship) (separation : Nat → Nat → α) (cells : Cells α) (v : Nat) :
    Option (Cells α) :=
  let entered := cells.enter k separation v
  (entered.apportion k separation v (entered.rowFallback k v)).map fun (cells, fallback) =>
    cells.alter (k.parent v) fun c => { c with fallback := some fallback }

def lower (k : Kinship) (cells : Cells α) (v : Nat) : Cells α :=
  let base := (cells (k.parent v)).offset
  cells.alter v fun c => { c with coordinate := c.coordinate + base, offset := c.offset + base }

end Cells

/-- The coordinate of every node in the tidy drawing of a tree, which is given by the children of
each node. -/
def positions [Scalar α] (separation : Nat → Nat → α) (lists : List (List Nat)) :
    Option (List α) :=
  let k := Kinship.ofChildren lists
  let nodes := List.range lists.length
  if lists.isEmpty then some []
  else do
    let order ← k.postorder
    let cells ← order.foldlM (Cells.visit k separation) .start
    let cells := cells.alter lists.length fun c => { c with offset := -(cells 0).coordinate }
    let lowered := nodes.foldl (Cells.lower k) cells
    return nodes.map fun v => (lowered v).coordinate

end TidyTree.Placement
