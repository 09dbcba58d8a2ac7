import TidyTree.Layout.Sizing
import TidyTree.Layout.Visit
import TidyTree.Placement.Tidy
import TidyTree.Plane.Rect

set_option autoImplicit false
set_option relaxedAutoImplicit false

namespace TidyTree

structure NodeBox (α : Type) where
  visit : Visit
  position : Point α
  size : Size α
  labelWidth : α
  deriving DecidableEq, Repr

structure Link where
  source : NodeId
  target : NodeId
  deriving DecidableEq, Repr

/-- The boxes of the visible tree in pre-order. -/
structure Layout (α : Type) where
  boxes : List (NodeBox α)
  columnWidth : α
  deriving DecidableEq, Repr

variable {σ α : Type} [Scalar α]

namespace NodeBox

def id (b : NodeBox α) : NodeId := b.visit.item.id

def parent (b : NodeBox α) : Option NodeId := b.visit.parent

def bounds (b : NodeBox α) : Rect α := .around b.position b.size

def link? (b : NodeBox α) : Option Link := b.parent.map (⟨·, b.id⟩)

end NodeBox

namespace Layout

def empty : Layout α := ⟨[], 0⟩

def ids (l : Layout α) : List NodeId := l.boxes.map (·.id)

/-- The links in the order of their targets. -/
def links (l : Layout α) : List Link := l.boxes.filterMap (·.link?)

def get? (l : Layout α) (id : NodeId) : Option (NodeBox α) := l.boxes.find? (·.id == id)

def contains (l : Layout α) (id : NodeId) : Bool := (l.get? id).isSome

def position? (l : Layout α) (id : NodeId) : Option (Point α) := (l.get? id).map (·.position)

def bounds? (l : Layout α) : Option (Rect α) := Rect.hull? (l.boxes.map (·.bounds))

/-- The least distance of two neighbours in a column, each with the width of its label. -/
def separation (s : Sizing α) (columnWidth : α) (a b : Visit × α) : α :=
  s.separation columnWidth (decide (a.1.parent = b.1.parent)) a.2 b.2

def box (s : Sizing α) (columnWidth : α) (v : (Visit × α) × α) : NodeBox α :=
  let ((visit, labelWidth), row) := v
  { visit
    position := ⟨(visit.depth : α) * columnWidth, row * s.rowSpacing⟩
    size := ⟨s.boxWidth labelWidth, s.boxHeight⟩
    labelWidth }

/-- The layout of a visible tree whose labels have been measured. -/
def ofMeasured (s : Sizing α) (columnWidth : α) (visits : Rose (Visit × α)) : Layout α :=
  ⟨(Placement.tidy (separation s columnWidth) visits).preorder.map (box s columnWidth), columnWidth⟩

def withColumns (s : Sizing α) (m : Metrics σ α) (columnWidth : α) (t : Tree) (state : σ) :
    Layout α × σ :=
  let (visits, state) := t.root.visibleTree.mapState
    (fun visit state =>
      let (width, state) := m.widthOr s.fallbackWidth s.font visit.item.label state
      ((visit, width), state)) state
  (ofMeasured s columnWidth visits, state)

def ofTree (s : Sizing α) (m : Metrics σ α) (t : Tree) (state : σ) : Layout α × σ :=
  let (width, state) := s.columnWidth m t state
  withColumns s m width t state

end Layout

end TidyTree
