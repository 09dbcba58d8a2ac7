import TidyTree.Label.Metrics
import TidyTree.Outline.Tree

set_option autoImplicit false
set_option relaxedAutoImplicit false

/-!
# Sizing

A diagram grows to the right: a level of the tree is a column, and the boxes of a column stand below
each other. All columns are equally wide. Their width follows from the widest label of the whole
tree, folded nodes included, so folding never changes it.
-/

namespace TidyTree

structure Sizing (α : Type) where
  font : Font α
  /-- The room between a label and the left and right side of its box. -/
  labelPadding : α
  boxHeight : α
  /-- The distance of two rows whose separation is one. -/
  rowSpacing : α
  minColumnWidth : α
  /-- The room added to the widest box of a column. -/
  columnMargin : α
  minBoxWidth : α
  /-- The least distance, in rows, of neighbours with one parent. -/
  siblingSeparation : α
  /-- The least distance, in rows, of neighbours with different parents. -/
  cousinSeparation : α
  /-- The width of a label that cannot be measured. -/
  fallbackWidth : α
  deriving DecidableEq, Repr

variable {σ α : Type} [Scalar α]

def Font.standard : Font α := ⟨24, "sans-serif"⟩

namespace Sizing

def standard : Sizing α where
  font := .standard
  labelPadding := 14
  boxHeight := 44
  rowSpacing := 90
  minColumnWidth := 90
  columnMargin := 28
  minBoxWidth := 80
  siblingSeparation := 1
  cousinSeparation := 1.6
  fallbackWidth := 40

instance : Inhabited (Sizing α) := ⟨standard⟩

def boxWidth (s : Sizing α) (labelWidth : α) : α :=
  Scalar.max (Scalar.ceil labelWidth + 2 * s.labelPadding) s.minBoxWidth

/-- The width of a column whose widest label is given; without any width the fallback counts. -/
def columnWidthOf (s : Sizing α) (widest : α) : α :=
  let widest := if widest > 0 then widest else s.fallbackWidth
  Scalar.max (Scalar.ceil (widest + 2 * s.labelPadding + s.columnMargin)) s.minColumnWidth

def labelWidths (s : Sizing α) (m : Metrics σ α) (labels : List String) (state : σ) : List α × σ :=
  m.widthsOr s.fallbackWidth s.font labels state

def columnWidth (s : Sizing α) (m : Metrics σ α) (t : Tree) (state : σ) : α × σ :=
  let (widths, state) := s.labelWidths m (t.nodes.map (·.item.label)) state
  (s.columnWidthOf (widths.foldl Scalar.max 0), state)

/-- The least distance, in rows, of two neighbours in a column: long labels push it up. -/
def separation (s : Sizing α) (columnWidth : α) (areSiblings : Bool) (width otherWidth : α) : α :=
  (if areSiblings then s.siblingSeparation else s.cousinSeparation) *
    Scalar.max ((width + otherWidth + 4 * s.labelPadding) / columnWidth) 1

end Sizing

end TidyTree
