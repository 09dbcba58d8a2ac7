import TidyTree.Label.Metrics
import TidyTree.Outline.Node
import TidyTree.Plane.Rect
import TidyTree.Text.Blank
import TidyTree.Tooltip.Wrap

set_option autoImplicit false
set_option relaxedAutoImplicit false

namespace TidyTree

structure TooltipStyle (α : Type) where
  fontSize : α
  padding : α
  /-- The way from the anchor to the box. -/
  offset : Point α
  maxWidth : α
  cornerRadius : α
  deriving DecidableEq, Repr

/-- A comment on the screen. -/
structure Tooltip (α : Type) where
  node : NodeId
  text : String
  anchor : Point α
  style : TooltipStyle α
  lines : List String
  body : Rect α
  closeButton : Rect α
  deriving DecidableEq, Repr

variable {σ α : Type} [Scalar α]

namespace TooltipStyle

def standard : TooltipStyle α := ⟨14, 8, ⟨10, -10⟩, 300, 4⟩

def scaled (s : TooltipStyle α) (scale : α) : TooltipStyle α :=
  ⟨s.fontSize * scale, s.padding * scale, ⟨s.offset.x * scale, s.offset.y * scale⟩,
    s.maxWidth * scale, s.cornerRadius * scale⟩

def contentWidth (s : TooltipStyle α) : α := Scalar.max (s.maxWidth - 2 * s.padding) 0

def lineHeight (s : TooltipStyle α) : α := s.fontSize * 1.4

end TooltipStyle

namespace Tooltip

def header : String := "Comment"

def paragraphs (text : String) : List (List String) :=
  (Text.lines text.toList).map fun line => (Text.words line).map String.ofList

def measureWords (m : Metrics σ α) (font : Font α) (words : List String) (state : σ) :
    List (Measured α) × σ :=
  let (widths, state) := m.widthsOr 0 font words state
  (List.zipWith Measured.mk words widths, state)

def measureAll (m : Metrics σ α) (font : Font α) : List (List String) → σ → List (List (Measured α)) × σ
  | [], state => ([], state)
  | words :: rest, state =>
    let (measured, state) := measureWords m font words state
    let (others, state) := measureAll m font rest state
    (measured :: others, state)

/-- The rectangle of the box around the header and `lines` further lines, the widest of the content
being given. -/
def bodyOf (s : TooltipStyle α) (anchor : Point α) (lines : Nat) (widest : α) : Rect α :=
  ⟨anchor.x + s.offset.x, anchor.y + s.offset.y, Scalar.min (widest + 2 * s.padding) s.maxWidth,
    2 * s.padding + s.lineHeight * ((lines + 1 : Nat) : α)⟩

/-- The button in the upper right corner of the box, as large as a letter. -/
def closeButtonOf (s : TooltipStyle α) (body : Rect α) : Rect α :=
  let inset := s.padding * 0.625
  ⟨body.right - inset - s.fontSize, body.top + inset, s.fontSize, s.fontSize⟩

/-- The tooltip of a node's comment. What cannot be measured counts as having no width. The space is
measured first, then the words, the header and the lines. -/
def layOut (m : Metrics σ α) (family : String) (s : TooltipStyle α) (node : NodeId) (text : String)
    (anchor : Point α) (state : σ) : Tooltip α × σ :=
  let font : Font α := ⟨s.fontSize, family⟩
  let (space, state) := m.widthOr 0 font " " state
  let (measured, state) := measureAll m font (paragraphs text) state
  let lines := wrapLines s.contentWidth space measured
  let (headerWidth, state) := m.widthOr 0 font header state
  let (widths, state) := m.widthsOr 0 font lines state
  let widest := (widths ++ [headerWidth + s.fontSize]).foldl Scalar.max 0
  let body := bodyOf s anchor lines.length widest
  (⟨node, text, anchor, s, lines, body, closeButtonOf s body⟩, state)

def contains (t : Tooltip α) (screen : Point α) : Bool := t.body.contains screen

def hitsCloseButton (t : Tooltip α) (screen : Point α) : Bool := t.closeButton.contains screen

def headerOrigin (t : Tooltip α) : Point α :=
  ⟨t.body.left + t.style.padding, t.body.top + t.style.padding + t.style.fontSize⟩

def lineOrigin (t : Tooltip α) (i : Nat) : Point α :=
  ⟨t.headerOrigin.x, t.headerOrigin.y + t.style.lineHeight * ((i + 1 : Nat) : α)⟩

end Tooltip

end TidyTree
