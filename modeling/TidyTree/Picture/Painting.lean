import TidyTree.Picture.Scene

set_option autoImplicit false
set_option relaxedAutoImplicit false

namespace TidyTree

structure PaintedDisc (α : Type) where
  disc : Disc α
  fill : Color
  deriving DecidableEq, Repr

structure PaintedGlyph (α : Type) where
  origin : Point α
  path : String
  fill : Color
  deriving DecidableEq, Repr

structure PaintedNode (α : Type) where
  id : NodeId
  label : String
  kind : Option String
  state : BranchState
  position : Point α
  opacity : α
  bounds : Rect α
  cornerRadius : α
  lineWidth : α
  fill : Color
  stroke : Color
  text : Color
  font : Font α
  indicator? : Option (PaintedDisc α)
  toggle? : Option (PaintedGlyph α)
  isLeaving : Bool
  deriving DecidableEq, Repr

structure PaintedLink (α : Type) where
  link : Link
  source : Point α
  target : Point α
  opacity : α
  curve : Curve α
  stroke : Color
  lineWidth : α
  deriving DecidableEq, Repr

structure PaintedTooltip (α : Type) where
  tooltip : Tooltip α
  background : Color
  border : Color
  text : Color
  deriving DecidableEq, Repr

/-- All that is drawn at a moment, in the order of drawing. -/
structure Painting (α : Type) where
  transform : Transform α
  background : Color
  links : List (PaintedLink α)
  nodes : List (PaintedNode α)
  tooltip? : Option (PaintedTooltip α)
  deriving DecidableEq, Repr

variable {α : Type} [Scalar α]

def NodeShape.painted (n : NodeShape α) (font : Font α) (padding : α) (p : Palette) :
    PaintedNode α where
  id := n.id
  label := n.box.visit.item.label
  kind := n.box.visit.item.kind
  state := n.box.visit.state
  position := n.spot.position
  opacity := n.spot.opacity
  bounds := n.bounds
  cornerRadius := boxCornerRadius
  lineWidth := boxLineWidth
  fill := p.nodeFill
  stroke := p.nodeStroke
  text := p.text
  font := font
  indicator? := (n.indicator? padding).map (⟨·, p.indicator⟩)
  toggle? := do
    let origin ← n.toggle? padding
    let path ← n.box.visit.state.glyph?
    return ⟨origin, path, p.toggle⟩
  isLeaving := n.isLeaving

def LinkShape.painted (l : LinkShape α) (p : Palette) : PaintedLink α where
  link := l.link
  source := l.strand.source
  target := l.strand.target
  opacity := l.strand.opacity
  curve := l.curve
  stroke := p.link
  lineWidth := linkLineWidth

def Tooltip.painted (t : Tooltip α) (p : Palette) : PaintedTooltip α :=
  ⟨t, p.tooltipBackground, p.tooltipBorder, p.tooltipText⟩

def Scene.painting (s : Scene α) : Painting α :=
  let palette := s.theme.palette
  { transform := s.transform
    background := palette.background
    links := s.links.map (·.painted palette)
    nodes := s.nodes.map (·.painted s.font s.labelPadding palette)
    tooltip? := s.tooltip?.map (·.painted palette) }

/-- What a surface shows: a painting, or a message on the ground of the theme. -/
inductive Picture (α : Type) where
  | placeholder (message : String) (background : Color)
  | painting (painting : Painting α)
  deriving DecidableEq, Repr

def Frame.picture : Frame α → Picture α
  | .placeholder theme => .placeholder placeholderText theme.palette.background
  | .scene s => .painting s.painting

namespace Painting

def present (p : Painting α) : List (PaintedNode α) := p.nodes.filter (!·.isLeaving)

/-- What can be hit is what is painted: the boxes, the indicators and the tooltip. -/
theorem regions_eq (s : Scene α) : s.regions =
    { transform := s.painting.transform
      boxes := s.painting.present.map fun n => (n.id, n.bounds)
      discs := s.painting.present.filterMap fun n => n.indicator?.map (n.id, ·.disc)
      tooltip? := s.painting.tooltip?.map fun t => ⟨t.tooltip.body, t.tooltip.closeButton⟩ } := by
  have shown : s.painting.present =
      s.present.map (·.painted s.font s.labelPadding s.theme.palette) := by
    rw [present, Scene.painting, List.filter_map]
    rfl
  rw [shown, List.map_map, List.filterMap_map]
  have discs : s.present.filterMap (fun n => (n.indicator? s.labelPadding).map (n.id, ·)) =
      s.present.filterMap ((fun n : PaintedNode α => n.indicator?.map (n.id, ·.disc)) ∘
        (·.painted s.font s.labelPadding s.theme.palette)) := by
    refine congrArg (List.filterMap · s.present) (funext fun n => ?_)
    simp [NodeShape.painted, Function.comp_def]
  have tooltip : s.tooltip?.map (fun t => (⟨t.body, t.closeButton⟩ : TooltipRegion α)) =
      s.painting.tooltip?.map fun t => ⟨t.tooltip.body, t.tooltip.closeButton⟩ := by
    rw [Scene.painting, Option.map_map]
    rfl
  rw [Scene.regions, discs, tooltip]
  rfl

/-- Branches are painted with a toggle and leaves without one. -/
theorem isSome_toggle?_painted (n : NodeShape α) (font : Font α) (padding : α) (p : Palette) :
    (n.painted font padding p).toggle?.isSome = true ↔ n.box.visit.state ≠ .leaf := by
  rw [NodeShape.painted, NodeShape.toggle?]
  cases n.box.visit.state <;> simp [BranchState.glyph?]

end Painting

end TidyTree
