import TidyTree.Look.Theme
import TidyTree.Picture.Shapes
import TidyTree.Tooltip.Basic

set_option autoImplicit false
set_option relaxedAutoImplicit false

namespace TidyTree

/-- What is drawn of a diagram at a moment, in the order of drawing. -/
structure Scene (α : Type) where
  transform : Transform α
  theme : Theme
  font : Font α
  labelPadding : α
  links : List (LinkShape α)
  nodes : List (NodeShape α)
  tooltip? : Option (Tooltip α)
  deriving DecidableEq, Repr

inductive Frame (α : Type) where
  | placeholder (theme : Theme)
  | scene (scene : Scene α)
  deriving DecidableEq, Repr

def placeholderText : String := "No tree data available."

variable {α : Type} [Scalar α]

namespace Scene

def node? (s : Scene α) (id : NodeId) : Option (NodeShape α) := s.nodes.find? (·.id == id)

def link? (s : Scene α) (link : Link) : Option (LinkShape α) := s.links.find? (·.link == link)

def present (s : Scene α) : List (NodeShape α) := s.nodes.filter (!·.isLeaving)

/-- What can be hit of the scene. -/
def regions (s : Scene α) : Regions α where
  transform := s.transform
  boxes := s.present.map fun n => (n.id, n.bounds)
  discs := s.present.filterMap fun n => (n.indicator? s.labelPadding).map (n.id, ·)
  tooltip? := s.tooltip?.map fun t => ⟨t.body, t.closeButton⟩

end Scene

end TidyTree
