import TidyTree.Picture.Scene
import TidyTree.View.Basic

set_option autoImplicit false
set_option relaxedAutoImplicit false

namespace TidyTree

variable {σ α : Type} [Scalar α]

namespace Mount

/-- The nodes of the layout, each where it is on stage. -/
def presentNodes (m : Mount α) (now : Duration) : List (NodeShape α) :=
  m.layout.boxes.map fun box =>
    ⟨box, (m.nodes.sample? box.id now).getD (.shown box.position), false⟩

def leavingNodes (m : Mount α) (now : Duration) : List (NodeShape α) :=
  m.boxes.entries.filterMap fun (id, box) =>
    if m.layout.contains id then none else (m.nodes.sample? id now).map (⟨box, ·, true⟩)

def presentLinks (m : Mount α) (now : Duration) : List (LinkShape α) :=
  m.layout.links.filterMap fun link =>
    ((m.links.sample? link now).or (m.layout.strand? link)).map (⟨link, ·⟩)

def leavingLinks (m : Mount α) (now : Duration) : List (LinkShape α) :=
  ((m.links.samples now).filter fun (link, _) => link ∉ m.layout.links).map
    fun (link, strand) => ⟨link, strand⟩

end Mount

namespace View

def sceneOf (v : View σ α) (m : Mount α) (now : Duration) : Scene α where
  transform := v.viewport.transform
  theme := v.theme
  font := v.settings.sizing.font
  labelPadding := v.settings.sizing.labelPadding
  links := m.presentLinks now ++ m.leavingLinks now
  nodes := m.presentNodes now ++ m.leavingNodes now
  tooltip? := v.tooltip?

def scene? (v : View σ α) (now : Duration) : Option (Scene α) := v.mount?.map (v.sceneOf · now)

def frame (v : View σ α) (now : Duration) : Frame α :=
  match v.scene? now with
  | none => .placeholder v.theme
  | some scene => .scene scene

def regions (v : View σ α) (now : Duration) : Regions α :=
  match v.scene? now with
  | none => { Regions.empty with transform := v.viewport.transform }
  | some scene => scene.regions

end View

end TidyTree
