import TidyTree.Pointer.Basic
import TidyTree.View.Mount

set_option autoImplicit false
set_option relaxedAutoImplicit false

/-!
# Views

A view shows a tree in a window and lets it be folded, panned and zoomed. It is told of events and
of the time, and is asked what to draw. A relayout never moves the window. A detached view no longer
reacts to events.
-/

namespace TidyTree

/-- A tree in a window, or an empty window. -/
structure View (σ α : Type) where
  settings : Settings α
  metrics : Metrics σ α
  /-- What the metrics remembers. -/
  memory : σ
  theme : Theme
  mount? : Option (Mount α)
  viewport : Viewport α
  pointer : Pointer α
  tooltip? : Option (Tooltip α)
  isDetached : Bool

variable {σ α : Type} [Scalar α]

namespace View

def ofSettings (settings : Settings α) (metrics : Metrics σ α) (memory : σ) : View σ α where
  settings
  metrics
  memory
  theme := settings.theme
  mount? := none
  viewport := .ofWindow settings.window
  pointer := .idle settings.clickDistance settings.zoomRequiresCtrl
  tooltip? := none
  isDetached := false

def tree? (v : View σ α) : Option Tree := v.mount?.map (·.tree)

def layout? (v : View σ α) : Option (Layout α) := v.mount?.map (·.layout)

def plan? (v : View σ α) : Option (Plan α) := v.mount?.map (·.plan)

def scope (v : View σ α) : Scope :=
  match v.mount? with
  | none => .nothing
  | some m => m.scope

def foldState? (v : View σ α) (id : NodeId) (now : Duration) : Option FoldState :=
  v.mount?.bind (·.foldState? id now)

/-- Something in the window moves, panning and zooming apart. -/
def isMoving (v : View σ α) (now : Duration) : Bool := v.mount?.any (·.isMoving now)

/-- Do something with the mounted tree that may measure labels. The diagram keeps its place in the
window, or gets one if it has none yet. -/
def remount (v : View σ α) (f : Mount α → σ → Mount α × σ) : View σ α :=
  match v.mount? with
  | none => v
  | some m =>
    let (m, memory) := f m v.memory
    { v with
      memory
      mount? := some m
      viewport := v.viewport.resume v.viewport.transform? m.layout.bounds? }

/-- Lay the tree out anew; everything jumps to its place. -/
def relayout (v : View σ α) (now : Duration) : View σ α :=
  v.remount fun m => m.relayout v.settings v.metrics .nothing now

def closeTooltip (v : View σ α) : View σ α :=
  { v with pointer := v.pointer.tooltipClosed, tooltip? := none }

/-- Show another tree, or none. It is placed in the window afresh. -/
def mount (v : View σ α) (tree? : Option Tree) (now : Duration) : View σ α :=
  let v := { v.closeTooltip with isDetached := false, viewport := v.viewport.clear, mount? := none }
  match tree? with
  | none => v
  | some t =>
    let (m, memory) := Mount.ofTree t v.settings v.metrics now v.memory
    { v with
      memory
      mount? := some m
      viewport := v.viewport.place m.layout.bounds? }

/-- The tree has changes to tell, and the view would draw them. -/
def hasNews (v : View σ α) : Bool := !v.isDetached && v.tree?.any (!·.feed.isEmpty)

def sync (v : View σ α) (now : Duration) : View σ α :=
  if v.hasNews then v.remount fun m => m.sync v.settings v.metrics now else v

def foldTree (v : View σ α) (how : Fold) (id : NodeId) :
    Except NodeNotFound (BranchState × View σ α) :=
  match v.mount? with
  | none => .error ⟨id⟩
  | some m => do
    let (state, tree) ← m.tree.fold how id
    return (state, { v with mount? := some { m with tree } })

/-- Forget the changes that the tree has to tell. -/
def drainTree (v : View σ α) : View σ α :=
  { v with mount? := v.mount?.map fun m => { m with tree := m.tree.drained } }

/-- Fold a node over and draw it; a leaf changes nothing. A detached view only tells the state. -/
def toggle (v : View σ α) (id : NodeId) (now : Duration) :
    Except NodeNotFound (BranchState × View σ α) :=
  if v.isDetached then
    match v.tree?.bind (·.find? id) with
    | none => .error ⟨id⟩
    | some n => .ok (n.state, v)
  else do
    let (state, folded) ← v.foldTree .toggle id
    return (state, if state = .leaf then v else folded.sync now)

/-- Let time pass. A detached view only ends the scope of a change. -/
def tick (v : View σ α) (now : Duration) : View σ α :=
  { v with
    mount? := v.mount?.map fun m =>
      let m := m.expireSpan now
      if v.isDetached then m else m.advance now }

/-- Something moves and the view is not detached, so it wants to be drawn again. -/
def isRunning (v : View σ α) (now : Duration) : Bool := !v.isDetached && v.isMoving now

/-- The window has another size; a side that is not positive is taken from the settings. -/
def resize (v : View σ α) (size : Size α) (now : Duration) : View σ α :=
  let container := size.orElse v.settings.window.container
  relayout { v with viewport := v.viewport.resize container } now

def setTheme (v : View σ α) (theme : Theme) (now : Duration) : View σ α :=
  relayout { v with theme } now

def comment? (v : View σ α) (id : NodeId) : Option String := do
  let t ← v.tree?
  let n ← t.find? id
  if n.item.hasComment then n.item.comment else none

/-- Show the comment of a node beside a point of the screen, if it has one. -/
def openTooltip (v : View σ α) (id : NodeId) (anchor : Point α) : View σ α :=
  match v.comment? id with
  | none => v
  | some text =>
    let style := v.settings.tooltip.scaled v.viewport.transform.scale
    let (tooltip, memory) := Tooltip.layOut v.metrics v.settings.sizing.font.family style id text
      anchor v.memory
    { v with memory, tooltip? := some tooltip }

/-- Let go of the pointer and of the tooltip, and do not react to events any more. -/
def detach (v : View σ α) : View σ α :=
  { v with isDetached := true, pointer := v.pointer.detach, tooltip? := none }

def adjust (v : View σ α) (f : Viewport α → Viewport α) : View σ α :=
  { v with viewport := f v.viewport }

end View

end TidyTree
