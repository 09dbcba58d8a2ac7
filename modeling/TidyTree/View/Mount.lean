import TidyTree.Relayout.Plan
import TidyTree.Settings.Basic

set_option autoImplicit false
set_option relaxedAutoImplicit false

/-!
# Mounted trees

A tree is mounted to be drawn. From then on it has a layout, nodes and links on stage, and the plan
that led from the layout before to this one. What leaves the layout stays on stage until it has
faded, so the box that it had is kept.
-/

namespace TidyTree

structure Span where
  scope : Scope
  expiry : Duration
  deriving DecidableEq, Repr

/-- A tree that is being drawn. -/
structure Mount (α : Type) where
  tree : Tree
  columnWidth : α
  layout : Layout α
  /-- The plan that led to the layout. -/
  plan : Plan α
  /-- The last box of every node that may still be on stage. -/
  boxes : Table NodeId (NodeBox α)
  nodes : Stage NodeId α (Spot α)
  links : Stage Link α (Strand α)
  /-- The nodes that were folded, with the clock reading until which their children are moving. -/
  folding : Table NodeId Duration
  /-- The scope of the last animated change, while the change lasts. -/
  span? : Option Span

inductive FoldState where
  | leaf
  | expanded
  | collapsed
  /-- The children are on their way in. -/
  | expanding
  /-- The children are on their way out. -/
  | collapsing
  deriving DecidableEq, Repr

namespace FoldState

/-- What is seen of a node in a state, while its children are moving or not. -/
def of (state : BranchState) (isMoving : Bool) : FoldState :=
  match state, isMoving with
  | .leaf, _ => leaf
  | .expanded, false => expanded
  | .expanded, true => expanding
  | .collapsed, false => collapsed
  | .collapsed, true => collapsing

def name : FoldState → String
  | leaf => "leaf"
  | expanded => "expanded"
  | collapsed => "collapsed"
  | expanding => "expanding"
  | collapsing => "collapsing"

end FoldState

variable {σ α : Type} [Scalar α]

namespace Mount

/-- A tree that has not been laid out yet. What was changed before is not news. -/
def bare (t : Tree) (columnWidth : α) : Mount α where
  tree := t.drained
  columnWidth
  layout := .empty
  plan := ⟨.nothing, [], []⟩
  boxes := .empty
  nodes := .empty
  links := .empty
  folding := .empty
  span? := none

def scope (m : Mount α) : Scope :=
  match m.span? with
  | none => .nothing
  | some span => span.scope

def isFolding (m : Mount α) (id : NodeId) (now : Duration) : Bool :=
  (m.folding.get? id).any (now < ·)

def foldState? (m : Mount α) (id : NodeId) (now : Duration) : Option FoldState :=
  (m.tree.find? id).map fun n => .of n.state (m.isFolding id now)

def isMoving (m : Mount α) (now : Duration) : Bool := m.nodes.isMoving now || m.links.isMoving now

/-- Go over to a layout with the transitions of a scope. -/
def adopt (m : Mount α) (settings : Settings α) (next : Layout α) (scope : Scope) (now : Duration) :
    Mount α :=
  let plan := Plan.between m.layout next scope m.tree
  let timing : Timing α := ⟨settings.animation, .cubicInOut, now⟩
  { m with
    layout := next
    plan
    boxes := next.boxes.foldl (fun boxes box => boxes.insert box.id box) m.boxes
    nodes := m.nodes.applyAll timing plan.nodes
    links := m.links.applyAll timing plan.links }

def relayout (m : Mount α) (settings : Settings α) (metrics : Metrics σ α) (scope : Scope)
    (now : Duration) (state : σ) : Mount α × σ :=
  let (next, state) := Layout.withColumns settings.sizing metrics m.columnWidth m.tree state
  (m.adopt settings next scope now, state)

/-- Let a scope begin that lasts as long as a change. -/
def beginSpan (m : Mount α) (settings : Settings α) (scope : Scope) (now : Duration) : Mount α :=
  { m with span? := some ⟨scope, now + settings.animation⟩ }

/-- Lay the tree out anew with the transitions of a scope, which lasts as long as they do. -/
def transition (m : Mount α) (settings : Settings α) (metrics : Metrics σ α) (scope : Scope)
    (now : Duration) (state : σ) : Mount α × σ :=
  (m.beginSpan settings scope now).relayout settings metrics scope now state

def ofTree (t : Tree) (settings : Settings α) (metrics : Metrics σ α) (now : Duration) (state : σ) :
    Mount α × σ :=
  let (width, state) := settings.sizing.columnWidth metrics t state
  (bare t width).transition settings metrics .everything now state

/-- The changes that the tree has to tell are taken up: the feed is empty, and the nodes that were
folded have their children moving. -/
def takeChanges (m : Mount α) (settings : Settings α) (now : Duration) : Mount α :=
  { m with
    tree := m.tree.drained
    folding := m.tree.feed.foldl (fun folding change =>
      folding.insert change.id (now + settings.animation)) m.folding }

/-- The scope of the changes that the tree has to tell: the subtree of the deepest node above all
of them. -/
def changeScope (m : Mount α) : Scope := .subtree (m.tree.commonAncestor (m.tree.feed.map (·.id)))

def sync (m : Mount α) (settings : Settings α) (metrics : Metrics σ α) (now : Duration)
    (state : σ) : Mount α × σ :=
  (m.takeChanges settings now).transition settings metrics m.changeScope now state

def expireSpan (m : Mount α) (now : Duration) : Mount α :=
  { m with span? := m.span?.filter (now < ·.expiry) }

def advance (m : Mount α) (now : Duration) : Mount α :=
  let nodes := m.nodes.tick now
  { m with
    folding := m.folding.filter fun _ expiry => now < expiry
    nodes
    links := m.links.tick now
    boxes := m.boxes.filter fun id _ => m.layout.contains id || nodes.holds id }

end Mount

end TidyTree
