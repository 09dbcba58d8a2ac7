import TidyTree.Outline.Tree

set_option autoImplicit false
set_option relaxedAutoImplicit false

/-!
# Scopes

The scope of a relayout says which nodes may move smoothly; all others jump. Membership follows the
tree and not the drawing, so a node that is folded away still belongs to its ancestors.
-/

namespace TidyTree

/-- The nodes that may move smoothly. -/
inductive Scope where
  | nothing
  | everything
  /-- A node with all nodes below it. -/
  | subtree (root : NodeId)
  deriving DecidableEq, Repr

/-- What a scope comes to in a tree. -/
inductive Scope.Matcher where
  | nothing
  | everything
  /-- A node with all nodes that it owns. -/
  | owner (node : Node)

def Scope.Matcher.includes : Matcher → NodeId → Bool
  | nothing, _ => false
  | everything, _ => true
  | owner node, id => node.owns id

namespace Scope

/-- The scope in a tree. A subtree that the tree does not have holds nothing. -/
def matcher (s : Scope) (t : Tree) : Matcher :=
  match s with
  | nothing => .nothing
  | everything => .everything
  | subtree root =>
    match t.find? root with
    | some node => .owner node
    | none => .nothing

def includes (s : Scope) (t : Tree) (id : NodeId) : Bool := (s.matcher t).includes id

theorem includes_subtree (t : Tree) (root id : NodeId) :
    (subtree root).includes t id = t.isWithin root id := by
  rw [includes, matcher, Tree.isWithin]
  cases t.find? root <;> rfl

def name : Scope → String
  | nothing => "none"
  | everything => "all"
  | subtree root => "subtree(" ++ root.name ++ ")"

end Scope

end TidyTree
