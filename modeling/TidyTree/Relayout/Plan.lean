import TidyTree.Layout.Basic
import TidyTree.Motion.Visual
import TidyTree.Relayout.Scope
import TidyTree.Relayout.Transition

set_option autoImplicit false
set_option relaxedAutoImplicit false

/-!
# Plans

A plan compares two layouts and gives every node and every link of either a transition. What comes
grows out of the nearest ancestor that was drawn before, and what goes shrinks into the nearest one
that is drawn afterwards. A link moves smoothly when one of its ends is in the scope.
-/

namespace TidyTree

instance : Key Link where
  lt a b := a.source < b.source ∨ (a.source = b.source ∧ a.target < b.target)
  decideLT a b := inferInstanceAs (Decidable (_ ∨ _))
  irrefl a := by
    rintro (h | ⟨_, h⟩)
    · exact Nat.lt_irrefl _ h
    · exact Nat.lt_irrefl _ h
  trans := by
    rintro a b c (h | ⟨e, h⟩) (k | ⟨f, k⟩)
    · exact Or.inl (Nat.lt_trans h k)
    · exact Or.inl (f ▸ h)
    · exact Or.inl (e ▸ k)
    · exact Or.inr ⟨e.trans f, Nat.lt_trans h k⟩
  total a b := by
    obtain ⟨s, t⟩ := a
    obtain ⟨u, v⟩ := b
    rcases Nat.lt_trichotomy s u with h | h | h
    · exact Or.inl (Or.inl h)
    · subst h
      rcases Nat.lt_trichotomy t v with k | k | k
      · exact Or.inl (Or.inr ⟨rfl, k⟩)
      · exact Or.inr (Or.inl (by rw [k]))
      · exact Or.inr (Or.inr (Or.inr ⟨rfl, k⟩))
    · exact Or.inr (Or.inr (Or.inl h))

/-- The transition of every node and every link from one layout to the next. -/
structure Plan (α : Type) where
  scope : Scope
  nodes : List (Transition NodeId (Spot α))
  links : List (Transition Link (Strand α))
  deriving DecidableEq, Repr

variable {α : Type} [Scalar α]

namespace Layout

def strand? (l : Layout α) (link : Link) : Option (Strand α) := do
  let source ← l.position? link.source
  let target ← l.position? link.target
  return .shown source target

/-- The position that the nearest of a node and its ancestors has in `other`. The ancestors are
those that the layout knows; a parent has a smaller number than its children. -/
def nearest? (l other : Layout α) (id : NodeId) : Option (Point α) :=
  match other.position? id with
  | some position => some position
  | none =>
    match (l.get? id).bind (·.parent) with
    | none => none
    | some parent => if parent < id then nearest? l other parent else none
termination_by id

end Layout

namespace Plan

def nodeTo (previous next : Layout α) (includes : NodeId → Bool) (box : NodeBox α) :
    Transition NodeId (Spot α) :=
  let mode := Mode.of (includes box.id)
  match previous.position? box.id with
  | some position => ⟨box.id, .updating, mode, .shown position, .shown box.position⟩
  | none =>
    let origin := (box.parent.bind (next.nearest? previous)).getD box.position
    ⟨box.id, .entering, mode, .hidden origin, .shown box.position⟩

def nodeFrom (previous next : Layout α) (includes : NodeId → Bool) (box : NodeBox α) :
    Transition NodeId (Spot α) :=
  let goal := (box.parent.bind (previous.nearest? next)).getD box.position
  ⟨box.id, .exiting, Mode.of (includes box.id), .shown box.position, .hidden goal⟩

def includesLink (includes : NodeId → Bool) (link : Link) : Bool :=
  includes link.source || includes link.target

def linkTo (previous next : Layout α) (includes : NodeId → Bool) (link : Link) (finish : Strand α) :
    Transition Link (Strand α) :=
  let mode := Mode.of (includesLink includes link)
  match if link ∈ previous.links then previous.strand? link else none with
  | some start => ⟨link, .updating, mode, start, finish⟩
  | none =>
    let origin := (next.nearest? previous link.source).getD finish.source
    ⟨link, .entering, mode, .gathered origin, finish⟩

def linkFrom (previous next : Layout α) (includes : NodeId → Bool) (link : Link)
    (start : Strand α) : Transition Link (Strand α) :=
  let goal := (previous.nearest? next link.source).getD start.source
  ⟨link, .exiting, Mode.of (includesLink includes link), start, .gathered goal⟩

/-- The transitions between two layouts: first what the next one draws, in its order, then what only
the previous one draws, in its order. -/
def between (previous next : Layout α) (scope : Scope) (t : Tree) : Plan α :=
  let includes := (scope.matcher t).includes
  { scope
    nodes :=
      next.boxes.map (nodeTo previous next includes) ++
        (previous.boxes.filter fun b => !next.contains b.id).map (nodeFrom previous next includes)
    links :=
      next.links.filterMap (fun link =>
        (next.strand? link).map (linkTo previous next includes link)) ++
      (previous.links.filter fun link => link ∉ next.links).filterMap (fun link =>
        (previous.strand? link).map (linkFrom previous next includes link)) }

def node? (p : Plan α) (id : NodeId) : Option (Transition NodeId (Spot α)) :=
  p.nodes.find? (·.key == id)

def link? (p : Plan α) (link : Link) : Option (Transition Link (Strand α)) :=
  p.links.find? (·.key == link)

def animatedNodes (p : Plan α) : List NodeId :=
  (p.nodes.filter (·.mode = .animated)).map (·.key)

def isAnimated (p : Plan α) : Bool :=
  p.nodes.any (·.mode = .animated) || p.links.any (·.mode = .animated)

end Plan

end TidyTree
