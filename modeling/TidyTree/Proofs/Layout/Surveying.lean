import TidyTree.Layout.Survey
import TidyTree.Proofs.Layout.Visits
import TidyTree.Proofs.Placement.Numbering

set_option autoImplicit false
set_option relaxedAutoImplicit false

/-!
# What a survey lists

The walk with a stack lists the visible tree in pre-order. When it has listed a node and everything
below it, the stack is as it was without the node, and the lists of children have grown by those of
the node's tree. So the survey of a tree holds the nodes with their standings in pre-order, and the
tree's lists of children.
-/

namespace TidyTree.Rose

variable {ν μ : Type}

mutual

/-- The tree with the standing of every node, the root at a place. -/
def rank (standing : Standing) (first : Nat) : Rose ν → Rose (ν × Standing)
  | mk label children =>
    mk (label, standing) (rankAll first (standing.depth + 1) 0 (first + 1) children)

def rankAll (parent depth siblingIndex first : Nat) : List (Rose ν) → List (Rose (ν × Standing))
  | [] => []
  | r :: rs =>
    r.rank ⟨some parent, depth, siblingIndex⟩ first ::
      rankAll parent depth (siblingIndex + 1) (first + r.preorder.length) rs

end

mutual

theorem map_fst_rank (standing : Standing) (first : Nat) :
    ∀ r : Rose ν, (r.rank standing first).map Prod.fst = r
  | mk label children => by
    rw [rank, map, mapAll_fst_rankAll]

private theorem mapAll_fst_rankAll (parent depth siblingIndex first : Nat) :
    ∀ rs : List (Rose ν), mapAll Prod.fst (rankAll parent depth siblingIndex first rs) = rs
  | [] => rfl
  | r :: rs => by
    rw [rankAll, mapAll, map_fst_rank, mapAll_fst_rankAll]

end

theorem map_fst_preorder_rank (standing : Standing) (first : Nat) (r : Rose ν) :
    (r.rank standing first).preorder.map Prod.fst = r.preorder := by
  rw [← preorder_map, map_fst_rank]

private theorem length_preorder_map (f : ν → μ) (r : Rose ν) :
    (r.map f).preorder.length = r.preorder.length := by
  rw [preorder_map, List.length_map]

theorem length_preorder_rank (standing : Standing) (first : Nat) (r : Rose ν) :
    (r.rank standing first).preorder.length = r.preorder.length := by
  rw [← map_fst_preorder_rank standing first r, List.length_map]

mutual

theorem rank_map (f : ν → μ) (standing : Standing) (first : Nat) :
    ∀ r : Rose ν, (r.map f).rank standing first = (r.rank standing first).map (Prod.map f id)
  | mk label children => by
    rw [map, rank, rank, map, rankAll_mapAll]
    rfl

private theorem rankAll_mapAll (f : ν → μ) (parent depth siblingIndex first : Nat) :
    ∀ rs : List (Rose ν), rankAll parent depth siblingIndex first (mapAll f rs) =
      mapAll (Prod.map f id) (rankAll parent depth siblingIndex first rs)
  | [] => rfl
  | r :: rs => by
    rw [mapAll, rankAll, rankAll, mapAll, rank_map, length_preorder_map, rankAll_mapAll]

end

mutual

private theorem numberFrom_map (f : ν → μ) (first : Nat) :
    ∀ r : Rose ν, (r.map f).numberFrom first = r.numberFrom first
  | mk label children => by
    rw [map, numberFrom, numberFrom, numberAllFrom_mapAll]

private theorem numberAllFrom_mapAll (f : ν → μ) (first : Nat) :
    ∀ rs : List (Rose ν), numberAllFrom first (mapAll f rs) = numberAllFrom first rs
  | [] => rfl
  | r :: rs => by
    rw [mapAll, numberAllFrom, numberAllFrom, numberFrom_map, length_preorder_map,
      numberAllFrom_mapAll]

end

theorem childLists_map (f : ν → μ) (r : Rose ν) : (r.map f).childLists = r.childLists := by
  rw [childLists, numberFrom_map, childLists]

end TidyTree.Rose

namespace TidyTree.Node

mutual

def shownTree : Node → Rose Node
  | mk item shown children =>
    .mk (mk item shown children) (if shown then shownTreeAll children else [])

def shownTreeAll : List Node → List (Rose Node)
  | [] => []
  | n :: ns => n.shownTree :: shownTreeAll ns

end

private theorem shownTree_eq (n : Node) : n.shownTree = .mk n (shownTreeAll n.visible) := by
  obtain ⟨item, shown, children⟩ := n
  cases shown <;> rfl

private theorem map_label_shownTreeAll (ns : List Node) : (shownTreeAll ns).map Rose.label = ns
    := by
  induction ns with
  | nil => rfl
  | cons n ns ih => rw [shownTreeAll, List.map_cons, ih, shownTree_eq, Rose.label_mk]

mutual

theorem preorder_shownTree : ∀ n : Node, n.shownTree.preorder = n.drawn
  | mk item shown children => by
    cases shown with
    | false => rfl
    | true =>
      rw [shownTree, Rose.preorder, drawn, if_pos rfl, if_pos rfl, preorderAll_shownTreeAll]

private theorem preorderAll_shownTreeAll :
    ∀ ns : List Node, Rose.preorderAll (shownTreeAll ns) = drawnAll ns
  | [] => rfl
  | n :: ns => by
    rw [shownTreeAll, Rose.preorderAll, drawnAll, preorder_shownTree, preorderAll_shownTreeAll]

end

mutual

theorem length_drawn : ∀ n : Node, n.drawn.length = n.visibleCount
  | mk item shown children => by
    cases shown with
    | false => rfl
    | true =>
      rw [drawn, visibleCount, if_pos rfl, if_pos rfl, List.length_cons, length_drawnAll,
        Nat.add_comm]

private theorem length_drawnAll : ∀ ns : List Node, (drawnAll ns).length = visibleCountAll ns
  | [] => rfl
  | n :: ns => by
    rw [drawnAll, visibleCountAll, List.length_append, length_drawn, length_drawnAll]

end

mutual

theorem childLabels_of_mem_subtrees {u : Rose Node} :
    ∀ {n : Node}, u ∈ n.shownTree.subtrees → u.childLabels = u.label.visible
  | mk item shown children, h => by
    rw [shownTree_eq, Rose.subtrees, List.mem_cons] at h
    rcases h with rfl | h
    · exact map_label_shownTreeAll _
    · cases shown with
      | false => exact absurd h List.not_mem_nil
      | true => exact childLabels_of_mem_subtreesAll h

private theorem childLabels_of_mem_subtreesAll {u : Rose Node} :
    ∀ {ns : List Node}, u ∈ Rose.subtreesAll (shownTreeAll ns) → u.childLabels = u.label.visible
  | [], h => absurd h List.not_mem_nil
  | n :: ns, h => by
    rw [shownTreeAll, Rose.subtreesAll, List.mem_append] at h
    rcases h with h | h
    · exact childLabels_of_mem_subtrees h
    · exact childLabels_of_mem_subtreesAll h

end

end TidyTree.Node

namespace TidyTree.Survey

open Rose (rank rankAll preorderAll subtreesAll numberFrom numberAllFrom childLabels childLists)
open Node (shownTree shownTreeAll visibleCountAll)
open Placement (stateAfter lastState)

private def grow (s : Survey) (parent : Option Nat) (rs : List (Rose (Node × Standing))) : Survey :=
  let places := numberAllFrom s.stops.length rs
  ⟨s.stops ++ preorderAll rs,
    adopt s.children parent (places.map Rose.label) ++ (subtreesAll places).map childLabels⟩

private def IsAligned (s : Survey) : Prop := s.children.length = s.stops.length

private theorem length_adopt (children : List (List Nat)) (parent : Option Nat) (places : List Nat)
    :
    (adopt children parent places).length = children.length := by
  cases parent with
  | none => rfl
  | some parent => exact List.length_modify _ _ _

private theorem adopt_nil (children : List (List Nat)) (parent : Option Nat) :
    adopt children parent [] = children := by
  cases parent with
  | none => rfl
  | some parent =>
    simp only [adopt, List.append_nil]
    exact List.modify_id parent children

private theorem adopt_append {children : List (List Nat)} {parent : Nat} (more : List (List Nat))
    (places : List Nat) (inside : parent < children.length) :
    adopt (children ++ more) (some parent) places =
      adopt children (some parent) places ++ more := by
  have further : 0 < (children.drop parent).length := by
    rw [List.length_drop]
    omega
  obtain ⟨list, rest, later⟩ := List.exists_cons_of_length_pos further
  simp only [adopt, List.modify_eq_take_drop]
  rw [List.take_append_of_le_length inside.le, List.drop_append_of_le_length inside.le, later,
    List.append_assoc]
  rfl

private theorem adopt_last {children : List (List Nat)} {parent : Nat}
    (last : parent = children.length)
    (places : List Nat) : adopt (children ++ [[]]) (some parent) places = children ++ [places] := by
  simp [adopt, List.modify_eq_take_drop, last]

private theorem adopt_adopt (children : List (List Nat)) (parent : Nat) (places later : List Nat) :
    adopt (adopt children (some parent) places) (some parent) later =
      adopt children (some parent) (places ++ later) := by
  simp only [adopt, List.modify_modify_eq]
  congr 1
  funext list
  exact List.append_assoc list places later

private theorem IsAligned.add {s : Survey} (h : s.IsAligned) (stop : Node × Standing) :
    (s.add stop).IsAligned := by
  rw [IsAligned, Survey.add, List.length_append, List.length_append, length_adopt, h]
  rfl

private theorem IsAligned.grow {s : Survey} (h : s.IsAligned) (parent : Option Nat)
    (rs : List (Rose (Node × Standing))) : (s.grow parent rs).IsAligned := by
  have places : (subtreesAll (numberAllFrom s.stops.length rs)).length = (preorderAll rs).length := by
    have labels := Rose.map_label_subtreesAll (numberAllFrom s.stops.length rs)
    rw [Rose.preorderAll_numberAllFrom] at labels
    simpa using congrArg List.length labels
  rw [IsAligned, Survey.grow, List.length_append, List.length_append, length_adopt, List.length_map,
    h, places]

private theorem grow_nil (s : Survey) (parent : Option Nat) : s.grow parent [] = s := by
  simp only [grow, numberAllFrom, preorderAll, subtreesAll, List.map_nil, List.append_nil,
    adopt_nil]

private theorem length_stops_add (s : Survey) (stop : Node × Standing) :
    (s.add stop).stops.length = s.stops.length + 1 := by
  rw [add, List.length_append, List.length_singleton]

private theorem grow_add {s : Survey} (h : s.IsAligned) (stop : Node × Standing)
    (rs : List (Rose (Node × Standing))) :
    (s.add stop).grow (some s.stops.length) rs = s.grow stop.2.parent [.mk stop rs] := by
  have last : s.stops.length = (adopt s.children stop.2.parent [s.stops.length]).length := by
    rw [length_adopt, h]
  simp only [grow, length_stops_add]
  rw [add, Survey.mk.injEq]
  constructor
  · simp only [preorderAll, Rose.preorder, List.append_nil, List.append_assoc, List.singleton_append]
  · rw [adopt_last last]
    simp only [numberAllFrom, numberFrom, subtreesAll, Rose.subtrees, List.append_nil, List.map_cons,
      List.map_nil, Rose.label_mk, List.append_assoc, List.singleton_append]
    rfl

private theorem grow_grow {s : Survey} {parent : Nat} (inside : parent < s.children.length)
    (r : Rose (Node × Standing)) (rs : List (Rose (Node × Standing))) :
    (s.grow (some parent) [r]).grow (some parent) rs = s.grow (some parent) (r :: rs) := by
  have length : (s.grow (some parent) [r]).stops.length = s.stops.length + r.preorder.length := by
    simp only [grow, preorderAll, List.append_nil, List.length_append]
  have adopting (places : List Nat) : parent < (adopt s.children (some parent) places).length := by
    rwa [length_adopt]
  rw [grow, length, grow, grow]
  simp only [preorderAll, List.append_nil, List.append_assoc, numberAllFrom, subtreesAll,
    List.map_cons, List.map_nil, List.map_append, Survey.mk.injEq, true_and]
  rw [adopt_append _ _ (adopting _), adopt_adopt, List.singleton_append, List.append_assoc]

private def row (parent depth siblingIndex : Nat) (ns : List Node) : List (Node × Standing) :=
  (ns.zipIdx siblingIndex).map fun child => (child.1, ⟨some parent, depth, child.2⟩)

private theorem push_eq (place : Nat) (stop : Node × Standing) (stack : List (Node × Standing)) :
    push place stop stack = row place (stop.2.depth + 1) 0 stop.1.visible ++ stack :=
  List.foldr_cons_eq_append

private theorem step_cons (s : Survey) (stop : Node × Standing) (stack : List (Node × Standing)) :
    step (s, stop :: stack) =
      some (s.add stop, row s.stops.length (stop.2.depth + 1) 0 stop.1.visible ++ stack) := by
  rw [step, push_eq]

private theorem stateAfter_add {σ : Type} (step : σ → Option σ) (m n : Nat) (s : σ) :
    stateAfter step (m + n) s = (stateAfter step m s).bind (stateAfter step n) := by
  induction m generalizing s with
  | zero => rw [Nat.zero_add, stateAfter, Option.bind_some]
  | succ m ih =>
    rw [Nat.succ_add, stateAfter, stateAfter]
    cases step s with
    | none => rfl
    | some t => exact ih t

mutual

private theorem stateAfter_tree (standing : Standing) (s : Survey) (h : s.IsAligned)
    (stack : List (Node × Standing)) :
    ∀ n : Node, stateAfter step n.visibleCount (s, (n, standing) :: stack) =
      some (s.grow standing.parent [n.shownTree.rank standing s.stops.length], stack)
  | .mk item shown children => by
    have listed := grow_add h (.mk item shown children, standing)
    rw [Node.visibleCount, Nat.add_comm, stateAfter, step_cons, Option.bind_some]
    cases shown with
    | false =>
      rw [Node.shownTree, rank, ← listed]
      exact congrArg (fun grown => some (grown, stack)) (grow_nil _ _).symm
    | true =>
      have below := stateAfter_row s.stops.length (standing.depth + 1) 0
        (s.add (.mk item true children, standing)) (h.add _)
        (length_stops_add s _ ▸ Nat.lt_succ_self _) stack children
      rw [length_stops_add] at below
      rw [if_pos rfl, Node.shownTree, if_pos rfl, rank, ← listed]
      exact below

private theorem stateAfter_row (parent depth siblingIndex : Nat) (s : Survey) (h : s.IsAligned)
    (inside : parent < s.stops.length) (stack : List (Node × Standing)) :
    ∀ ns : List Node,
      stateAfter step (visibleCountAll ns) (s, row parent depth siblingIndex ns ++ stack) =
        some (s.grow (some parent)
          (rankAll parent depth siblingIndex s.stops.length (shownTreeAll ns)), stack)
  | [] => by
    rw [shownTreeAll, rankAll, grow_nil]
    rfl
  | n :: ns => by
    let r := n.shownTree.rank ⟨some parent, depth, siblingIndex⟩ s.stops.length
    have first : stateAfter step n.visibleCount
        (s, row parent depth siblingIndex (n :: ns) ++ stack) =
          some (s.grow (some parent) [r], row parent depth (siblingIndex + 1) ns ++ stack) :=
      stateAfter_tree ⟨some parent, depth, siblingIndex⟩ s h _ n
    have length : (s.grow (some parent) [r]).stops.length =
        s.stops.length + n.shownTree.preorder.length := by
      simp only [grow, preorderAll, List.append_nil, List.length_append, Rose.length_preorder_rank, r]
    have rest := stateAfter_row parent depth (siblingIndex + 1) _ (h.grow (some parent) [r])
      (length ▸ Nat.lt_add_right _ inside) stack ns
    rw [visibleCountAll, stateAfter_add, first, Option.bind_some, rest, length,
      grow_grow (h ▸ inside), shownTreeAll, rankAll]

end

/-- The survey of a tree holds its nodes in pre-order with their standings, and its lists of
children. -/
theorem ofNode_eq (root : Node) :
    ofNode root =
      some ⟨(root.shownTree.rank ⟨none, 0, 0⟩ 0).preorder, root.shownTree.childLists⟩ := by
  have walked := stateAfter_tree ⟨none, 0, 0⟩ ⟨[], []⟩ rfl [] root
  have lists : (subtreesAll (numberAllFrom 0 [root.shownTree.rank ⟨none, 0, 0⟩ 0])).map childLabels =
      root.shownTree.childLists := by
    rw [← Rose.map_fst_rank ⟨none, 0, 0⟩ 0 root.shownTree, Rose.childLists_map, numberAllFrom,
      numberAllFrom, subtreesAll, subtreesAll, List.append_nil, Rose.map_fst_rank]
    rfl
  rw [ofNode, Placement.lastState_of_stateAfter walked rfl le_rfl, Option.map_some, grow]
  simp only [List.length_nil, List.nil_append, preorderAll, List.append_nil, lists]
  rfl

end TidyTree.Survey
