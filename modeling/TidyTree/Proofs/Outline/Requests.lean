import TidyTree.Proofs.Outline.Navigation
import TidyTree.Proofs.Outline.Restating

set_option autoImplicit false
set_option relaxedAutoImplicit false

namespace TidyTree

inductive Request where
  | fold (how : Fold) (id : NodeId)
  /-- Forget the changes that are waiting to be told. -/
  | drain
  deriving DecidableEq, Repr

namespace Request

def foldOf? (id : NodeId) : Request → Option Fold
  | fold how j => if j = id then some how else none
  | drain => none

/-- The state that the requests which name a node lead to from another state, one after the other. -/
def stateAfter (requests : List Request) (id : NodeId) (state : BranchState) : BranchState :=
  (requests.filterMap (foldOf? id)).foldl (fun state how => how.apply state) state

end Request

namespace Tree

def comply (t : Tree) : Request → Tree
  | .fold how id => t.folded how id
  | .drain => t.drained

def complyAll (t : Tree) (requests : List Request) : Tree := requests.foldl comply t

/-- The change that a request makes behind others: it names a node of the tree, and it leads to
another state than those before that name the node. -/
def change? (t : Tree) (before : List Request) : Request → Option Change
  | .drain => none
  | .fold how id =>
    (t.nodes.find? (·.id == id)).bind fun n =>
      let state := Request.stateAfter before id n.state
      if how.apply state = state then none else some ⟨id, how.apply state⟩

def changes (t : Tree) (before : List Request) : List Request → List Change
  | [] => []
  | r :: rs => (t.change? before r).toList ++ t.changes (before ++ [r]) rs

end Tree

private theorem Fold.apply_eq_leaf_iff (how : Fold) (state : BranchState) :
    how.apply state = .leaf ↔ state = .leaf := by
  cases how <;> cases state <;> decide

/-- A way of folding as a rule that passes over all numbers but one. -/
private def Fold.applyTo (how : Fold) (id j : NodeId) (state : BranchState) : BranchState :=
  if j = id then how.apply state else state

private theorem Fold.keepsLeaves_applyTo (how : Fold) (id : NodeId) : KeepsLeaves (how.applyTo id)
    := by
  intro j state
  unfold applyTo
  split
  · exact how.apply_eq_leaf_iff state
  · exact Iff.rfl

namespace Request

private theorem stateAfter_fold (before : List Request) (how : Fold) (id j : NodeId)
    (state : BranchState) :
    stateAfter (before ++ [.fold how id]) j state = how.applyTo id j (stateAfter before j state) := by
  unfold stateAfter Fold.applyTo
  rw [List.filterMap_append, List.foldl_append]
  by_cases same : id = j
  · simp [foldOf?, same]
  · simp [foldOf?, same, Ne.symm same]

private theorem stateAfter_drain (before : List Request) (j : NodeId) (state : BranchState) :
    stateAfter (before ++ [.drain]) j state = stateAfter before j state := by
  have named : (before ++ [Request.drain]).filterMap (foldOf? j) = before.filterMap (foldOf? j) := by
    rw [List.filterMap_append]
    exact List.append_nil _
  rw [stateAfter, named, stateAfter]

private theorem keepsLeaves_stateAfter (requests : List Request) : KeepsLeaves
    (stateAfter requests) := by
  induction requests using List.reverseRecOn with
  | nil => exact fun _ _ => Iff.rfl
  | append_singleton before r ih =>
    intro id state
    cases r with
    | fold how j =>
      rw [stateAfter_fold]
      exact (how.keepsLeaves_applyTo j id _).trans (ih id state)
    | drain =>
      rw [stateAfter_drain]
      exact ih id state

end Request

namespace Tree

variable {t : Tree} {i : NodeId}

private theorem folded_of_find?_none {how : Fold} {id : NodeId} (h : t.find? id = none) :
    t.folded how id = t := by
  rw [folded, fold, h]

private theorem folded_of_find?_some {how : Fold} {id : NodeId} {n : Node}
    (h : t.find? id = some n) :
    t.folded how id = if how.apply n.state = n.state then t else
      ⟨t.root.setState id (how.apply n.state), t.revision + 1,
        t.feed ++ [⟨id, how.apply n.state⟩]⟩ := by
  rw [folded, fold, h]
  by_cases same : how.apply n.state = n.state
  · simp only [same, if_true]
  · simp only [same, if_false]

private theorem root_folded (numbered : t.root.IsNumbered i) (how : Fold) (id : NodeId) :
    (t.folded how id).root = t.root.restate (how.applyTo id) := by
  cases there : t.find? id with
  | none =>
    have outside := (find?_eq_none_iff numbered id).mp there
    rw [folded_of_find?_none there]
    refine (Node.restate_eq_self fun x hx => if_neg ?_).symm
    rintro rfl
    exact outside (List.mem_map_of_mem hx)
  | some n =>
    obtain ⟨hn, rfl⟩ := numbered.find?_eq_some_iff.mp there
    have only : ∀ x ∈ t.root.preorder,
        (if x.id = n.id then how.apply n.state else x.state) = how.applyTo n.id x.id x.state := by
      intro x hx
      unfold Fold.applyTo
      split
      · next same => rw [numbered.eq_of_id_eq hx hn same]
      · rfl
    rw [folded_of_find?_some there]
    split
    · next same =>
      refine (Node.restate_eq_self fun x hx => ?_).symm
      rw [← only x hx]
      split
      · next here => rw [same, numbered.eq_of_id_eq hx hn here]
      · rfl
    · rw [numbered.setState_eq_restate]
      exact Node.restate_congr only

private theorem isNumbered_comply (numbered : t.root.IsNumbered i) (r : Request) :
    (t.comply r).root.IsNumbered i := by
  cases r with
  | fold how id => exact numbered.folded how id
  | drain => exact numbered

theorem complyAll_append (t : Tree) (before later : List Request) :
    t.complyAll (before ++ later) = (t.complyAll before).complyAll later := List.foldl_append

private theorem complyAll_concat (t : Tree) (before : List Request) (r : Request) :
    t.complyAll (before ++ [r]) = (t.complyAll before).comply r := t.complyAll_append before [r]

theorem isNumbered_complyAll (numbered : t.root.IsNumbered i) (requests : List Request) :
    (t.complyAll requests).root.IsNumbered i := by
  induction requests generalizing t with
  | nil => exact numbered
  | cons r rs ih => exact ih (isNumbered_comply numbered r)

private theorem root_complyAll (numbered : t.root.IsNumbered i) (requests : List Request) :
    (t.complyAll requests).root = t.root.restate (Request.stateAfter requests) := by
  induction requests using List.reverseRecOn with
  | nil => exact (Node.restate_self t.root).symm
  | append_singleton before r ih =>
    rw [complyAll_concat]
    cases r with
    | fold how id =>
      have folded := root_folded (isNumbered_complyAll numbered before) how id
      refine folded.trans ?_
      rw [ih, Node.restate_restate (Request.keepsLeaves_stateAfter before)
        (how.keepsLeaves_applyTo id)]
      exact Node.restate_congr fun x _ => (Request.stateAfter_fold before how id x.id x.state).symm
    | drain =>
      refine ih.trans (Node.restate_congr fun x _ => ?_)
      exact (Request.stateAfter_drain before x.id x.state).symm

theorem nodes_complyAll (numbered : t.root.IsNumbered i) (requests : List Request) :
    (t.complyAll requests).nodes = t.nodes.map (Node.restate (Request.stateAfter requests)) := by
  rw [nodes, root_complyAll numbered, Node.preorder_restate]
  rfl

private theorem map_id_nodes_complyAll (numbered : t.root.IsNumbered i) (requests : List Request) :
    (t.complyAll requests).nodes.map Node.id = t.nodes.map Node.id := by
  rw [nodes_complyAll numbered, List.map_map]
  exact List.map_congr_left fun x _ => Node.id_restate _ x

private theorem find?_complyAll (numbered : t.root.IsNumbered i) (requests : List Request)
    (id : NodeId) :
    (t.complyAll requests).find? id =
      (t.nodes.find? (·.id == id)).map (Node.restate (Request.stateAfter requests)) := by
  have after := isNumbered_complyAll numbered requests
  cases there : t.nodes.find? (·.id == id) with
  | none =>
    rw [Option.map_none, find?_eq_none_iff after, map_id_nodes_complyAll numbered, List.mem_map]
    rintro ⟨x, hx, same⟩
    exact absurd same (by simpa using List.find?_eq_none.mp there x hx)
  | some n =>
    have hn : n ∈ t.nodes := List.mem_of_find?_eq_some there
    have same : n.id = id := by simpa using List.find?_some there
    refine after.find?_eq_some_iff.mpr ⟨?_, (Node.id_restate _ n).trans same⟩
    have member := List.mem_map_of_mem (f := Node.restate (Request.stateAfter requests)) hn
    rw [← nodes_complyAll numbered] at member
    exact member

private theorem tells_comply (numbered : t.root.IsNumbered i) (before : List Request) {r : Request}
    (stays : r ≠ .drain) :
    ((t.complyAll before).comply r).revision =
        (t.complyAll before).revision + (t.change? before r).toList.length ∧
      ((t.complyAll before).comply r).feed =
        (t.complyAll before).feed ++ (t.change? before r).toList := by
  cases r with
  | drain => exact absurd rfl stays
  | fold how id =>
    have there := find?_complyAll numbered before id
    rw [comply, change?]
    cases made : t.nodes.find? (·.id == id) with
    | none =>
      rw [made] at there
      rw [folded_of_find?_none there]
      exact ⟨rfl, (List.append_nil _).symm⟩
    | some n =>
      have same : n.id = id := by simpa using List.find?_some made
      rw [made, Option.map_some] at there
      rw [folded_of_find?_some there, Node.state_restate (Request.keepsLeaves_stateAfter before),
        same, Option.bind_some]
      dsimp only
      split
      · exact ⟨rfl, (List.append_nil _).symm⟩
      · exact ⟨rfl, rfl⟩

theorem revision_complyAll (numbered : t.root.IsNumbered i) (before later : List Request) :
    (t.complyAll (before ++ later)).revision =
      (t.complyAll before).revision + (t.changes before later).length := by
  induction later generalizing before with
  | nil => rw [List.append_nil, changes, List.length_nil, Nat.add_zero]
  | cons r rs ih =>
    have step : ((t.complyAll before).comply r).revision =
        (t.complyAll before).revision + (t.change? before r).toList.length := by
      by_cases drains : r = .drain
      · subst drains
        rfl
      · exact (tells_comply numbered before drains).1
    rw [List.append_cons, ih, complyAll_concat, step, changes, List.length_append, Nat.add_assoc]

/-- As long as a tree is not asked to forget, it has every change to tell, oldest first. -/
theorem feed_complyAll (numbered : t.root.IsNumbered i) (before : List Request)
    {later : List Request} (kept : .drain ∉ later) :
    (t.complyAll (before ++ later)).feed =
      (t.complyAll before).feed ++ t.changes before later := by
  induction later generalizing before with
  | nil => rw [List.append_nil, changes, List.append_nil]
  | cons r rs ih =>
    rw [List.mem_cons, not_or] at kept
    obtain ⟨stays, kept⟩ := kept
    have step := (tells_comply numbered before (Ne.symm stays)).2
    rw [List.append_cons, ih _ kept, complyAll_concat, step, changes, List.append_assoc]

private theorem feed_of_drained {before : List Request} (h : before.getLast? = some .drain) :
    (t.complyAll before).feed = [] := by
  obtain ⟨earlier, rfl⟩ := List.getLast?_eq_some_iff.mp h
  rw [complyAll_concat]
  rfl

/-- One tree is what requests make of another. -/
structure IsMadeBy (t start : Tree) (requests : List Request) : Prop where
  /-- Only numbers of nodes are known, and another number changes nothing. -/
  refused : ∀ how id, (t.fold how id = .error ⟨id⟩ ↔ id ∉ start.nodes.map Node.id) ∧
    (id ∉ start.nodes.map Node.id → t.comply (.fold how id) = t)
  answered : ∀ how, ∀ x ∈ t.nodes,
    t.fold how x.id = .ok (how.apply x.state, t.comply (.fold how x.id))
  items : t.nodes.map Node.item = start.nodes.map Node.item
  children : t.nodes.map (fun x => x.children.map Node.id) =
    start.nodes.map fun x => x.children.map Node.id
  states : t.nodes.map Node.state =
    start.nodes.map fun x => Request.stateAfter requests x.id x.state
  leaves : (t.nodes.filter (·.state = .leaf)).map Node.id =
    (start.nodes.filter (·.state = .leaf)).map Node.id
  commute : ∀ how how' id id', id ≠ id' →
    ((t.folded how id).folded how' id').root = ((t.folded how' id').folded how id).root
  cancel : ∀ id, ((t.folded .toggle id).folded .toggle id).root = t.root
  settle : ∀ how, how ≠ .toggle → ∀ id, (t.folded how id).folded how id = t.folded how id
  revision : t.revision = start.revision + (start.changes [] requests).length
  /-- What is to be told is what has changed since the tree was last asked to forget. -/
  feed : ∀ before later, before ++ later = requests →
    before = [] ∨ before.getLast? = some .drain → .drain ∉ later →
      t.feed = start.changes before later

private theorem fold_eq_error_iff (how : Fold) (id : NodeId) :
    t.fold how id = .error ⟨id⟩ ↔ t.find? id = none := by
  unfold fold
  cases t.find? id with
  | none => simp
  | some n =>
    dsimp only
    split <;> simp

private theorem fold_of_find?_some {how : Fold} {id : NodeId} {n : Node} (h : t.find? id = some n) :
    t.fold how id = .ok (how.apply n.state, t.folded how id) := by
  rw [folded, fold, h]
  dsimp only
  split <;> rfl

private theorem root_folded_comm (numbered : t.root.IsNumbered i) (how how' : Fold)
    {id id' : NodeId}
    (other : id ≠ id') :
    ((t.folded how id).folded how' id').root = ((t.folded how' id').folded how id).root := by
  rw [root_folded (numbered.folded how id), root_folded (numbered.folded how' id'),
    root_folded numbered, root_folded numbered,
    Node.restate_restate (how.keepsLeaves_applyTo id) (how'.keepsLeaves_applyTo id'),
    Node.restate_restate (how'.keepsLeaves_applyTo id') (how.keepsLeaves_applyTo id)]
  refine Node.restate_congr fun x _ => ?_
  unfold Fold.applyTo
  by_cases first : x.id = id
  · have second : x.id ≠ id' := fun same => other (first.symm.trans same)
    simp only [if_neg second]
  · simp only [if_neg first]

private theorem root_toggled_twice (numbered : t.root.IsNumbered i) (id : NodeId) :
    ((t.folded .toggle id).folded .toggle id).root = t.root := by
  rw [root_folded (numbered.folded .toggle id), root_folded numbered,
    Node.restate_restate (Fold.toggle.keepsLeaves_applyTo id) (Fold.toggle.keepsLeaves_applyTo id)]
  refine Node.restate_eq_self fun x _ => ?_
  unfold Fold.applyTo
  split
  · cases x.state <;> rfl
  · rfl

private theorem folded_again (numbered : t.root.IsNumbered i) {how : Fold}
    (directed : how ≠ .toggle)
    (id : NodeId) : (t.folded how id).folded how id = t.folded how id := by
  have there := find?_complyAll numbered [.fold how id] id
  cases made : t.nodes.find? (·.id == id) with
  | none =>
    rw [made] at there
    exact folded_of_find?_none there
  | some n =>
    have same : n.id = id := by simpa using List.find?_some made
    rw [made, Option.map_some] at there
    refine (folded_of_find?_some there).trans (if_pos ?_)
    rw [Node.state_restate (Request.keepsLeaves_stateAfter _), same]
    simp only [Request.stateAfter, Request.foldOf?, List.filterMap_cons, if_true,
      List.filterMap_nil, List.foldl_cons, List.foldl_nil]
    cases how with
    | toggle => exact absurd rfl directed
    | expand => cases n.state <;> rfl
    | collapse => cases n.state <;> rfl

/-- Whatever a tree that is made of a record is asked for, each node has its place, what it carries
and its children as before, and the state that the requests lead to which name it; and the tree has
counted and has to tell just the requests that changed a state. -/
theorem isMadeBy_complyAll (r : Record) (requests : List Request) :
    ((ofRecord r).complyAll requests).IsMadeBy (ofRecord r) requests := by
  have start : (ofRecord r).root.IsNumbered 0 := r.isNumbered_number 0
  have numbered := isNumbered_complyAll start requests
  have ids := map_id_nodes_complyAll start requests
  have nodes := nodes_complyAll start requests
  have states : ∀ x : Node, (x.restate (Request.stateAfter requests)).state =
      Request.stateAfter requests x.id x.state :=
    Node.state_restate (Request.keepsLeaves_stateAfter requests)
  constructor
  case refused =>
    intro how id
    rw [← ids]
    refine ⟨(fold_eq_error_iff how id).trans (find?_eq_none_iff numbered id), fun outside => ?_⟩
    exact folded_of_find?_none ((find?_eq_none_iff numbered id).mpr outside)
  case answered =>
    intro how x hx
    exact fold_of_find?_some (numbered.find?_eq_some_iff.mpr ⟨hx, rfl⟩)
  case items =>
    rw [nodes, List.map_map]
    exact List.map_congr_left fun x _ => Node.item_restate _ x
  case children =>
    rw [nodes, List.map_map]
    refine List.map_congr_left fun x _ => ?_
    rw [Function.comp_apply, Node.children_restate, List.map_map]
    exact List.map_congr_left fun c _ => Node.id_restate _ c
  case states =>
    rw [nodes, List.map_map]
    exact List.map_congr_left fun x _ => states x
  case leaves =>
    rw [nodes, List.filter_map, List.map_map]
    have same : (fun x : Node => decide (x.state = .leaf)) ∘
        Node.restate (Request.stateAfter requests) = fun x => decide (x.state = .leaf) := by
      funext x
      rw [Function.comp_apply, states, decide_eq_decide]
      exact Request.keepsLeaves_stateAfter requests x.id x.state
    rw [same]
    exact List.map_congr_left fun x _ => Node.id_restate _ x
  case commute => exact fun how how' id id' other => root_folded_comm numbered how how' other
  case cancel => exact fun id => root_toggled_twice numbered id
  case settle => exact fun how directed id => folded_again numbered directed id
  case revision => exact revision_complyAll start [] requests
  case feed =>
    rintro before later rfl drained kept
    rw [feed_complyAll start before kept]
    rcases drained with rfl | drained
    · rfl
    · rw [feed_of_drained drained, List.nil_append]

example :
    let start : Tree := .ofRecord
      { label := "root", visible := [{ label := "left", visible := [{ label := "leaf" }] }] }
    (start.complyAll [.fold .collapse 1, .drain, .fold .toggle 0, .fold .expand 1,
      .fold .expand 1]).feed = [⟨0, .collapsed⟩, ⟨1, .expanded⟩] := by decide +kernel

end Tree

end TidyTree
