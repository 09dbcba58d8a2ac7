import TidyTree.Proofs.Outline.Reloading

set_option autoImplicit false
set_option relaxedAutoImplicit false

namespace TidyTree

namespace Record

mutual

/-- The record without the hidden lists that stand beside visible ones. -/
def prune : Record → Record
  | ⟨label, kind, comment, visible, hidden⟩ =>
    ⟨label, kind, comment, pruneAll visible, if visible.isEmpty then pruneAll hidden else []⟩

def pruneAll : List Record → List Record
  | [] => []
  | r :: rs => r.prune :: pruneAll rs

end

mutual

/-- The records that are not left out, in pre-order: the record itself and what is kept of its
visible list, or of its hidden list if no child is visible. -/
def kept : Record → List Record
  | ⟨label, kind, comment, visible, hidden⟩ =>
    ⟨label, kind, comment, visible, hidden⟩ ::
      if visible.isEmpty then keptAll hidden else keptAll visible

def keptAll : List Record → List Record
  | [] => []
  | r :: rs => r.kept ++ keptAll rs

end

/-- What a record tells of its own hidden list, as the record of the node of a number: the loss of
the list, if there are visible children too. -/
def tell? (id : NodeId) (r : Record) : Option Dropped :=
  if r.visible.isEmpty || r.hidden.isEmpty then none else some ⟨id, r.label, r.hidden.length⟩

def tellAll (nodes : List Node) (records : List Record) : List Dropped :=
  (nodes.zip records).filterMap fun (n, r) => r.tell? n.id

private theorem tellAll_append {nodes nodes' : List Node} {records records' : List Record}
    (same : nodes.length = records.length) :
    tellAll (nodes ++ nodes') (records ++ records') =
      tellAll nodes records ++ tellAll nodes' records' := by
  rw [tellAll, List.zip_append same, List.filterMap_append]
  rfl

mutual

private theorem toRecord_number (id : NodeId) : ∀ r : Record, (r.number id).1.toRecord = r.prune
  | ⟨label, kind, comment, visible, hidden⟩ => by
    have shown := toRecordAll_numberAll (id + 1) visible
    have folded := toRecordAll_numberAll (id + 1) hidden
    rw [number, prune]
    cases visible with
    | cons v vs => simp [Node.toRecord, shown]
    | nil =>
      cases hidden with
      | cons h hs => simp [Node.toRecord, folded, pruneAll]
      | nil => rfl

private theorem toRecordAll_numberAll (id : NodeId) :
    ∀ rs : List Record, Node.toRecordAll (numberAll id rs).1 = pruneAll rs
  | [] => rfl
  | r :: rs => by
    rw [numberAll, Node.toRecordAll, toRecord_number id r, toRecordAll_numberAll _ rs, pruneAll]

end

mutual

private theorem map_toRecord_number (id : NodeId) :
    ∀ r : Record, (r.number id).1.preorder.map Node.toRecord = r.kept.map prune
  | ⟨label, kind, comment, visible, hidden⟩ => by
    have top := toRecord_number id ⟨label, kind, comment, visible, hidden⟩
    have shown := map_toRecord_numberAll (id + 1) visible
    have folded := map_toRecord_numberAll (id + 1) hidden
    rw [number] at top ⊢
    rw [Node.preorder, kept, List.map_cons, List.map_cons, top]
    cases visible with
    | cons v vs => exact congrArg _ shown
    | nil => exact congrArg _ folded

private theorem map_toRecord_numberAll (id : NodeId) : ∀ rs : List Record,
    (Node.preorderAll (numberAll id rs).1).map Node.toRecord = (keptAll rs).map prune
  | [] => rfl
  | r :: rs => by
    rw [numberAll, Node.preorderAll, keptAll, List.map_append, List.map_append,
      map_toRecord_number id r, map_toRecord_numberAll _ rs]

end

private theorem length_preorder_number (id : NodeId) (r : Record) :
    (r.number id).1.preorder.length = r.kept.length := by
  have same := congrArg List.length (r.map_toRecord_number id)
  rwa [List.length_map, List.length_map] at same

mutual

private theorem dropped_number (id : NodeId) :
    ∀ r : Record, (r.number id).2 = tellAll (r.number id).1.preorder r.kept
  | ⟨label, kind, comment, visible, hidden⟩ => by
    have shown := dropped_numberAll (id + 1) visible
    have folded := dropped_numberAll (id + 1) hidden
    rw [number, kept]
    cases visible with
    | nil =>
      rw [tellAll, Node.preorder, List.zip_cons_cons]
      exact folded
    | cons v vs =>
      rw [tellAll, Node.preorder, List.zip_cons_cons]
      cases hidden with
      | nil => exact shown
      | cons h hs => exact congrArg (Dropped.mk id label (h :: hs).length :: ·) shown

private theorem dropped_numberAll (id : NodeId) : ∀ rs : List Record,
    (numberAll id rs).2 = tellAll (Node.preorderAll (numberAll id rs).1) (keptAll rs)
  | [] => rfl
  | r :: rs => by
    rw [numberAll, Node.preorderAll, keptAll, tellAll_append (r.length_preorder_number id),
      ← dropped_number id r, ← dropped_numberAll _ rs]

end

end Record

namespace Tree

/-- The tree of a record has the pruned record, one node for each record that is kept, and tells of
each kept record with two lists that the hidden one is left out, in pre-order and under the number
of its node. -/
structure IsBuiltOf (t : Tree) (told : List Dropped) (r : Record) : Prop where
  toRecord : t.toRecord = r.prune
  nodes : t.nodes.map Node.toRecord = r.kept.map Record.prune
  numbers : t.nodes.map Node.id = List.range r.kept.length
  told : told = Record.tellAll t.nodes r.kept

private theorem isBuiltOf_ofRecord (r : Record) : (ofRecord r).IsBuiltOf (droppedOf r) r where
  toRecord := r.toRecord_number 0
  nodes := r.map_toRecord_number 0
  numbers := by
    have numbered := (r.isNumbered_number 0).map_id_preorder
    have span := congrArg List.length numbered
    rw [List.length_map, List.length_range', r.length_preorder_number] at span
    rw [span, List.range_eq_range']
    exact numbered
  told := r.dropped_number 0

/-- A record comes back from its tree without what was left out and told, and a tree that was folded
comes back from its record with nothing left out. -/
theorem ofRecord_toRecord_of_isReachable (r : Record) {t : Tree} (h : t.IsReachable) :
    (ofRecord r).IsBuiltOf (droppedOf r) r ∧
      (ofRecord t.toRecord).root = t.root ∧ droppedOf t.toRecord = [] := by
  have same := h.number_toRecord
  refine ⟨isBuiltOf_ofRecord r, ?_, ?_⟩
  · rw [ofRecord, same]
  · rw [droppedOf, same]

theorem ofRecord_toRecord_of_folds :
    ∃ (r : Record) (t : Tree), r.kept.map (·.label) = ["a", "b", "c", "d", "e", "f"] ∧
      droppedOf r = [⟨0, "a", 2⟩, ⟨1, "b", 1⟩, ⟨4, "e", 1⟩] ∧ t.IsReachable ∧
      t.nodes.map (·.state) = [.collapsed, .collapsed, .leaf, .expanded, .expanded, .leaf] ∧
      (ofRecord r).IsBuiltOf (droppedOf r) r ∧
      (ofRecord t.toRecord).root = t.root ∧ droppedOf t.toRecord = [] := by
  let lost : Record := { label := "lost", visible := [{}], hidden := [{}] }
  let e : Record := { label := "e", visible := [{ label := "f" }], hidden := [lost] }
  let b : Record := { label := "b", visible := [{ label := "c" }], hidden := [lost] }
  let r : Record :=
    { label := "a", visible := [b, { label := "d", hidden := [e] }], hidden := [lost, e] }
  let t : Tree := (((ofRecord r).folded .toggle 1).folded .expand 3).folded .collapse 0
  have reachable : t.IsReachable :=
    .folded (.folded (.folded (.ofRecord r) .toggle 1) .expand 3) .collapse 0
  exact ⟨r, t, by decide +kernel, by decide +kernel, reachable, by decide +kernel,
    ofRecord_toRecord_of_isReachable r reachable⟩

end Tree

end TidyTree
