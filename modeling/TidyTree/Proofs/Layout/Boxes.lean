import TidyTree.Layout.Basic
import TidyTree.Proofs.Layout.Visits
import TidyTree.Proofs.Placement.Outlines

set_option autoImplicit false
set_option relaxedAutoImplicit false

namespace TidyTree.Layout

variable {σ α : Type}

/-- The boxes are those of the visible tree of a root. -/
def Shows (l : Layout α) (root : Node) : Prop := l.boxes.map (·.visit) = root.visibleTree.preorder

/-- No node has two boxes, and every parent has one. -/
structure IsProper (l : Layout α) : Prop where
  nodup : l.ids.Nodup
  parents : ∀ b ∈ l.boxes, ∀ p ∈ b.parent, p ∈ l.ids

theorem map_visit_ofMeasured [Scalar α] (s : Sizing α) (columnWidth : α) (visits : Rose (Visit × α)) :
    (ofMeasured s columnWidth visits).boxes.map (·.visit) = visits.preorder.map Prod.fst := by
  conv_rhs => rw [← Placement.map_fst_tidy (separation s columnWidth) visits, Rose.preorder_map]
  rw [ofMeasured, List.map_map, List.map_map]
  rfl

theorem shows_withColumns [Scalar α] (s : Sizing α) (m : Metrics σ α) (columnWidth : α)
    (t : Tree) (state : σ) : (withColumns s m columnWidth t state).1.Shows t.root := by
  rw [Shows, withColumns, map_visit_ofMeasured, ← Rose.preorder_map,
    Rose.map_mapState fun v s => rfl]

theorem Shows.ids_eq {l : Layout α} {root : Node} (h : l.Shows root) :
    l.ids = root.drawn.map Node.id := by
  have items : (l.boxes.map (·.visit)).map (·.item) = root.drawn.map Node.item :=
    h ▸ Node.map_item_visits none 0 0 root
  calc l.ids = ((l.boxes.map (·.visit)).map (·.item)).map (·.id) := by
        rw [List.map_map, List.map_map]
        rfl
    _ = root.drawn.map Node.id := by
        rw [items, List.map_map]
        rfl

/-- A layout of a tree has bounds, for it has a box for the root. -/
theorem Shows.exists_bounds [Scalar α] {l : Layout α} {root : Node} (h : l.Shows root) :
    ∃ bounds, l.bounds? = some bounds := by
  obtain ⟨item, shown, children⟩ := root
  rw [Shows, Node.visibleTree, Node.visits, Rose.preorder, List.map_eq_cons_iff] at h
  obtain ⟨b, bs, boxes, _⟩ := h
  rw [bounds?, boxes]
  exact ⟨_, rfl⟩

theorem Shows.pairwise_ids {l : Layout α} {root : Node} {id : NodeId} (h : l.Shows root)
    (numbered : root.IsNumbered id) : l.ids.Pairwise (· < ·) :=
  h.ids_eq ▸ numbered.pairwise_id_drawn

theorem Shows.isProper {l : Layout α} {root : Node} {id : NodeId} (h : l.Shows root)
    (numbered : root.IsNumbered id) : l.IsProper where
  nodup := (h.pairwise_ids numbered).imp Nat.ne_of_lt
  parents := by
    intro b hb p hp
    have visit : b.visit ∈ root.visibleTree.preorder := h ▸ List.mem_map_of_mem hb
    have parent : b.visit.parent = some p := hp
    rcases Node.parent_of_mem_visits visit with same | ⟨x, hx, c, _, _, hparent⟩
    · rw [same] at parent
      exact absurd parent (by simp [Node.visit])
    · obtain rfl : x.id = p := Option.some.inj (hparent.symm.trans parent)
      exact h.ids_eq ▸ List.mem_map_of_mem hx

theorem isProper_empty [Scalar α] : (empty : Layout α).IsProper where
  nodup := List.nodup_nil
  parents := by simp [empty]

variable {l : Layout α}

theorem get?_eq_some {id : NodeId} {b : NodeBox α} (h : l.get? id = some b) :
    b ∈ l.boxes ∧ b.id = id :=
  ⟨List.mem_of_find?_eq_some h, by simpa using List.find?_some h⟩

theorem contains_iff (id : NodeId) : l.contains id = true ↔ id ∈ l.ids := by
  simp [contains, get?, ids, List.find?_isSome]

namespace IsProper

theorem get?_id (h : l.IsProper) {b : NodeBox α} (hb : b ∈ l.boxes) : l.get? b.id = some b := by
  have found : l.contains b.id = true := (contains_iff b.id).mpr (List.mem_map_of_mem hb)
  obtain ⟨c, hc⟩ := Option.isSome_iff_exists.mp found
  obtain ⟨hmem, hid⟩ := get?_eq_some hc
  rw [hc, List.inj_on_of_nodup_map h.nodup hmem hb hid]

theorem position?_id (h : l.IsProper) {b : NodeBox α} (hb : b ∈ l.boxes) :
    l.position? b.id = some b.position := by
  rw [position?, h.get?_id hb, Option.map_some]

end IsProper

theorem mem_links {link : Link} :
    link ∈ l.links ↔ ∃ b ∈ l.boxes, b.parent = some link.source ∧ b.id = link.target := by
  simp only [links, List.mem_filterMap, NodeBox.link?, Option.map_eq_some_iff]
  constructor
  · rintro ⟨b, hb, p, hp, rfl⟩
    exact ⟨b, hb, hp, rfl⟩
  · rintro ⟨b, hb, hp, hid⟩
    exact ⟨b, hb, link.source, hp, by rw [hid]⟩

theorem isSome_position?_iff (id : NodeId) : (l.position? id).isSome ↔ id ∈ l.ids := by
  rw [position?, Option.isSome_map, ← contains, contains_iff]

namespace IsProper

theorem nodup_links (h : l.IsProper) : l.links.Nodup := by
  have targets : (l.boxes.filterMap (·.link?)).Pairwise fun a b => a.target ≠ b.target := by
    rw [List.pairwise_filterMap]
    refine (List.pairwise_map.mp h.nodup).imp ?_
    intro a b hab la hla lb hlb
    simp only [NodeBox.link?, Option.map_eq_some_iff] at hla hlb
    obtain ⟨_, _, rfl⟩ := hla
    obtain ⟨_, _, rfl⟩ := hlb
    exact hab
  exact targets.imp fun hne heq => hne (congrArg Link.target heq)

end IsProper

end TidyTree.Layout
