import TidyTree.Proofs.Placement.Placing

set_option autoImplicit false
set_option relaxedAutoImplicit false

namespace TidyTree.Placement

open Rose (preorderAll)

variable {α : Type} [Scalar α]

/-- The cells after the nodes of some trees have been lowered. The coordinates in them are those of
the placed drawings, and the cells of other nodes are as before. -/
structure Cells.Lowered (cells lowered : Cells α) (nodes : List Nat)
    (placed : List (Nat × α)) : Prop where
  coordinates : nodes.map (fun x => (lowered x).coordinate) = placed.map Prod.snd
  others : ∀ x, x ∉ nodes → lowered x = cells x

mutual

private theorem lowered_draft {k : Kinship} : ∀ {d : Draft Nat α} {base : α} {cells : Cells α},
    cells.Draws k d → k.Fits d.outline → d.outline.preorder.Nodup →
    k.parent d.outline.label ∉ d.outline.preorder →
    (cells (k.parent d.outline.label)).offset = base →
    cells.Lowered (d.outline.preorder.foldl (Cells.lower k) cells) d.outline.preorder
      (d.place base).preorder
  | .mk label coordinate offset ds, base, cells, ⟨atLabel, atOffset, below⟩, fits, once, aside,
      above => by
    rw [Draft.outline] at fits once aside above ⊢
    rw [Rose.label_mk] at aside above
    rw [Rose.preorder, List.nodup_cons] at once
    rw [Rose.preorder, List.mem_cons, not_or] at aside
    -- The root is lowered before what is below it, so its offset is the base there. The offset of a
    -- leaf may have been corrected for a contour, but nothing is below a leaf.
    have root : cells.lower k label = cells.alter label fun c =>
        { c with coordinate := c.coordinate + base, offset := c.offset + base } := by
      rw [Cells.lower, above]
    have sunk : (cells.lower k label label).coordinate = coordinate + base := by
      rw [root, Cells.alter_self, atLabel]
    have untouched : ∀ x, x ≠ label → cells.lower k label x = cells x := by
      intro x other
      rw [root, Cells.alter_of_ne _ _ other]
    have inner : k.children label = (Draft.outlineAll ds).map Rose.label := fits.root_children
    have below_base : ds ≠ [] → (cells.lower k label label).offset = offset + base := by
      intro nonempty
      rw [root, Cells.alter_self, ← atOffset]
      rw [inner, Draft.outlineAll_eq_map]
      simpa using nonempty
    obtain ⟨coordinates, others⟩ := lowered_drafts (k := k) (p := label)
      (below.congr fun x hx => .of_eq (untouched x (fun same => once.1 (same ▸ hx))))
      (fun t ht => fits.of_mem ht) once.2
      (fun t ht => by
        obtain ⟨i, hi⟩ := List.getElem?_of_mem ht
        exact (fits.root_parent hi).1)
      once.1 below_base
    rw [Rose.preorder, List.foldl_cons, Draft.place, Rose.preorder]
    constructor
    · rw [List.map_cons, List.map_cons, coordinates, others label once.1, sunk]
    · intro x hx
      rw [List.mem_cons, not_or] at hx
      rw [others x hx.2, untouched x hx.1]

private theorem lowered_drafts {k : Kinship} : ∀ {ds : List (Draft Nat α)} {p : Nat} {base : α}
    {cells : Cells α}, cells.DrawsAll k ds → (∀ t ∈ Draft.outlineAll ds, k.Fits t) →
    (preorderAll (Draft.outlineAll ds)).Nodup →
    (∀ t ∈ Draft.outlineAll ds, k.parent t.label = p) → p ∉ preorderAll (Draft.outlineAll ds) →
    (ds ≠ [] → (cells p).offset = base) →
    cells.Lowered ((preorderAll (Draft.outlineAll ds)).foldl (Cells.lower k) cells)
      (preorderAll (Draft.outlineAll ds)) (preorderAll (Draft.placeAll base ds))
  | [], p, base, cells, _, _, _, _, _, _ => ⟨rfl, fun _ _ => rfl⟩
  | d :: ds, p, base, cells, ⟨first, rest⟩, fits, once, parents, aside, above => by
    rw [Draft.outlineAll] at fits once parents aside ⊢
    rw [preorderAll] at once aside ⊢
    obtain ⟨firstOnce, restOnce, apart⟩ := List.nodup_append.mp once
    rw [List.mem_append, not_or] at aside
    have parent := parents d.outline List.mem_cons_self
    have offset := above (by simp)
    obtain ⟨coordinates, others⟩ := lowered_draft (k := k) first (fits d.outline List.mem_cons_self)
      firstOnce (by rw [parent]; exact aside.1) (by rw [parent, offset])
    obtain ⟨coordinatesRest, othersRest⟩ := lowered_drafts (k := k) (p := p)
      (rest.congr fun x hx => .of_eq (others x fun inside => apart x inside x hx rfl))
      (fun t ht => fits t (List.mem_cons_of_mem _ ht)) restOnce
      (fun t ht => parents t (List.mem_cons_of_mem _ ht)) aside.2
      (fun _ => (congrArg Cell.offset (others p aside.1)).trans offset)
    rw [List.foldl_append, Draft.placeAll, preorderAll]
    constructor
    · rw [List.map_append, List.map_append, coordinatesRest, ← coordinates]
      congr 1
      apply List.map_congr_left
      intro x hx
      rw [othersRest x fun inside => apart x hx x inside rfl]
    · intro x hx
      rw [List.mem_append, not_or] at hx
      rw [othersRest x hx.2, others x hx.1]

end

open Rose (numberFrom childLists)

private theorem fits_virtual {ν : Type} (r : Rose ν) :
    (Kinship.ofChildren r.childLists).Fits (.mk r.preorder.length [r.numberFrom 0]) := by
  obtain ⟨children, parent, place⟩ := root_ofChildren r
  have root : (r.numberFrom 0).label = 0 := by
    cases r
    rfl
  have below := fits_ofChildren r
  have cases : ∀ t ∈ (Rose.mk r.preorder.length [r.numberFrom 0]).subtrees,
      t = .mk r.preorder.length [r.numberFrom 0] ∨ t ∈ (r.numberFrom 0).subtrees := by
    intro t ht
    rw [Rose.subtrees, Rose.subtreesAll, Rose.subtreesAll, List.append_nil, List.mem_cons] at ht
    exact ht
  constructor
  · intro t ht
    rcases cases t ht with rfl | ht
    · rw [Rose.label_mk, children, Rose.childLabels, Rose.children_mk, List.map_singleton, root]
    · exact below.children t ht
  · intro t ht i c hc
    rcases cases t ht with rfl | ht
    · rw [Rose.children_mk, List.getElem?_singleton] at hc
      obtain ⟨rfl, rfl⟩ : i = 0 ∧ r.numberFrom 0 = c := by
        split at hc
        · next first => exact ⟨first, Option.some.inj hc⟩
        · exact absurd hc (by simp)
      rw [root]
      exact ⟨parent, place⟩
    · exact below.parent t ht i c hc

private theorem nodup_virtual {ν : Type} (r : Rose ν) :
    (Rose.mk r.preorder.length [r.numberFrom 0]).preorder.Nodup := by
  rw [Rose.preorder, preorderAll, preorderAll, List.append_nil, List.nodup_cons,
    Rose.preorder_numberFrom]
  exact ⟨fun inside => by simp at inside, List.nodup_range'⟩

theorem exists_places {ν : Type} (separation : Nat → Nat → α) (r : Rose ν) :
    ∃ placed, Cells.start.Places (Kinship.ofChildren r.childLists) separation placed
      r.preorder.length [] [r.numberFrom 0] [] (r.numberFrom 0).postorder := by
  refine exists_places_tree _ separation (r.numberFrom 0) (fits_virtual r) (nodup_virtual r) ?_
    (reflects_nil _ separation rfl) fun x _ => rfl
  rw [List.nil_append, Rose.preorder, preorderAll, preorderAll, List.append_nil, List.length_cons,
    size_ofChildren, length_childLists, Rose.preorder_numberFrom, List.length_range']

/-- Placement by threads gives every node of a tree the coordinate that it has in the tidy
drawing. -/
theorem positions_eq {ν : Type} (separation : Nat → Nat → α) (r : Rose ν) :
    positions separation r.childLists =
      some ((tidy separation (r.numberFrom 0)).preorder.map Prod.snd) := by
  obtain ⟨placed, places⟩ := exists_places separation r
  let k : Kinship := Kinship.ofChildren r.childLists
  let root : Slot (Block Nat α) α :=
    Forest.empty.enter separation (block separation (r.numberFrom 0))
  have content : root.content = block separation (r.numberFrom 0) := Forest.content_enter _ _
  have outline : root.draft.outline = r.numberFrom 0 := by
    rw [Slot.outline_draft, content, outline_block]
  have label : root.content.label = 0 := by
    have same := congrArg Rose.label outline
    cases r
    exact same
  have nodes : List.range r.childLists.length = root.draft.outline.preorder := by
    rw [outline, Rose.preorder_numberFrom, length_childLists, List.range_eq_range']
  have inRow : root ∈ (forest separation .empty ([] ++ [r.numberFrom 0])).row := List.mem_cons_self
  obtain ⟨coordinate, offset, -, -⟩ := places.reflects.stands root inRow
  have below := places.reflects.draws root inRow
  obtain ⟨-, parent, -⟩ := root_ofChildren r
  have once := nodup_virtual r
  rw [Rose.preorder, preorderAll, preorderAll, List.append_nil, List.nodup_cons] at once
  let based : Cells α :=
    placed.alter r.preorder.length fun c => { c with offset := -(placed 0).coordinate }
  have drawn : based.Draws k root.draft := by
    have whole : placed.Draws k root.draft := ⟨coordinate, offset, below⟩
    refine whole.congr fun x hx => .of_eq (Cells.alter_of_ne _ _ ?_)
    rintro rfl
    exact once.1 (outline ▸ hx)
  have aside : k.parent root.draft.outline.label = r.preorder.length := by
    rw [show root.draft.outline.label = 0 from label, parent]
  have base : (based (k.parent root.draft.outline.label)).offset = -root.coordinate := by
    rw [aside, Cells.alter_self, ← coordinate, label]
  have lowered := lowered_draft (k := k) drawn (outline.symm ▸ fits_ofChildren r)
    (outline.symm ▸ once.2) (by rw [aside, outline]; exact once.1) base
  have nonempty : r.childLists.isEmpty = false := by
    rw [List.isEmpty_eq_false_iff, ← List.length_pos_iff, length_childLists, Rose.preorder_eq]
    exact Nat.succ_pos _
  rw [tidy, ← lowered.coordinates, positions]
  simp only [nonempty, postorder_ofChildren, Option.bind_eq_bind, Option.bind_some, places.visits,
    Bool.false_eq_true, if_false]
  rw [nodes, length_childLists]
  rfl

/-- A root above a leaf and a node with two children. -/
example : positions (fun _ _ => (1 : Rat)) [[1, 2], [], [3, 4], [], []] =
    some [0, -1 / 2, 1 / 2, 0, 1] := by
  decide +kernel

end TidyTree.Placement
