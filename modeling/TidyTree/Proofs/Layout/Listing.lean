import TidyTree.Proofs.Layout.Folding
import TidyTree.Proofs.Layout.Surveyed
import TidyTree.Proofs.Outline.Navigation

set_option autoImplicit false
set_option relaxedAutoImplicit false

namespace TidyTree

namespace Rose

variable {ν μ : Type}

private theorem childLabels_map (f : ν → μ) (r : Rose ν) :
    (r.map f).childLabels = r.childLabels.map f := by
  rw [childLabels, children_map, childLabels, List.map_map, List.map_map]
  apply List.map_congr_left
  intro child _
  exact label_map f child

private theorem getElem?_childLists {r u : Rose ν} {i : Nat} (h : r.subtrees[i]? = some u) :
    ∃ places, r.childLists[i]? = some places ∧
      places.map (r.preorder[·]?) = u.childLabels.map some := by
  refine ⟨(u.numberFrom i).childLabels, ?_, ?_⟩
  · rw [childLists, List.getElem?_map, getElem?_subtrees_numberFrom, h, Option.map_some,
      Option.map_some, Nat.zero_add]
  · rw [← childLabels_map, map_getElem?_numberFrom (preorder_prefix_drop h), childLabels_map]

end Rose

namespace Node

mutual

private theorem chain_of_mem_drawn {x : Node} : ∀ {n : Node}, x ∈ n.drawn →
    Relation.ReflTransGen (fun a b => b ∈ a.visible) n x
  | mk item false children, h => by
    obtain rfl := List.mem_singleton.mp h
    exact .refl
  | mk item true children, h => by
    rw [drawn, if_pos rfl, List.mem_cons] at h
    rcases h with rfl | h
    · exact .refl
    · obtain ⟨c, hc, chain⟩ := chain_of_mem_drawnAll h
      exact .head hc chain

private theorem chain_of_mem_drawnAll {x : Node} : ∀ {ns : List Node}, x ∈ drawnAll ns →
    ∃ c ∈ ns, Relation.ReflTransGen (fun a b => b ∈ a.visible) c x
  | [], h => absurd h List.not_mem_nil
  | n :: ns, h => by
    rw [drawnAll, List.mem_append] at h
    rcases h with h | h
    · exact ⟨n, List.mem_cons_self, chain_of_mem_drawn h⟩
    · obtain ⟨c, hc, chain⟩ := chain_of_mem_drawnAll h
      exact ⟨c, List.mem_cons_of_mem _ hc, chain⟩

end

private theorem drawn_eq (n : Node) : n.drawn = n :: n.visible.flatMap drawn := by
  have each (ns : List Node) : drawnAll ns = ns.flatMap drawn := by
    induction ns with
    | nil => rfl
    | cons n ns ih => rw [drawnAll, ih, List.flatMap_cons]
  obtain ⟨item, shown, children⟩ := n
  cases shown with
  | false => rfl
  | true => rw [drawn, if_pos rfl, each, visible]

private theorem mem_drawn_iff {n x : Node} :
    x ∈ n.drawn ↔ Relation.ReflTransGen (fun a b => b ∈ a.visible) n x := by
  refine ⟨chain_of_mem_drawn, fun chain => ?_⟩
  induction chain using Relation.ReflTransGen.head_induction_on with
  | refl =>
    rw [drawn_eq]
    exact List.mem_cons_self
  | @head n c hc _ ih =>
    rw [drawn_eq]
    exact List.mem_cons_of_mem _ (List.mem_flatMap.mpr ⟨c, hc, ih⟩)

private theorem mem_children_of_visible {x c : Node} {i : Nat} (h : x.visible[i]? = some c) :
    x.children[i]? = some c := by
  obtain ⟨item, shown, children⟩ := x
  cases shown with
  | false => exact absurd h (by simp [visible])
  | true => exact h

end Node

private theorem Tree.IsParent.ne_root {t : Tree} {i : NodeId} (numbered : t.root.IsNumbered i)
    {parent child : NodeId} (h : t.IsParent parent child) : child ≠ t.root.id := by
  rintro rfl
  have found := h.parent?_eq numbered
  rw [parent?, path?_root t numbered] at found
  exact absurd found (by simp)

/-- The box tells of a node what the whole tree says of it, and stands in the column of its depth. -/
structure NodeBox.StandsFor {α : Type} [Scalar α] (t : Tree) (columnWidth : α) (b : NodeBox α)
    (x : Node) : Prop where
  item : b.visit.item = x.item
  state : b.visit.state = x.state
  parent : ∀ p, b.parent = some p ↔ t.IsParent p x.id
  depth : ∃ way, t.IsWay x.id way ∧ way.length = b.visit.depth + 1
  first : x = t.root → b.visit.siblingIndex = 0
  siblingIndex : ∀ p ∈ t.nodes, x ∈ p.children → p.children[b.visit.siblingIndex]? = some x
  column : b.position.x = (b.visit.depth : α) * columnWidth

/-- The link goes to a node from its parent. -/
def Link.LeadsTo (t : Tree) (link : Link) (x : Node) : Prop :=
  link.target = x.id ∧ t.IsParent link.source x.id

/-- The layout has the boxes and links of the nodes that are drawn of a tree, and no others. -/
structure Layout.Lists {α : Type} [Scalar α] (l : Layout α) (t : Tree) (columnWidth : α)
    (shown : List Node) : Prop where
  order : shown.Sublist t.nodes
  reached : ∀ x, x ∈ shown ↔ Relation.ReflTransGen (fun a b => b ∈ a.visible) t.root x
  count : shown.length = t.visibleCount
  boxes : List.Forall₂ (NodeBox.StandsFor t columnWidth) l.boxes shown
  head : shown.head? = some t.root
  links : List.Forall₂ (Link.LeadsTo t) l.links shown.tail
  got : ∀ id b, l.get? id = some b ↔ b ∈ l.boxes ∧ b.id = id
  contained : ∀ id, l.contains id = true ↔ ∃ x ∈ shown, x.id = id
  columnWidth : l.columnWidth = columnWidth

/-- The survey numbers the nodes that are drawn in their order, and its lists lead from a node to
the children that it shows. -/
structure Survey.Numbers (s : Survey) (shown : List Node) : Prop where
  nodes : s.stops.map Prod.fst = shown
  length : s.children.length = shown.length
  children : ∀ (place : Nat) (x : Node), shown[place]? = some x →
    ∃ places : List Nat, s.children[place]? = some places ∧
      places.map (shown[·]?) = x.visible.map some

namespace Survey

variable {s : Survey} {t : Tree} {i : NodeId}

private theorem IsOf.numbers {root : Node} (h : s.IsOf root) : s.Numbers root.drawn where
  nodes := h.map_node
  length := by
    rw [h.children_eq, Placement.length_childLists, Node.preorder_shownTree]
  children := by
    intro i x hx
    rw [← Node.preorder_shownTree, ← Rose.map_label_subtrees, List.getElem?_map] at hx
    obtain ⟨u, hu, rfl⟩ := Option.map_eq_some_iff.mp hx
    have below := Node.childLabels_of_mem_subtrees (List.mem_of_getElem? hu)
    rw [h.children_eq, ← Node.preorder_shownTree, ← below]
    exact Rose.getElem?_childLists hu

private theorem IsOf.mem_nodes (h : s.IsOf t.root) {x : Node × Standing} (hx : x ∈ s.stops) :
    x.1 ∈ t.nodes := by
  apply (Node.drawn_sublist t.root).subset
  rw [← h.map_node]
  exact List.mem_map_of_mem hx

private theorem IsOf.parent_cases (h : s.IsOf t.root) {x : Node × Standing} (hx : x ∈ s.stops) :
    x = (t.root, ⟨none, 0, 0⟩) ∨ ∃ above ∈ s.stops, x.2.depth = above.2.depth + 1 ∧
      above.1.children[x.2.siblingIndex]? = some x.1 ∧ t.IsParent above.1.id x.1.id := by
  rcases h.stop_cases hx with top | ⟨place, above, found, _, depth, child⟩
  · exact Or.inl top
  · have member := List.mem_of_getElem? found
    have child := Node.mem_children_of_visible child
    exact Or.inr ⟨above, member, depth, child, above.1, h.mem_nodes member, rfl, x.1,
      List.mem_of_getElem? child, rfl⟩

private theorem IsOf.length_way (h : s.IsOf t.root) (numbered : t.root.IsNumbered i)
    {x : Node × Standing} (hx : x ∈ s.stops) :
    ∃ way, t.IsWay x.1.id way ∧ way.length = x.2.depth + 1 := by
  -- A parent has a smaller number than its child, so the induction climbs up to the root.
  induction hid : x.1.id using Nat.strong_induction_on generalizing x with
  | _ id ih =>
    subst hid
    rcases h.parent_cases hx with rfl | ⟨above, member, depth, _, step⟩
    · exact ⟨[t.root.id], (Tree.path?_eq_some_iff numbered).mp (Tree.path?_root t numbered), rfl⟩
    · obtain ⟨way, upTo, length⟩ := ih _ (step.lt numbered) member rfl
      obtain ⟨way', there, further⟩ := step.path?_eq numbered
      obtain rfl : way = way' :=
        Option.some.inj (((Tree.path?_eq_some_iff numbered).mpr upTo).symm.trans there)
      refine ⟨way ++ [x.1.id], (Tree.path?_eq_some_iff numbered).mp further, ?_⟩
      rw [List.length_append, List.length_singleton, length, depth]

private theorem IsOf.siblingIndex_eq (h : s.IsOf t.root) (numbered : t.root.IsNumbered i)
    {x : Node × Standing} (hx : x ∈ s.stops) :
    (x.1 = t.root → x.2.siblingIndex = 0) ∧
      ∀ p ∈ t.nodes, x.1 ∈ p.children → p.children[x.2.siblingIndex]? = some x.1 := by
  rcases h.parent_cases hx with rfl | ⟨above, member, _, child, step⟩
  · refine ⟨fun _ => rfl, fun p hp hc => ?_⟩
    have rootless : t.IsParent p.id t.root.id := ⟨p, hp, rfl, t.root, hc, rfl⟩
    exact absurd rfl (rootless.ne_root numbered)
  · refine ⟨fun top => ?_, fun p hp hc => ?_⟩
    · exact absurd (congrArg Node.id top) (step.ne_root numbered)
    · have other : t.IsParent p.id x.1.id := ⟨p, hp, rfl, x.1, hc, rfl⟩
      have same := (other.parent?_eq numbered).symm.trans (step.parent?_eq numbered)
      obtain rfl : p = above.1 :=
        numbered.eq_of_id_eq hp (h.mem_nodes member) (Option.some.inj same)
      exact child

end Survey

namespace Layout

variable {σ α : Type} [Scalar α] {l : Layout α} {t : Tree} {i : NodeId}

private theorem column_of_mem (s : Sizing α) (columnWidth : α) (visits : Rose (Visit × α))
    {b : NodeBox α}
    (hb : b ∈ (ofMeasured s columnWidth visits).boxes) :
    b.position.x = (b.visit.depth : α) * columnWidth := by
  obtain ⟨_, _, rfl⟩ := List.mem_map.mp hb
  rfl

private theorem Shows.forall₂_standsFor (h : l.Shows t.root) (numbered : t.root.IsNumbered i)
    {columnWidth : α} (columns : ∀ b ∈ l.boxes, b.position.x = (b.visit.depth : α) * columnWidth) :
    List.Forall₂ (NodeBox.StandsFor t columnWidth) l.boxes t.root.drawn := by
  obtain ⟨survey, _, lists⟩ := t.root.exists_survey
  have visits : List.Forall₂ (fun b stop => b.visit = survey.visit stop) l.boxes survey.stops := by
    have same : l.boxes.map (·.visit) = survey.stops.map survey.visit := h.trans lists.map_visit.symm
    rwa [← List.forall₂_eq_eq_eq, List.forall₂_map_left_iff, List.forall₂_map_right_iff] at same
  obtain ⟨length, pairs⟩ := List.forall₂_iff_zip.mp visits
  rw [← lists.map_node, List.forall₂_map_right_iff, List.forall₂_iff_zip]
  refine ⟨length, fun {b stop} pair => ?_⟩
  have visit := pairs pair
  obtain ⟨hb, hstop⟩ := List.of_mem_zip pair
  have id : b.id = stop.1.id := congrArg (·.item.id) visit
  have standing := lists.siblingIndex_eq numbered hstop
  constructor
  case item => rw [visit, Survey.visit]
  case state => rw [visit, Survey.visit]
  case parent =>
    intro p
    rw [h.parent_eq numbered hb, Tree.isParent_iff numbered, id]
    rfl
  case depth =>
    rw [visit]
    exact lists.length_way numbered hstop
  case first =>
    rw [visit]
    exact standing.1
  case siblingIndex =>
    rw [visit]
    exact standing.2
  case column => exact columns b hb

private theorem forall₂_leadsTo {columnWidth : α} {boxes : List (NodeBox α)} {shown : List Node}
    (h : List.Forall₂ (NodeBox.StandsFor t columnWidth) boxes shown)
    (members : ∀ x ∈ shown, x ∈ t.nodes) (below : ∀ x ∈ shown, x.id ≠ t.root.id) :
    List.Forall₂ (Link.LeadsTo t) (boxes.filterMap (·.link?)) shown := by
  induction h with
  | nil => exact .nil
  | @cons b x boxes shown first _ ih =>
    obtain ⟨member, members⟩ := List.forall_mem_cons.mp members
    obtain ⟨other, below⟩ := List.forall_mem_cons.mp below
    obtain ⟨p, step⟩ := Tree.exists_isParent (List.mem_map_of_mem member) other
    have link : b.link? = some ⟨p, b.id⟩ := by
      rw [NodeBox.link?, (first.parent p).mpr step, Option.map_some]
    rw [List.filterMap_cons_some link]
    exact .cons ⟨congrArg Item.id first.item, step⟩ (ih members below)

private theorem Shows.forall₂_links (numbered : t.root.IsNumbered i) {columnWidth : α}
    (h : List.Forall₂ (NodeBox.StandsFor t columnWidth) l.boxes t.root.drawn) :
    List.Forall₂ (Link.LeadsTo t) l.links t.root.drawn.tail := by
  have later := numbered.pairwise_id_drawn
  rw [Node.drawn_eq, List.map_cons, List.pairwise_cons] at later
  rw [links]
  rw [Node.drawn_eq, List.forall₂_cons_right_iff] at h
  obtain ⟨b, boxes, first, rest, same⟩ := h
  have unlinked : b.link? = none := by
    rw [NodeBox.link?, Option.map_eq_none_iff, Option.eq_none_iff_forall_ne_some]
    intro p parent
    exact absurd rfl (((first.parent p).mp parent).ne_root numbered)
  rw [same, List.filterMap_cons_none unlinked, Node.drawn_eq, List.tail_cons]
  apply forall₂_leadsTo rest
  · intro x hx
    apply (Node.drawn_sublist t.root).subset
    rw [Node.drawn_eq]
    exact List.mem_cons_of_mem _ hx
  · intro x hx
    exact (later.1 x.id (List.mem_map_of_mem hx)).ne'

/-- In every tree that folding leads to, the layout lists what is drawn, and the nodes are placed by
the lists of the shown children. -/
theorem lists_withColumns (reachable : t.IsReachable) (s : Sizing α) (m : Metrics σ α)
    (columnWidth : α) (state : σ) :
    ∃ shown survey, (withColumns s m columnWidth t state).1.Lists t columnWidth shown ∧
      Survey.ofNode t.root = some survey ∧ survey.Numbers shown ∧
      surveyed s m columnWidth t state = some (withColumns s m columnWidth t state) := by
  have numbered := reachable.isNumbered
  have shows := shows_withColumns s m columnWidth t state
  have proper := shows.isProper numbered
  have stand := shows.forall₂_standsFor numbered fun b hb => column_of_mem s columnWidth _ hb
  obtain ⟨survey, found, lists⟩ := t.root.exists_survey
  refine ⟨t.root.drawn, survey, ?_, found, lists.numbers, surveyed_eq s m columnWidth numbered state⟩
  constructor
  case order => exact t.root.drawn_sublist
  case reached => exact fun x => Node.mem_drawn_iff
  case count => exact t.root.length_drawn
  case boxes => exact stand
  case head => rw [Node.drawn_eq, List.head?_cons]
  case links => exact Shows.forall₂_links numbered stand
  case got =>
    refine fun id b => ⟨get?_eq_some, ?_⟩
    rintro ⟨hb, rfl⟩
    exact proper.get?_id hb
  case contained =>
    intro id
    rw [contains_iff, shows.ids_eq, List.mem_map]
  case columnWidth => rfl

/-- A node is hidden again below a root that still shows it, so three of five nodes are drawn. -/
theorem lists_withColumns_folded :
    ∃ (t : Tree) (shown : List Node) (survey : Survey), t.IsReachable ∧ t.size = 5 ∧
      shown.map Node.id = [0, 1, 4] ∧ survey.children = [[1, 2], [], []] ∧
      (withColumns (.standard : Sizing Rat) (Metrics.fixed 8) 150 t ()).1.Lists t 150 shown ∧
      survey.Numbers shown := by
  let t : Tree := (Tree.ofRecord { label := "root", visible := [
    { label := "left", visible := [{ label := "upper" }, { label := "lower" }] },
    { label := "right" }] }).folded .collapse 1
  have reachable : t.IsReachable := .folded (.ofRecord _) _ _
  obtain ⟨shown, survey, listed, found, numbers, -⟩ :=
    lists_withColumns reachable (.standard : Sizing Rat) (Metrics.fixed 8) 150 ()
  have ids : (Survey.ofNode t.root).map (fun s => s.stops.map (·.1.id)) = some [0, 1, 4] := by
    decide +kernel
  have children : (Survey.ofNode t.root).map (·.children) = some [[1, 2], [], []] := by
    decide +kernel
  rw [found] at ids children
  refine ⟨t, shown, survey, reachable, by decide +kernel, ?_, Option.some.inj children, listed,
    numbers⟩
  rw [← numbers.nodes, List.map_map]
  exact Option.some.inj ids

end Layout

end TidyTree
