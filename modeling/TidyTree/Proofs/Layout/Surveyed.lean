import TidyTree.Proofs.Layout.Boxes
import TidyTree.Proofs.Layout.Surveying
import TidyTree.Proofs.Placement.Rigidity

set_option autoImplicit false
set_option relaxedAutoImplicit false

namespace TidyTree

section Places

variable {ν : Type}

private theorem drop_of_cons_prefix {all rest : List ν} {a : ν} {first : Nat}
    (h : a :: rest <+: all.drop first) : all[first]? = some a ∧ rest <+: all.drop (first + 1) := by
  constructor
  · obtain ⟨later, same⟩ := h
    rw [← Nat.add_zero first, ← List.getElem?_drop, ← same]
    rfl
  · have tails := h.drop 1
    rwa [List.drop_drop, List.drop_succ_cons, List.drop_zero] at tails

private theorem drop_of_append_prefix {all front rest : List ν} {first : Nat}
    (h : front ++ rest <+: all.drop first) :
    front <+: all.drop first ∧ rest <+: all.drop (first + front.length) := by
  constructor
  · exact (List.prefix_append front rest).trans h
  · have tails := h.drop front.length
    rwa [List.drop_drop, List.drop_left] at tails

namespace Rose

mutual

theorem map_getElem?_numberFrom {all : List ν} : ∀ {r : Rose ν} {first : Nat},
    r.preorder <+: all.drop first → (r.numberFrom first).map (all[·]?) = r.map some
  | mk label children, first, h => by
    obtain ⟨here, below⟩ := drop_of_cons_prefix h
    rw [numberFrom, map, map, here, mapAll_getElem?_numberAllFrom below]

private theorem mapAll_getElem?_numberAllFrom {all : List ν} : ∀ {rs : List (Rose ν)} {first : Nat},
    preorderAll rs <+: all.drop first →
      mapAll (all[·]?) (numberAllFrom first rs) = mapAll some rs
  | [], _, _ => rfl
  | r :: rs, first, h => by
    obtain ⟨here, later⟩ := drop_of_append_prefix h
    rw [numberAllFrom, mapAll, mapAll, map_getElem?_numberFrom here,
      mapAll_getElem?_numberAllFrom later]

end

private theorem map_snd_preorder_map {μ α : Type} (g : ν → μ) (r : Rose (ν × α)) :
    (r.map (Prod.map g id)).preorder.map Prod.snd = r.preorder.map Prod.snd := by
  rw [preorder_map, List.map_map]
  rfl

end Rose

namespace Placement

variable {α : Type} [Scalar α]

private def separationFound (separation : ν → ν → α) (a b : Option ν) : α :=
  (a.bind fun a => b.map fun b => separation a b).getD 0

private theorem map_snd_tidy_numberFrom {separation : ν → ν → α} {byPlace : Nat → Nat → α}
    {r : Rose ν}
    (h : ∀ i a j b, r.preorder[i]? = some a → r.preorder[j]? = some b →
      byPlace i j = separation a b) :
    (tidy byPlace (r.numberFrom 0)).preorder.map Prod.snd =
      (tidy separation r).preorder.map Prod.snd := by
  -- What is found at the numbers and the labels themselves are the same labels of one tree.
  have labels : (r.numberFrom 0).map (r.preorder[·]?) = r.map some :=
    Rose.map_getElem?_numberFrom List.prefix_rfl
  have agree : tidy byPlace (r.numberFrom 0) =
      tidy (separationOf (separationFound separation) (r.preorder[·]?)) (r.numberFrom 0) := by
    apply tidy_congr
    intro i hi j hj
    rw [Rose.preorder_numberFrom, List.mem_range'_1, Nat.zero_add] at hi hj
    have ha := List.getElem?_eq_getElem hi.2
    have hb := List.getElem?_eq_getElem hj.2
    rw [h i _ j _ ha hb, separationOf, ha, hb]
    rfl
  have byNumber := tidy_map (separationFound separation) (r.preorder[·]?) (r.numberFrom 0)
  have byLabel := tidy_map (separationFound separation) some r
  calc (tidy byPlace (r.numberFrom 0)).preorder.map Prod.snd
      = (tidy (separationFound separation)
          ((r.numberFrom 0).map (r.preorder[·]?))).preorder.map Prod.snd := by
        rw [agree, byNumber, Rose.map_snd_preorder_map]
    _ = (tidy (separationFound separation) (r.map some)).preorder.map Prod.snd := by rw [labels]
    _ = (tidy separation r).preorder.map Prod.snd := by
        rw [byLabel, Rose.map_snd_preorder_map]
        rfl

end Placement

end Places

namespace Node

mutual

private theorem rank_cases {x : Node × Standing} {standing : Standing} {first : Nat} :
    ∀ {n : Node}, x ∈ (n.shownTree.rank standing first).preorder → x = (n, standing) ∨
      ∃ i above, (n.shownTree.rank standing first).preorder[i]? = some above ∧
        x.2.parent = some (first + i) ∧ x.2.depth = above.2.depth + 1 ∧
        above.1.visible[x.2.siblingIndex]? = some x.1
  | mk item false children, h => Or.inl (List.mem_singleton.mp h)
  | mk item true children, h => by
    rw [shownTree, Rose.rank, Rose.preorder, List.mem_cons] at h
    rcases h with rfl | h
    · exact Or.inl rfl
    right
    rcases rankAll_cases h with ⟨k, n, hn, rfl⟩ | ⟨i, above, found, parent, depth, child⟩
    · refine ⟨0, _, rfl, rfl, rfl, ?_⟩
      show children[0 + k]? = some n
      rw [Nat.zero_add, hn]
    · refine ⟨i + 1, above, found, ?_, depth, child⟩
      rw [parent, Nat.add_assoc, Nat.add_comm 1]

private theorem rankAll_cases {x : Node × Standing} {parent depth siblingIndex first : Nat} :
    ∀ {ns : List Node},
      x ∈ Rose.preorderAll (Rose.rankAll parent depth siblingIndex first (shownTreeAll ns)) →
      (∃ k n, ns[k]? = some n ∧ x = (n, ⟨some parent, depth, siblingIndex + k⟩)) ∨
      ∃ i above, (Rose.preorderAll
          (Rose.rankAll parent depth siblingIndex first (shownTreeAll ns)))[i]? = some above ∧
        x.2.parent = some (first + i) ∧ x.2.depth = above.2.depth + 1 ∧
        above.1.visible[x.2.siblingIndex]? = some x.1
  | [], h => absurd h List.not_mem_nil
  | n :: ns, h => by
    rw [shownTreeAll, Rose.rankAll, Rose.preorderAll, List.mem_append] at h
    rw [shownTreeAll, Rose.rankAll, Rose.preorderAll]
    rcases h with h | h
    · rcases rank_cases h with rfl | ⟨i, above, found, both⟩
      · exact Or.inl ⟨0, n, rfl, rfl⟩
      · have inside := (List.getElem?_eq_some_iff.mp found).1
        exact Or.inr ⟨i, above, (List.getElem?_append_left inside).trans found, both⟩
    · rcases rankAll_cases h with ⟨k, m, hm, rfl⟩ | ⟨i, above, found, parent, both⟩
      · exact Or.inl ⟨k + 1, m, hm, by rw [Nat.add_assoc, Nat.add_comm 1]⟩
      · refine Or.inr ⟨n.shownTree.preorder.length + i, above, ?_, ?_, both⟩
        · rw [List.getElem?_append_right (by simp [Rose.length_preorder_rank]),
            Rose.length_preorder_rank, Nat.add_sub_cancel_left, found]
        · rw [parent, Nat.add_assoc]

end

mutual

private theorem map_visit_rank {s : Survey} : ∀ {n : Node} {standing : Standing} {first : Nat},
    (n.shownTree.rank standing first).preorder <+: s.stops.drop first →
      (n.shownTree.rank standing first).map s.visit =
        n.visits ((standing.parent.bind s.node?).map Node.id) standing.depth standing.siblingIndex
  | mk item false children, _, _, _ => rfl
  | mk item true children, standing, first, h => by
    obtain ⟨here, below⟩ := drop_of_cons_prefix h
    have parent : ((some first).bind s.node?).map Node.id = some item.id := by
      rw [Option.bind_some, Survey.node?, here]
      rfl
    have children := mapAll_visit_rankAll below
    rw [parent] at children
    rw [shownTree, if_pos rfl, Rose.rank, Rose.map, children]
    rfl

private theorem mapAll_visit_rankAll {s : Survey} :
    ∀ {ns : List Node} {parent depth siblingIndex first : Nat},
      Rose.preorderAll (Rose.rankAll parent depth siblingIndex first (shownTreeAll ns)) <+:
        s.stops.drop first →
      Rose.mapAll s.visit (Rose.rankAll parent depth siblingIndex first (shownTreeAll ns)) =
        visitsAll (((some parent).bind s.node?).map Node.id) depth siblingIndex ns
  | [], _, _, _, _, _ => rfl
  | n :: ns, parent, depth, siblingIndex, first, h => by
    obtain ⟨here, later⟩ := drop_of_append_prefix h
    rw [Rose.length_preorder_rank] at later
    rw [shownTreeAll, Rose.rankAll, Rose.mapAll, map_visit_rank here, mapAll_visit_rankAll later,
      visitsAll]

end

end Node

namespace Metrics

variable {σ α : Type} [Scalar α] {m : Metrics σ α} {fallback : α} {font : Font α}

private theorem widthsOr_append (texts later : List String) (state : σ) :
    m.widthsOr fallback font (texts ++ later) state =
      ((m.widthsOr fallback font texts state).1 ++
          (m.widthsOr fallback font later (m.widthsOr fallback font texts state).2).1,
        (m.widthsOr fallback font later (m.widthsOr fallback font texts state).2).2) := by
  induction texts generalizing state with
  | nil => rfl
  | cons text texts ih =>
    simp only [List.cons_append, widthsOr]
    rw [ih]

private def measureVisit (m : Metrics σ α) (fallback : α) (font : Font α) (visit : Visit)
    (state : σ) : (Visit × α) × σ :=
  let (width, state) := m.widthOr fallback font visit.item.label state
  ((visit, width), state)

variable (m fallback font)

mutual

private theorem mapState_measureVisit : ∀ (r : Rose Visit) (state : σ),
    ((r.mapState (m.measureVisit fallback font) state).1.preorder.map Prod.snd,
      (r.mapState (m.measureVisit fallback font) state).2) =
        m.widthsOr fallback font (r.preorder.map (·.item.label)) state
  | .mk visit children, state => by
    have below := mapStateAll_measureVisit children
      (m.widthOr fallback font visit.item.label state).2
    simp only [Rose.mapState, Rose.preorder, List.map_cons, widthsOr, ← below]
    rfl

private theorem mapStateAll_measureVisit : ∀ (rs : List (Rose Visit)) (state : σ),
    ((Rose.preorderAll (Rose.mapStateAll (m.measureVisit fallback font) rs state).1).map Prod.snd,
      (Rose.mapStateAll (m.measureVisit fallback font) rs state).2) =
        m.widthsOr fallback font ((Rose.preorderAll rs).map (·.item.label)) state
  | [], _ => rfl
  | r :: rs, state => by
    have first := mapState_measureVisit r state
    have rest := mapStateAll_measureVisit rs (r.mapState (m.measureVisit fallback font) state).2
    simp only [Rose.mapStateAll, Rose.preorderAll, List.map_append, widthsOr_append, ← first, ← rest]

end

end Metrics

namespace Survey

variable {s : Survey} {root : Node} {i : NodeId}

/-- The survey lists the visible tree of a root. -/
structure IsOf (s : Survey) (root : Node) : Prop where
  stops_eq : s.stops = (root.shownTree.rank ⟨none, 0, 0⟩ 0).preorder
  children_eq : s.children = root.shownTree.childLists

theorem IsOf.map_node (h : s.IsOf root) : s.stops.map Prod.fst = root.drawn := by
  rw [h.stops_eq, Rose.map_fst_preorder_rank, Node.preorder_shownTree]

theorem IsOf.map_visit_rank (h : s.IsOf root) :
    (root.shownTree.rank ⟨none, 0, 0⟩ 0).map s.visit = root.visibleTree := by
  have stops : (root.shownTree.rank ⟨none, 0, 0⟩ 0).preorder <+: s.stops.drop 0 := by
    rw [h.stops_eq]
    exact List.prefix_rfl
  exact Node.map_visit_rank stops

theorem IsOf.map_visit (h : s.IsOf root) : s.stops.map s.visit = root.visibleTree.preorder := by
  rw [← h.map_visit_rank, Rose.preorder_map, ← h.stops_eq]

theorem IsOf.children_eq_visibleTree (h : s.IsOf root) :
    s.children = root.visibleTree.childLists := by
  rw [← h.map_visit_rank, Rose.childLists_map, ← Rose.childLists_map Prod.fst, Rose.map_fst_rank,
    h.children_eq]

theorem IsOf.stop_cases (h : s.IsOf root) {x : Node × Standing} (hx : x ∈ s.stops) :
    x = (root, ⟨none, 0, 0⟩) ∨ ∃ place above, s.stops[place]? = some above ∧
      x.2.parent = some place ∧ x.2.depth = above.2.depth + 1 ∧
      above.1.visible[x.2.siblingIndex]? = some x.1 := by
  rw [h.stops_eq] at hx ⊢
  rcases Node.rank_cases hx with rfl | ⟨place, above, found, parent, both⟩
  · exact Or.inl rfl
  · exact Or.inr ⟨place, above, found, by rw [parent, Nat.zero_add], both⟩

private theorem IsOf.nodup (h : s.IsOf root) (numbered : root.IsNumbered i) :
    (s.stops.map (·.1.id)).Nodup := by
  have ids : s.stops.map (·.1.id) = root.drawn.map Node.id := by
    rw [← h.map_node, List.map_map]
    rfl
  rw [ids]
  exact numbered.pairwise_id_drawn.imp Nat.ne_of_lt

theorem IsOf.idxOf_id (h : s.IsOf root) (numbered : root.IsNumbered i) {place : Nat}
    {stop : Node × Standing} (found : s.stops[place]? = some stop) :
    (s.stops.map (·.1.id)).idxOf stop.1.id = place := by
  have there : (s.stops.map (·.1.id))[place]? = some stop.1.id := by
    rw [List.getElem?_map, found, Option.map_some]
  obtain ⟨inside, same⟩ := List.getElem?_eq_some_iff.mp there
  rw [← same]
  exact (h.nodup numbered).idxOf_getElem place inside

theorem IsOf.exists_parent (h : s.IsOf root) {x : Node × Standing} (hx : x ∈ s.stops) {place : Nat}
    (hplace : x.2.parent = some place) :
    ∃ above, s.stops[place]? = some above ∧ (s.visit x).parent = some above.1.id := by
  rcases h.stop_cases hx with rfl | ⟨place', above, found, parent, -⟩
  · exact absurd hplace (by simp)
  · obtain rfl : place' = place := Option.some.inj (parent.symm.trans hplace)
    refine ⟨above, found, ?_⟩
    rw [visit, hplace, Option.bind_some, node?, found]
    rfl

private theorem IsOf.parent_eq_iff (h : s.IsOf root) (numbered : root.IsNumbered i)
    {x y : Node × Standing} (hx : x ∈ s.stops) (hy : y ∈ s.stops) :
    (s.visit x).parent = (s.visit y).parent ↔ x.2.parent = y.2.parent := by
  constructor
  · intro same
    cases px : x.2.parent with
    | none =>
      cases py : y.2.parent with
      | none => rfl
      | some q =>
        obtain ⟨below, -, idy⟩ := h.exists_parent hy py
        rw [idy, visit, px] at same
        exact absurd same (by simp)
    | some p =>
      obtain ⟨above, atp, idx⟩ := h.exists_parent hx px
      cases py : y.2.parent with
      | none =>
        rw [idx, visit, py] at same
        exact absurd same (by simp)
      | some q =>
        obtain ⟨below, atq, idy⟩ := h.exists_parent hy py
        rw [idx, idy, Option.some.injEq] at same
        rw [← h.idxOf_id numbered atp, ← h.idxOf_id numbered atq, same]
  · intro same
    rw [visit, visit, same]

variable {σ α : Type} [Scalar α]

section Measuring

variable {measured : Rose (Visit × α)} {widths : List α}

private theorem IsOf.exists_stop (h : s.IsOf root)
    (visits : measured.map Prod.fst = root.visibleTree)
    (lengths : measured.preorder.map Prod.snd = widths) {place : Nat} {a : Visit × α}
    (found : measured.preorder[place]? = some a) :
    ∃ stop, s.stops[place]? = some stop ∧ s.visit stop = a.1 ∧ widths.getD place 0 = a.2 := by
  have first : (s.stops.map s.visit)[place]? = some a.1 := by
    rw [h.map_visit, ← visits, Rose.preorder_map, List.getElem?_map, found, Option.map_some]
  rw [List.getElem?_map] at first
  obtain ⟨stop, there, same⟩ := Option.map_eq_some_iff.mp first
  refine ⟨stop, there, same, ?_⟩
  rw [← lengths, List.getD_eq_getElem?_getD, List.getElem?_map, found, Option.map_some,
    Option.getD_some]

private theorem IsOf.positions_eq (h : s.IsOf root) (numbered : root.IsNumbered i)
    (sizing : Sizing α)
    (columnWidth : α) (visits : measured.map Prod.fst = root.visibleTree)
    (lengths : measured.preorder.map Prod.snd = widths) :
    Placement.positions (s.separation sizing columnWidth widths) s.children =
      some ((Placement.tidy (Layout.separation sizing columnWidth) measured).preorder.map
        Prod.snd) := by
  have children : s.children = measured.childLists := by
    rw [h.children_eq_visibleTree, ← visits, Rose.childLists_map]
  rw [children, Placement.positions_eq, Placement.map_snd_tidy_numberFrom]
  intro p a q b ha hb
  obtain ⟨x, atp, visitx, widthx⟩ := h.exists_stop visits lengths ha
  obtain ⟨y, atq, visity, widthy⟩ := h.exists_stop visits lengths hb
  have parents := h.parent_eq_iff numbered (List.mem_of_getElem? atp) (List.mem_of_getElem? atq)
  rw [separation, Layout.separation, widthx, widthy]
  simp only [atp, atq, Option.bind_some, ← visitx, ← visity, parents]

private theorem IsOf.layout_eq (h : s.IsOf root) (numbered : root.IsNumbered i) (sizing : Sizing α)
    (columnWidth : α) (visits : measured.map Prod.fst = root.visibleTree)
    (lengths : measured.preorder.map Prod.snd = widths) :
    s.layout sizing columnWidth widths = some (Layout.ofMeasured sizing columnWidth measured) := by
  have labels : measured.preorder.map Prod.fst = s.stops.map s.visit := by
    rw [h.map_visit, ← visits, Rose.preorder_map]
  have kept : (Placement.tidy (Layout.separation sizing columnWidth) measured).preorder.map
      Prod.fst = measured.preorder := by
    rw [← Rose.preorder_map, Placement.map_fst_tidy]
  have boxes := List.zip_of_prod kept rfl
  rw [layout, h.positions_eq numbered sizing columnWidth visits lengths, Option.map_some,
    ← List.zip_of_prod labels lengths, ← boxes, Layout.ofMeasured]

end Measuring

end Survey

theorem Node.exists_survey (root : Node) :
    ∃ s : Survey, Survey.ofNode root = some s ∧ s.IsOf root := ⟨_, Survey.ofNode_eq root, rfl, rfl⟩

/-- Laying out a tree by way of its survey gives the layout of the tree and measures alike. -/
theorem Layout.surveyed_eq {σ α : Type} [Scalar α] (s : Sizing α) (m : Metrics σ α)
    (columnWidth : α) {t : Tree} {i : NodeId} (numbered : t.root.IsNumbered i) (state : σ) :
    surveyed s m columnWidth t state = some (withColumns s m columnWidth t state) := by
  obtain ⟨survey, found, shows⟩ := t.root.exists_survey
  have labels : survey.stops.map (·.1.item.label) =
      t.root.visibleTree.preorder.map (·.item.label) := by
    rw [← shows.map_visit, List.map_map]
    rfl
  have measured := m.mapState_measureVisit s.fallbackWidth s.font t.root.visibleTree state
  have visits : (t.root.visibleTree.mapState (m.measureVisit s.fallbackWidth s.font) state).1.map
      Prod.fst = t.root.visibleTree := Rose.map_mapState (fun _ _ => rfl) _ _
  have laid := shows.layout_eq numbered s columnWidth visits rfl
  rw [surveyed, found]
  simp only [Option.bind_eq_bind, Option.bind_some, Sizing.labelWidths, labels, ← measured, laid]
  rfl

end TidyTree
