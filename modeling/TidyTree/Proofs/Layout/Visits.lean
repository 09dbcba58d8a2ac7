import TidyTree.Layout.Visit
import TidyTree.Proofs.Outline.Numbering
import TidyTree.Proofs.Placement.Levels

set_option autoImplicit false
set_option relaxedAutoImplicit false

namespace TidyTree.Rose

variable {ν μ : Type}

mutual

theorem pairwise_preorder {R : ν → ν → Prop} {depthOf : ν → Nat} {base : Nat} :
    ∀ {r : Rose ν}, (∀ depth, ∀ v ∈ r.level depth, depthOf v = base + depth) →
      (∀ depth, (r.level depth).Pairwise R) →
      r.preorder.Pairwise fun a b => depthOf a = depthOf b → R a b
  | mk label children, hdepth, hlevel => by
    have below : ∀ depth, ∀ v ∈ levelAll children depth, depthOf v = base + 1 + depth := by
      intro depth v hv
      rw [hdepth (depth + 1) v hv]
      omega
    -- The root shares its depth with no node below it.
    refine List.pairwise_cons.mpr ⟨fun v hv same => ?_,
      pairwise_preorderAll below fun depth => hlevel (depth + 1)⟩
    have top := hdepth 0 label (List.mem_singleton_self _)
    obtain ⟨depth, hv⟩ := exists_mem_levelAll hv
    have lower := below depth v hv
    omega

private theorem pairwise_preorderAll {R : ν → ν → Prop} {depthOf : ν → Nat} {base : Nat} :
    ∀ {rs : List (Rose ν)}, (∀ depth, ∀ v ∈ levelAll rs depth, depthOf v = base + depth) →
      (∀ depth, (levelAll rs depth).Pairwise R) →
      (preorderAll rs).Pairwise fun a b => depthOf a = depthOf b → R a b
  | [], _, _ => List.Pairwise.nil
  | r :: rs, hdepth, hlevel => by
    have split := fun depth => List.pairwise_append.mp (hlevel depth)
    refine List.pairwise_append.mpr ⟨?_, ?_, ?_⟩
    · exact pairwise_preorder (fun depth v hv => hdepth depth v (List.mem_append_left _ hv))
        fun depth => (split depth).1
    · exact pairwise_preorderAll (fun depth v hv => hdepth depth v (List.mem_append_right _ hv))
        fun depth => (split depth).2.1
    -- Nodes of one depth lie on one level, and there the first tree comes before the others.
    · intro a ha b hb same
      obtain ⟨j, ha⟩ := exists_mem_level ha
      obtain ⟨k, hb⟩ := exists_mem_levelAll hb
      have hj := hdepth j a (List.mem_append_left _ ha)
      have hk := hdepth k b (List.mem_append_right _ hb)
      obtain rfl : j = k := by omega
      exact (split j).2.2 a ha b hb

end

mutual

theorem mapState_eq_map {σ : Type} {f : ν → σ → μ × σ} {g : ν → μ} (h : ∀ v s, (f v s).1 = g v) :
    ∀ (r : Rose ν) (s : σ), (r.mapState f s).1 = r.map g
  | mk label children, s => by
    simp only [mapState, map, h, mapStateAll_eq_mapAll h children]

private theorem mapStateAll_eq_mapAll {σ : Type} {f : ν → σ → μ × σ} {g : ν → μ}
    (h : ∀ v s, (f v s).1 = g v) :
    ∀ (rs : List (Rose ν)) (s : σ), (mapStateAll f rs s).1 = mapAll g rs
  | [], _ => rfl
  | r :: rs, s => by
    simp only [mapStateAll, mapAll, mapState_eq_map h r, mapStateAll_eq_mapAll h rs]

end

mutual

theorem map_mapState {σ : Type} {f : ν → σ → μ × σ} {g : μ → ν} (h : ∀ v s, g (f v s).1 = v) :
    ∀ (r : Rose ν) (s : σ), (r.mapState f s).1.map g = r
  | mk label children, s => by
    simp only [mapState, map, h, mapAll_mapStateAll h children]

private theorem mapAll_mapStateAll {σ : Type} {f : ν → σ → μ × σ} {g : μ → ν}
    (h : ∀ v s, g (f v s).1 = v) :
    ∀ (rs : List (Rose ν)) (s : σ), mapAll g (mapStateAll f rs s).1 = rs
  | [], _ => rfl
  | r :: rs, s => by
    simp only [mapStateAll, mapAll, map_mapState h r, mapAll_mapStateAll h rs]

end

end TidyTree.Rose

namespace TidyTree.Node

mutual

/-- The nodes that are drawn, in pre-order. -/
def drawn : Node → List Node
  | mk item shown children =>
    mk item shown children :: if shown then drawnAll children else []

def drawnAll : List Node → List Node
  | [] => []
  | n :: ns => n.drawn ++ drawnAll ns

end

mutual

theorem map_item_visits (parent : Option NodeId) (depth siblingIndex : Nat) :
    ∀ n : Node, (n.visits parent depth siblingIndex).preorder.map (·.item) = n.drawn.map item
  | mk item shown children => by
    cases shown
    · rfl
    · simp only [visits, drawn, Rose.preorder, if_true, List.map_cons, item_mk,
        map_item_visitsAll _ _ 0 children]

private theorem map_item_visitsAll (parent : Option NodeId) (depth siblingIndex : Nat) :
    ∀ ns : List Node,
      (Rose.preorderAll (visitsAll parent depth siblingIndex ns)).map (·.item) = (drawnAll ns).map item
  | [] => rfl
  | n :: ns => by
    simp only [visitsAll, drawnAll, Rose.preorderAll, List.map_append,
      map_item_visits parent depth siblingIndex n,
      map_item_visitsAll parent depth (siblingIndex + 1) ns]

end

mutual

theorem drawn_sublist : ∀ n : Node, n.drawn.Sublist n.preorder
  | mk item shown children => by
    cases shown
    · exact (List.nil_sublist _).cons_cons _
    · exact (drawnAll_sublist children).cons_cons _

private theorem drawnAll_sublist : ∀ ns : List Node, (drawnAll ns).Sublist (preorderAll ns)
  | [] => List.Sublist.slnil
  | n :: ns => (drawn_sublist n).append (drawnAll_sublist ns)

end

mutual

theorem depth_of_mem_level {v : Visit} {parent : Option NodeId} {depth siblingIndex : Nat} :
    ∀ {n : Node} {k : Nat}, v ∈ (n.visits parent depth siblingIndex).level k → v.depth = depth + k
  | mk item shown children, 0, h => by
    obtain rfl := List.mem_singleton.mp h
    rfl
  | mk item false children, k + 1, h => absurd h List.not_mem_nil
  | mk item true children, k + 1, h => by
    rw [depth_of_mem_levelAll h]
    omega

private theorem depth_of_mem_levelAll {v : Visit} {parent : Option NodeId}
    {depth siblingIndex : Nat} :
    ∀ {ns : List Node} {k : Nat},
      v ∈ Rose.levelAll (visitsAll parent depth siblingIndex ns) k → v.depth = depth + k
  | [], _, h => absurd h List.not_mem_nil
  | n :: ns, k, h => by
    rw [visitsAll, Rose.levelAll, List.mem_append] at h
    rcases h with h | h
    · exact depth_of_mem_level h
    · exact depth_of_mem_levelAll h

end

def visit (parent : Option NodeId) (depth siblingIndex : Nat) (n : Node) : Visit :=
  ⟨n.item, n.state, parent, depth, siblingIndex⟩

private theorem visit_mem_visits (parent : Option NodeId) (depth siblingIndex : Nat) (n : Node) :
    n.visit parent depth siblingIndex ∈ (n.visits parent depth siblingIndex).preorder := by
  cases n
  exact List.mem_cons_self

private theorem exists_visit_of_mem {parent : Option NodeId} {depth : Nat} {c : Node}
    {ns : List Node}
    (siblingIndex : Nat) (h : c ∈ ns) :
    ∃ i, c.visit parent depth i ∈ Rose.preorderAll (visitsAll parent depth siblingIndex ns) := by
  induction ns generalizing siblingIndex with
  | nil => exact absurd h List.not_mem_nil
  | cons n ns ih =>
    rw [visitsAll, Rose.preorderAll]
    rcases List.mem_cons.mp h with rfl | h
    · exact ⟨siblingIndex, List.mem_append_left _ (c.visit_mem_visits _ _ _)⟩
    · obtain ⟨i, hi⟩ := ih (siblingIndex + 1) h
      exact ⟨i, List.mem_append_right _ hi⟩

mutual

theorem exists_visits_children {x : Node} {parent : Option NodeId} {depth siblingIndex : Nat} :
    ∀ {n : Node}, x ∈ n.drawn → ∃ level, ∀ c ∈ x.visible, ∃ i,
      c.visit (some x.id) level i ∈ (n.visits parent depth siblingIndex).preorder
  | mk item shown children, h => by
    rw [drawn, List.mem_cons] at h
    rcases h with rfl | h
    · refine ⟨depth + 1, fun c hc => ?_⟩
      cases shown
      · exact absurd hc List.not_mem_nil
      · obtain ⟨i, hi⟩ := exists_visit_of_mem 0 hc
        exact ⟨i, List.mem_cons_of_mem _ hi⟩
    · cases shown
      · exact absurd h List.not_mem_nil
      · obtain ⟨level, below⟩ := exists_visits_childrenAll h
        refine ⟨level, fun c hc => ?_⟩
        obtain ⟨i, hi⟩ := below c hc
        exact ⟨i, List.mem_cons_of_mem _ hi⟩

private theorem exists_visits_childrenAll {x : Node} {parent : Option NodeId}
    {depth siblingIndex : Nat} :
    ∀ {ns : List Node}, x ∈ drawnAll ns → ∃ level, ∀ c ∈ x.visible, ∃ i,
      c.visit (some x.id) level i ∈ Rose.preorderAll (visitsAll parent depth siblingIndex ns)
  | [], h => absurd h List.not_mem_nil
  | n :: ns, h => by
    rw [drawnAll, List.mem_append] at h
    rcases h with h | h
    · obtain ⟨level, below⟩ := exists_visits_children h
      refine ⟨level, fun c hc => ?_⟩
      obtain ⟨i, hi⟩ := below c hc
      exact ⟨i, List.mem_append_left _ hi⟩
    · obtain ⟨level, below⟩ := exists_visits_childrenAll h
      refine ⟨level, fun c hc => ?_⟩
      obtain ⟨i, hi⟩ := below c hc
      exact ⟨i, List.mem_append_right _ hi⟩

end

mutual

theorem parent_of_mem_visits {v : Visit} {parent : Option NodeId} {depth siblingIndex : Nat} :
    ∀ {n : Node}, v ∈ (n.visits parent depth siblingIndex).preorder →
      v = n.visit parent depth siblingIndex ∨
        ∃ x ∈ n.drawn, ∃ c ∈ x.visible, v.item = c.item ∧ v.parent = some x.id
  | mk item shown children, h => by
    rw [visits, Rose.preorder, List.mem_cons] at h
    rcases h with rfl | h
    · exact Or.inl rfl
    · cases shown
      · exact absurd h List.not_mem_nil
      · rcases parent_of_mem_visitsAll h with ⟨c, hc, hitem, hparent⟩ | ⟨x, hx, below⟩
        · exact Or.inr ⟨_, List.mem_cons_self, c, hc, hitem, hparent⟩
        · exact Or.inr ⟨x, List.mem_cons_of_mem _ hx, below⟩

private theorem parent_of_mem_visitsAll {v : Visit} {parent : Option NodeId}
    {depth siblingIndex : Nat} :
    ∀ {ns : List Node}, v ∈ Rose.preorderAll (visitsAll parent depth siblingIndex ns) →
      (∃ c ∈ ns, v.item = c.item ∧ v.parent = parent) ∨
        ∃ x ∈ drawnAll ns, ∃ c ∈ x.visible, v.item = c.item ∧ v.parent = some x.id
  | [], h => absurd h List.not_mem_nil
  | n :: ns, h => by
    rw [visitsAll, Rose.preorderAll, List.mem_append] at h
    rcases h with h | h
    · rcases parent_of_mem_visits h with rfl | ⟨x, hx, below⟩
      · exact Or.inl ⟨n, List.mem_cons_self, rfl, rfl⟩
      · exact Or.inr ⟨x, List.mem_append_left _ hx, below⟩
    · rcases parent_of_mem_visitsAll h with ⟨c, hc, same⟩ | ⟨x, hx, below⟩
      · exact Or.inl ⟨c, List.mem_cons_of_mem _ hc, same⟩
      · exact Or.inr ⟨x, List.mem_append_right _ hx, below⟩

end

theorem IsNumbered.pairwise_id_drawn {id : NodeId} {n : Node} (h : n.IsNumbered id) :
    (n.drawn.map Node.id).Pairwise (· < ·) :=
  List.Pairwise.sublist (n.drawn_sublist.map Node.id) (h.map_id_preorder ▸ List.pairwise_lt_range')

end TidyTree.Node
