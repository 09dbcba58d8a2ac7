import TidyTree.Proofs.Motion.Departure
import TidyTree.Proofs.Relayout.Partition
import TidyTree.Proofs.View.Settlement

set_option autoImplicit false
set_option relaxedAutoImplicit false

namespace TidyTree

theorem Tree.isParent_folded {t : Tree} {i : NodeId} (numbered : t.root.IsNumbered i) (how : Fold)
    (id : NodeId) {parent child : NodeId} :
    (t.folded how id).IsParent parent child ↔ t.IsParent parent child := by
  have path : (t.folded how id).path? child = t.path? child :=
    ((t.agreesOff_folded how id).path?_eq child).symm
  rw [isParent_iff (numbered.folded how id), isParent_iff numbered, parent?, path, parent?]

variable {σ α : Type}

namespace Mount

/-- The layout, both stages and the boxes are about the nodes of the tree, and a node stays on stage
exactly as long as the link from its parent. -/
structure IsCoherent (m : Mount α) : Prop where
  reachable : m.tree.IsReachable
  drawn : m.layout.IsOf m.tree.root
  paired : ∀ parent child, m.tree.IsParent parent child →
    m.nodes.stay? child = m.links.stay? ⟨parent, child⟩
  owned : ∀ link, m.links.holds link = true → m.tree.IsParent link.source link.target
  boxed : ∀ id, m.nodes.holds id = true → m.boxes.contains id = true
  keyed : ∀ id box, m.boxes.get? id = some box → box.id = id
  kept : ∀ b ∈ m.layout.boxes, m.boxes.get? b.id = some b

namespace IsCoherent

variable {m : Mount α}

private theorem fold (h : m.IsCoherent) (how : Fold) (id : NodeId) :
    IsCoherent { m with tree := m.tree.folded how id } where
  reachable := h.reachable.folded how id
  drawn := h.drawn.refold (m.tree.agreesOff_folded how id)
  paired parent child step :=
    h.paired parent child ((Tree.isParent_folded h.reachable.isNumbered how id).mp step)
  owned link held := (Tree.isParent_folded h.reachable.isNumbered how id).mpr (h.owned link held)
  boxed := h.boxed
  keyed := h.keyed
  kept := h.kept

private theorem drain (h : m.IsCoherent) : IsCoherent { m with tree := m.tree.drained } :=
  ⟨h.reachable.drained, h.drawn, h.paired, h.owned, h.boxed, h.keyed, h.kept⟩

theorem takeChanges (h : m.IsCoherent) (settings : Settings α) (now : Duration) :
    (m.takeChanges settings now).IsCoherent :=
  ⟨h.reachable.drained, h.drawn, h.paired, h.owned, h.boxed, h.keyed, h.kept⟩

theorem beginSpan (h : m.IsCoherent) (settings : Settings α) (scope : Scope) (now : Duration) :
    (m.beginSpan settings scope now).IsCoherent :=
  ⟨h.reachable, h.drawn, h.paired, h.owned, h.boxed, h.keyed, h.kept⟩

private theorem advance (h : m.IsCoherent) (now : Duration) : (m.advance now).IsCoherent where
  reachable := h.reachable
  drawn := h.drawn
  paired := by
    intro parent child step
    show (m.nodes.tick now).stay? child = (m.links.tick now).stay? ⟨parent, child⟩
    rw [Stage.stay?_tick, Stage.stay?_tick, h.paired parent child step]
  owned link held := h.owned link (Stage.holds_of_holds_tick held)
  boxed := by
    intro id held
    obtain ⟨box, boxed⟩ := Option.isSome_iff_exists.mp (h.boxed id (Stage.holds_of_holds_tick held))
    show ((m.advance now).boxes.get? id).isSome
    rw [Mount.advance, Table.get?_filter, boxed, Option.filter_some_pos]
    · rfl
    · rw [Bool.or_eq_true]
      exact Or.inr held
  keyed := by
    intro id box boxed
    rw [Mount.advance, Table.get?_filter, Option.filter_eq_some_iff] at boxed
    exact h.keyed id box boxed.1
  kept := by
    intro b hb
    have present := (Layout.contains_iff b.id).mpr (List.mem_map_of_mem hb)
    rw [Mount.advance, Table.get?_filter, h.kept b hb, Option.filter_some_pos]
    rw [Bool.or_eq_true]
    exact Or.inl present

variable [Scalar α] {settings : Settings α}

theorem bare {t : Tree} (reachable : t.IsReachable) (columnWidth : α) :
    (Mount.bare t columnWidth).IsCoherent where
  reachable := reachable.drained
  drawn := .nothing rfl
  paired _ _ _ := rfl
  owned _ held := absurd held (by simp [Stage.holds, Mount.bare, Stage.empty, Table.contains])
  boxed _ held := absurd held (by simp [Stage.holds, Mount.bare, Stage.empty, Table.contains])
  keyed _ _ boxed := absurd boxed (by simp [Mount.bare])
  kept _ hb := absurd hb List.not_mem_nil

private theorem paired_adopt (h : m.IsCoherent) (staged : m.IsStaged settings.animation)
    {next : Layout α}
    (drawn : next.IsOf m.tree.root) (scope : Scope) (now : Duration) {parent child : NodeId}
    (step : m.tree.IsParent parent child) :
    (m.adopt settings next scope now).nodes.stay? child =
      (m.adopt settings next scope now).links.stay? ⟨parent, child⟩ := by
  have numbered := staged.numbered
  have proper := drawn.isProper numbered
  let timing : Timing α := ⟨settings.animation, .cubicInOut, now⟩
  have nodes := Plan.leadsTo_nodes staged.proper proper scope m.tree
  have links := Plan.leadsTo_links staged.proper proper scope m.tree
  show (m.nodes.applyAll timing _).stay? child = (m.links.applyAll timing _).stay? ⟨parent, child⟩
  have nodeKeys := Plan.isPartition_nodes staged.proper proper scope m.tree
  have linkKeys := Plan.isPartition_links staged.proper proper scope m.tree
  have together : (⟨parent, child⟩ : Link) ∈
        (Plan.between m.layout next scope m.tree).links.map (·.key) ↔
      child ∈ (Plan.between m.layout next scope m.tree).nodes.map (·.key) := by
    rw [linkKeys.mem_keys_iff, nodeKeys.mem_keys_iff, h.drawn.mem_links_iff numbered step,
      drawn.mem_links_iff numbered step]
  by_cases member : (⟨parent, child⟩ : Link) ∈
      (Plan.between m.layout next scope m.tree).links.map (·.key)
  · obtain ⟨tr, htr, key⟩ := List.mem_map.mp member
    obtain ⟨target, htarget, same, phase⟩ :=
      Plan.exists_target numbered h.drawn drawn scope htr
    rw [key] at same
    have mode : target.mode = tr.mode := by
      rw [Plan.mode_of_mem_nodes htarget, Plan.mode_of_mem_links htr, same, key,
        Plan.includesLink_eq numbered scope step]
    have node : (m.nodes.applyAll timing _).stay? target.key = target.stay timing :=
      Stage.Presents.stay?_applyAll staged.nodes nodes htarget
    have link : (m.links.applyAll timing _).stay? tr.key = tr.stay timing :=
      Stage.Presents.stay?_applyAll staged.links links htr
    rw [same] at node
    rw [key] at link
    rw [node, link, Transition.stay_congr timing phase mode]
  · have absent := fun there => member (together.mpr there)
    rw [Stage.stay?_applyAll_of_not_mem timing absent,
      Stage.stay?_applyAll_of_not_mem timing member]
    exact h.paired parent child step

private theorem get?_boxes_adopt {next : Layout α} (scope : Scope) (now : Duration) {id : NodeId}
    (absent : id ∉ next.ids) :
    (m.adopt settings next scope now).boxes.get? id = m.boxes.get? id :=
  Table.get?_foldl_insert_of_not_mem NodeBox.id next.boxes m.boxes absent

private theorem adopt (h : m.IsCoherent) (staged : m.IsStaged settings.animation) {next : Layout α}
    (drawn : next.IsOf m.tree.root) (scope : Scope) (now : Duration) :
    (m.adopt settings next scope now).IsCoherent := by
  have numbered := staged.numbered
  have proper := drawn.isProper numbered
  let timing : Timing α := ⟨settings.animation, .cubicInOut, now⟩
  have kept : ∀ b ∈ next.boxes, (m.adopt settings next scope now).boxes.get? b.id = some b :=
    fun b hb => Table.get?_foldl_insert_of_mem NodeBox.id m.boxes proper.nodup hb
  constructor
  case reachable => exact h.reachable
  case drawn => exact drawn
  case paired => exact fun parent child step => h.paired_adopt staged drawn scope now step
  case owned =>
    intro link held
    by_cases member : link ∈ (Plan.between m.layout next scope m.tree).links.map (·.key)
    · rw [(Plan.isPartition_links staged.proper proper scope m.tree).mem_keys_iff] at member
      exact member.elim (h.drawn.isParent numbered) (drawn.isParent numbered)
    · have unchanged := Stage.holds_applyAll_of_not_mem (s := m.links) timing member
      exact h.owned link (unchanged ▸ held)
  case boxed =>
    intro id held
    show ((m.adopt settings next scope now).boxes.get? id).isSome
    by_cases here : id ∈ next.ids
    · obtain ⟨b, hb, rfl⟩ := List.mem_map.mp here
      rw [kept b hb]
      rfl
    · -- What is leaving now had its box as part of the layout, and all else was on stage before.
      rw [get?_boxes_adopt scope now here]
      by_cases there : id ∈ m.layout.ids
      · obtain ⟨b, hb, rfl⟩ := List.mem_map.mp there
        rw [h.kept b hb]
        rfl
      · have absent : id ∉ (Plan.between m.layout next scope m.tree).nodes.map (·.key) := by
          rw [(Plan.isPartition_nodes staged.proper proper scope m.tree).mem_keys_iff, not_or]
          exact ⟨there, here⟩
        have unchanged := Stage.holds_applyAll_of_not_mem (s := m.nodes) timing absent
        exact h.boxed id (unchanged ▸ held)
  case keyed =>
    intro id box boxed
    by_cases here : id ∈ next.ids
    · obtain ⟨b, hb, rfl⟩ := List.mem_map.mp here
      rw [kept b hb] at boxed
      rw [Option.some.inj boxed]
    · rw [get?_boxes_adopt scope now here] at boxed
      exact h.keyed id box boxed
  case kept => exact kept

private theorem relayout (h : m.IsCoherent) (staged : m.IsStaged settings.animation)
    (metrics : Metrics σ α) (scope : Scope) (now : Duration) (state : σ) :
    (m.relayout settings metrics scope now state).1.IsCoherent :=
  h.adopt staged (Layout.isOf_withColumns settings.sizing metrics m.columnWidth m.tree state) scope
    now

theorem step (h : m.IsCoherent) (staged : m.IsStaged settings.animation)
    {metrics : Metrics σ α} {now : Duration} {prompt : Prop} {m' : Mount α}
    (stepped : Mount.Step settings metrics now prompt m m') :
    m'.IsCoherent := by
  cases stepped with
  | relayout state _ => exact h.relayout staged metrics .nothing now state
  | sync state _ =>
    exact ((h.takeChanges settings now).beginSpan settings m.changeScope now).relayout
      ((staged.takeChanges now).beginSpan m.changeScope now) metrics m.changeScope now state
  | fold how id => exact h.fold how id
  | expire => exact ⟨h.reachable, h.drawn, h.paired, h.owned, h.boxed, h.keyed, h.kept⟩
  | advance => exact h.advance now

theorem ofTree {t : Tree} (reachable : t.IsReachable) (settings : Settings α)
    (metrics : Metrics σ α) (now : Duration) (state : σ) :
    (Mount.ofTree t settings metrics now state).1.IsCoherent := by
  have start : ∀ width : α, ((Mount.bare t width).beginSpan settings .everything now).IsCoherent :=
    fun width => (bare reachable width).beginSpan settings .everything now
  have staged : ∀ width : α,
      ((Mount.bare t width).beginSpan settings .everything now).IsStaged settings.animation :=
    fun width => (IsStaged.bare reachable width _).beginSpan .everything now
  exact (start _).relayout (staged _) metrics .everything now _

/-- In every reachable state the stages and the boxes are in step. -/
theorem of_run [PowTwo α] [Scalar.LawfulEq α] (settings : Settings α) (metrics : Metrics σ α)
    (memory : σ) (calls : List (Call α)) :
    ∀ m ∈ ((View.ofSettings settings metrics memory).run calls).mount?,
      m.IsStaged settings.animation ∧ m.IsCoherent :=
  View.mount_of_run calls
    (fun _ reachable now state => ⟨IsStaged.ofTree reachable settings metrics now state,
      ofTree reachable settings metrics now state⟩)
    (fun _ _ h => ⟨h.1.congr h.1.numbered rfl rfl rfl, h.2.drain⟩)
    (fun _ _ _ h stepped => ⟨h.1.step stepped, h.2.step h.1 stepped⟩) memory

end IsCoherent

end Mount

end TidyTree
