import TidyTree.Proofs.View.Promptness
import TidyTree.Proofs.View.Shelter

set_option autoImplicit false
set_option relaxedAutoImplicit false

namespace TidyTree

variable {σ α : Type}

/-- A scene draws no node and no link twice, first the nodes of the layout in its order, then those
that are leaving in the order of their numbers; and it draws a node of the tree below the root when
it draws the link from its parent. -/
structure Scene.IsWellFormed (scene : Scene α) (l : Layout α) (t : Tree) : Prop where
  nodesOnce : (scene.nodes.map (·.id)).Nodup
  linksOnce : (scene.links.map (·.link)).Nodup
  inOrder : ∃ present leaving, scene.nodes = present ++ leaving ∧
    present.map (·.box) = l.boxes ∧ (∀ n ∈ present, n.isLeaving = false) ∧
      (∀ n ∈ leaving, n.isLeaving = true) ∧ (leaving.map (·.id)).Pairwise (· < ·)
  linked : ∀ id ∈ t.nodes.map Node.id, id ≠ t.root.id → ∃ parent, t.IsParent parent id ∧
    (id ∈ scene.nodes.map (·.id) ↔ ⟨parent, id⟩ ∈ scene.links.map (·.link))

def Scene.HasEnds (scene : Scene α) : Prop :=
  ∀ link ∈ scene.links.map (·.link),
    link.source ∈ scene.nodes.map (·.id) ∧ link.target ∈ scene.nodes.map (·.id)

variable [Scalar α] {settings : Settings α}

namespace Mount

variable {m : Mount α}

private theorem map_id_presentNodes (m : Mount α) (now : Duration) :
    (m.presentNodes now).map (·.id) = m.layout.ids := by
  rw [presentNodes, List.map_map]
  rfl

private theorem map_id_leavingNodes (coherent : m.IsCoherent) (now : Duration) :
    (m.leavingNodes now).map (·.id) = (m.boxes.entries.map Prod.fst).filter fun id =>
      !m.layout.contains id && m.nodes.holds id := by
  rw [leavingNodes, List.map_filterMap, ← List.filterMap_eq_filter, List.filterMap_map]
  refine List.filterMap_congr fun e he => ?_
  obtain ⟨id, box⟩ := e
  have same : box.id = id := coherent.keyed id box (Table.get?_eq_some_iff.mpr he)
  cases present : m.layout.contains id with
  | true => simp [present, Option.guard]
  | false =>
    cases held : m.nodes.actors.get? id with
    | none => simp [present, held, Stage.sample?, Stage.holds, Table.contains, Option.guard]
    | some actor =>
      simp [present, held, same, Stage.sample?, Stage.holds, Table.contains, Option.guard,
        NodeShape.id]

private theorem map_link_presentLinks (h : m.IsStaged settings.animation) (now : Duration) :
    (m.presentLinks now).map (·.link) = m.layout.links := by
  refine map_filterMap_eq_self fun link hlink => ?_
  obtain ⟨actor, held⟩ := Option.isSome_iff_exists.mp (h.holds_link hlink)
  refine ⟨⟨link, actor.track.sample now⟩, ?_, rfl⟩
  rw [Stage.sample?, held, Option.map_some, Option.some_or, Option.map_some]

private theorem map_link_leavingLinks (m : Mount α) (now : Duration) :
    (m.leavingLinks now).map (·.link) =
      (m.links.actors.entries.map Prod.fst).filter (· ∉ m.layout.links) := by
  rw [leavingLinks, List.map_map, Stage.samples, List.filter_map, List.filter_map, List.map_map]
  rfl

private theorem mem_ids_sceneOf (h : m.IsStaged settings.animation) (coherent : m.IsCoherent)
    (v : View σ α) (now : Duration) (id : NodeId) :
    id ∈ (v.sceneOf m now).nodes.map (·.id) ↔ m.nodes.holds id = true := by
  show id ∈ (m.presentNodes now ++ m.leavingNodes now).map (·.id) ↔ _
  rw [List.map_append, List.mem_append, map_id_presentNodes, map_id_leavingNodes coherent,
    List.mem_filter, Table.mem_keys_iff, Bool.and_eq_true]
  constructor
  · rintro (here | ⟨_, _, held⟩)
    · exact h.holds_node here
    · exact held
  · intro held
    by_cases here : id ∈ m.layout.ids
    · exact Or.inl here
    · rw [← Layout.contains_iff, Bool.not_eq_true, ← Bool.not_eq_true'] at here
      exact Or.inr ⟨coherent.boxed id held, here, held⟩

private theorem mem_links_sceneOf (h : m.IsStaged settings.animation) (v : View σ α)
    (now : Duration)
    (link : Link) : link ∈ (v.sceneOf m now).links.map (·.link) ↔ m.links.holds link = true := by
  show link ∈ (m.presentLinks now ++ m.leavingLinks now).map (·.link) ↔ _
  rw [List.map_append, List.mem_append, map_link_presentLinks h, map_link_leavingLinks,
    List.mem_filter, Table.mem_keys_iff, decide_eq_true_eq]
  constructor
  · rintro (here | ⟨held, _⟩)
    · exact h.holds_link here
    · exact held
  · intro held
    by_cases here : link ∈ m.layout.links
    · exact Or.inl here
    · exact Or.inr ⟨held, here⟩

private theorem isWellFormed_sceneOf (h : m.IsStaged settings.animation) (coherent : m.IsCoherent)
    (v : View σ α) (now : Duration) :
    (v.sceneOf m now).IsWellFormed m.layout m.tree := by
  have leavingOrder : ((m.leavingNodes now).map (·.id)).Pairwise (· < ·) := by
    rw [map_id_leavingNodes coherent]
    exact m.boxes.pairwise_keys.filter _
  have leavingLinksOnce : ((m.leavingLinks now).map (·.link)).Nodup := by
    rw [map_link_leavingLinks]
    exact (m.links.actors.pairwise_keys.imp Key.ne_of_lt).filter _
  constructor
  case nodesOnce =>
    show ((m.presentNodes now ++ m.leavingNodes now).map (·.id)).Nodup
    rw [List.map_append, map_id_presentNodes]
    refine List.Nodup.append h.proper.nodup (leavingOrder.imp Nat.ne_of_lt) fun id here gone => ?_
    rw [map_id_leavingNodes coherent, List.mem_filter, (Layout.contains_iff id).mpr here] at gone
    exact absurd gone.2 (by simp)
  case linksOnce =>
    show ((m.presentLinks now ++ m.leavingLinks now).map (·.link)).Nodup
    rw [List.map_append, map_link_presentLinks h]
    refine List.Nodup.append h.proper.nodup_links leavingLinksOnce fun link here gone => ?_
    rw [map_link_leavingLinks, List.mem_filter, decide_eq_true_eq] at gone
    exact gone.2 here
  case inOrder =>
    refine ⟨m.presentNodes now, m.leavingNodes now, rfl, ?_, ?_, ?_, leavingOrder⟩
    · rw [presentNodes, List.map_map]
      exact List.map_id _
    · intro n hn
      obtain ⟨box, _, rfl⟩ := List.mem_map.mp hn
      rfl
    · intro n hn
      obtain ⟨⟨id, box⟩, _, made⟩ := List.mem_filterMap.mp hn
      dsimp only at made
      split at made
      · exact absurd made (by simp)
      · obtain ⟨spot, _, rfl⟩ := Option.map_eq_some_iff.mp made
        rfl
  case linked =>
    intro id member other
    obtain ⟨parent, step⟩ := Tree.exists_isParent member other
    refine ⟨parent, step, ?_⟩
    rw [mem_ids_sceneOf h coherent, mem_links_sceneOf h, ← Stage.isSome_stay?, ← Stage.isSome_stay?,
      coherent.paired parent id step]

private theorem IsSheltered.hasEnds {clock : Duration}
    (sheltered : m.IsSheltered settings.animation clock)
    (h : m.IsStaged settings.animation) (coherent : m.IsCoherent) (v : View σ α) (now : Duration) :
    (v.sceneOf m now).HasEnds := by
  intro link drawn
  rw [mem_links_sceneOf h] at drawn
  have step := coherent.owned link drawn
  rw [← Stage.isSome_stay?, ← coherent.paired _ _ step, Option.isSome_iff_exists] at drawn
  obtain ⟨d, stays⟩ := drawn
  obtain ⟨e, parent, _⟩ := sheltered.parents _ _ step d stays
  rw [mem_ids_sceneOf h coherent, mem_ids_sceneOf h coherent, ← Stage.isSome_stay?,
    ← Stage.isSome_stay?, stays, parent]
  exact ⟨rfl, rfl⟩

end Mount

namespace View

private theorem frame_of_scene? {v : View σ α} {time : Duration} {scene : Scene α}
    (h : v.scene? time = some scene) : v.frame time = .scene scene := by
  rw [frame, h]

/-- In every reachable state and at every time the frame is a well-formed scene. When the clock goes
on and every change is drawn before the next call that would let it jump or forget it, both ends of
every link are drawn. -/
theorem isWellFormed_frame [PowTwo α] [Scalar.LawfulEq α] (settings : Settings α)
    (metrics : Metrics σ α) (memory : σ) (calls : List (Call α)) :
    ∀ m ∈ ((ofSettings settings metrics memory).run calls).mount?, ∀ time,
      ∃ scene, ((ofSettings settings metrics memory).run calls).frame time = .scene scene ∧
        scene.IsWellFormed m.layout m.tree ∧
          (Call.AreOrdered calls → (ofSettings settings metrics memory).RunsPromptly calls →
            scene.HasEnds) := by
  intro m hm time
  obtain ⟨staged, coherent⟩ := Mount.IsCoherent.of_run settings metrics memory calls m hm
  have drawn : ((ofSettings settings metrics memory).run calls).scene? time =
      some (((ofSettings settings metrics memory).run calls).sceneOf m time) := by
    rw [scene?, Option.mem_def.mp hm, Option.map_some]
  refine ⟨_, frame_of_scene? drawn,
    Mount.isWellFormed_sceneOf staged coherent _ time, fun ordered prompt => ?_⟩
  obtain ⟨clock, sheltered⟩ :=
    Mount.IsSheltered.of_promptRun settings metrics memory ordered prompt m hm
  exact sheltered.hasEnds staged coherent _ time

theorem isWellFormed_frame_of_fold :
    ∃ (v : View Unit Float) (m : Mount Float) (scene : Scene Float), m ∈ v.mount? ∧
      v.frame (.ofMillis 1100) = .scene scene ∧ m.layout.ids = [0] ∧
        scene.links.map (·.link) = [⟨0, 1⟩, ⟨1, 2⟩] ∧ scene.IsWellFormed m.layout m.tree ∧
          scene.HasEnds := by
  let tree : Tree := .ofRecord
    { label := "root", visible := [{ label := "left", visible := [{ label := "leaf" }] }] }
  let calls : List (Call Float) := [.mount (some ⟨tree, .ofRecord _⟩) .zero,
    .toggle 1 (.ofMillis 1000), .fold .collapse 0, .sync (.ofMillis 1050),
    .resize ⟨800, 500⟩ (.ofMillis 1100)]
  let start : View Unit Float := ofSettings Settings.standard (Metrics.fixed 8) ()
  have laid : (start.run calls).mount?.map (·.layout.ids) = some [0] := by decide +kernel
  obtain ⟨m, hm, ids⟩ := Option.map_eq_some_iff.mp laid
  have drawn : ((start.run calls).scene? (.ofMillis 1100)).map (·.links.map (·.link)) =
      some [⟨0, 1⟩, ⟨1, 2⟩] := by decide +kernel
  obtain ⟨scene, hscene, links⟩ := Option.map_eq_some_iff.mp drawn
  obtain ⟨framed, same, wellFormed, ends⟩ :=
    isWellFormed_frame Settings.standard (Metrics.fixed (8 : Float)) () calls m hm (.ofMillis 1100)
  obtain rfl : framed = scene := Frame.scene.inj (same.symm.trans (frame_of_scene? hscene))
  have prompt : start.RunsPromptly calls :=
    runsPromptly_of_syncsInTime _ _ _ (by simp [calls]) (by simp [calls]) (by decide +kernel)
  exact ⟨start.run calls, m, framed, hm, same, ids, links, wellFormed,
    ends (by decide +kernel) prompt⟩

/-- A call of `sync` after the last fold is not enough: a detached view does not draw the changes,
and drained changes are not drawn either, so the parent of a link that is still fading may jump out
of the picture. -/
theorem not_hasEnds_of_sync :
    ∃ detached drained : List (Call Float), .drain ∉ detached ∧ .detach ∉ drained ∧
      ∀ calls ∈ [detached, drained], Call.AreOrdered calls ∧ Call.syncsInTime false calls = true ∧
        ∃ scene, ((ofSettings Settings.standard (Metrics.fixed 8) ()).run calls).frame
          (.ofMillis 1100) = .scene scene ∧ ¬ scene.HasEnds := by
  let tree : Tree := .ofRecord
    { label := "root", visible := [{ label := "left", visible := [{ label := "leaf" }] }] }
  let before : List (Call Float) :=
    [.mount (some ⟨tree, .ofRecord _⟩) .zero, .toggle 1 (.ofMillis 1000)]
  let after : List (Call Float) := [.sync (.ofMillis 1050), .resize ⟨800, 500⟩ (.ofMillis 1100)]
  let detached := before ++ [.detach, .fold .collapse 0] ++ after
  let drained := before ++ [.fold .collapse 0, .drain] ++ after
  have lacking : ∀ calls : List (Call Float),
      (((ofSettings Settings.standard (Metrics.fixed 8) ()).run calls).scene?
        (.ofMillis 1100)).map (fun scene => (scene.nodes.map (·.id), scene.links.map (·.link))) =
          some ([0, 2], [⟨1, 2⟩]) →
      ∃ scene, ((ofSettings Settings.standard (Metrics.fixed 8) ()).run calls).frame
        (.ofMillis 1100) = .scene scene ∧ ¬ scene.HasEnds := by
    intro calls drawn
    obtain ⟨scene, hscene, same⟩ := Option.map_eq_some_iff.mp drawn
    obtain ⟨nodes, links⟩ := Prod.mk.inj same
    refine ⟨scene, frame_of_scene? hscene, fun ends => ?_⟩
    have source := (ends ⟨1, 2⟩ (by rw [links]; exact List.mem_singleton_self _)).1
    rw [nodes] at source
    exact absurd source (by decide)
  refine ⟨detached, drained, by simp [detached, before, after], by simp [drained, before, after],
    fun calls member => ?_⟩
  rcases List.mem_pair.mp member with rfl | rfl
  · exact ⟨by decide +kernel, by decide +kernel, lacking detached (by decide +kernel)⟩
  · exact ⟨by decide +kernel, by decide +kernel, lacking drained (by decide +kernel)⟩

end View

end TidyTree
