import TidyTree.Proofs.Motion.Continuity
import TidyTree.Proofs.Relayout.Cover
import TidyTree.Proofs.Scalar.Binary64
import TidyTree.Proofs.View.Settlement

set_option autoImplicit false
set_option relaxedAutoImplicit false

namespace TidyTree

variable {σ α : Type}

theorem Tree.feed_of_toggle {t t' : Tree} {id : NodeId} {state : BranchState}
    (h : t.fold .toggle id = .ok (state, t')) (children : state ≠ .leaf) :
    t'.feed = t.feed ++ [⟨id, state⟩] := by
  unfold fold at h
  cases hn : t.find? id with
  | none => simp [hn] at h
  | some n =>
    rw [hn] at h
    dsimp only at h
    split at h
    · next same =>
      obtain ⟨rfl, rfl⟩ := Prod.mk.inj (Except.ok.inj h)
      cases hs : n.state <;> simp [hs, Fold.apply, BranchState.toggled] at same children
    · obtain ⟨rfl, rfl⟩ := Prod.mk.inj (Except.ok.inj h)
      rfl

namespace Mount

variable {m : Mount α}

/-- The layout shows the tree as it is, so no node was folded since it was laid out. -/
def IsCurrent (m : Mount α) : Prop := m.layout.Shows m.tree.root

/-- The layout shows the tree as it was before the changes that the tree has to tell. -/
def IsTracked (m : Mount α) : Prop :=
  ∃ before : Node, m.layout.Shows before ∧ before.IsNumbered 0 ∧
    before.AgreesOff (· ∈ m.tree.feed.map (·.id)) m.tree.root

theorem IsCurrent.isTracked (h : m.IsCurrent) (numbered : m.tree.root.IsNumbered 0) : m.IsTracked :=
  ⟨m.tree.root, h, numbered, .refl _ _⟩

private theorem IsTracked.congr {m' : Mount α} (h : m.IsTracked) (tree : m'.tree = m.tree)
    (layout : m'.layout = m.layout) : m'.IsTracked := by
  obtain ⟨before, shows, numbered, agree⟩ := h
  exact ⟨before, layout ▸ shows, numbered, tree ▸ agree⟩

theorem IsTracked.fold (h : m.IsTracked) (how : Fold) (id : NodeId) :
    IsTracked { m with tree := m.tree.folded how id } := by
  obtain ⟨before, shows, numbered, agree⟩ := h
  rcases m.tree.folded_cases how id with same | ⟨_, state, _, _, _, changed⟩
  · exact congr (m := m) ⟨before, shows, numbered, agree⟩ same rfl
  · refine ⟨before, shows, numbered, ?_⟩
    dsimp only
    rw [changed]
    refine (agree.trans (Node.agreesOff_setState id state m.tree.root)).mono fun j hj => ?_
    rw [List.map_append, List.mem_append]
    exact hj.imp_right fun same => List.mem_singleton.mpr same

variable [Scalar α] {settings : Settings α} {metrics : Metrics σ α}

/-- From one state of a mounted tree to the next at a clock reading, nothing on stage vanishes,
nothing that moves smoothly jumps, and what is new on stage is invisible. -/
structure Continues (m m' : Mount α) (now : Duration) : Prop where
  nodesStay : ∀ id, m.nodes.holds id = true → m'.nodes.holds id = true
  linksStay : ∀ link, m.links.holds link = true → m'.links.holds link = true
  nodesGoOn : ∀ t ∈ m'.plan.nodes, t.mode = .animated → ∀ spot,
    m.nodes.sample? t.key now = some spot → m'.nodes.sample? t.key now = some spot
  linksGoOn : ∀ t ∈ m'.plan.links, t.mode = .animated → ∀ strand,
    m.links.sample? t.key now = some strand → m'.links.sample? t.key now = some strand
  newNodes : ∀ id, m.nodes.holds id = false → ∀ spot,
    m'.nodes.sample? id now = some spot → spot.opacity = 0
  newLinks : ∀ link, m.links.holds link = false → ∀ strand,
    m'.links.sample? link now = some strand → strand.opacity = 0

private theorem isCurrent_relayout (m : Mount α) (settings : Settings α) (metrics : Metrics σ α)
    (scope : Scope) (now : Duration) (state : σ) :
    (m.relayout settings metrics scope now state).1.IsCurrent :=
  Layout.shows_withColumns settings.sizing metrics m.columnWidth m.tree state

namespace IsTracked

private theorem relayout (numbered : m.tree.root.IsNumbered 0) (settings : Settings α)
    (metrics : Metrics σ α) (scope : Scope) (now : Duration) (state : σ) :
    (m.relayout settings metrics scope now state).1.IsTracked :=
  (m.isCurrent_relayout settings metrics scope now state).isTracked numbered

theorem step (h : m.IsTracked) (numbered : m.tree.root.IsNumbered 0) {now : Duration}
    {prompt : Prop} {m' : Mount α} (stepped : Mount.Step settings metrics now prompt m m') :
    m'.IsTracked := by
  cases stepped with
  | relayout state _ => exact relayout numbered settings metrics .nothing now state
  | sync state _ =>
    exact relayout (m := (m.takeChanges settings now).beginSpan settings m.changeScope now)
      numbered settings metrics m.changeScope now state
  | fold how id => exact h.fold how id
  | expire => exact h.congr rfl rfl
  | advance => exact h.congr rfl rfl

theorem ofTree {t : Tree} (reachable : t.IsReachable) (settings : Settings α)
    (metrics : Metrics σ α) (now : Duration) (state : σ) :
    (Mount.ofTree t settings metrics now state).1.IsTracked :=
  relayout (m := (Mount.bare t _).beginSpan settings .everything now) reachable.isNumbered settings
    metrics .everything now _

/-- As long as no changes are drained, the layout shows the tree before them in every reachable
state. -/
theorem of_run [PowTwo α] [Scalar.LawfulEq α] (settings : Settings α) (metrics : Metrics σ α)
    (memory : σ) {calls : List (Call α)} (undrained : .drain ∉ calls) :
    ∀ m ∈ ((View.ofSettings settings metrics memory).run calls).mount?,
      m.IsStaged settings.animation ∧ m.IsTracked :=
  View.mount_of_run calls
    (fun _ reachable now state => ⟨IsStaged.ofTree reachable settings metrics now state,
      ofTree reachable settings metrics now state⟩)
    (fun drained => absurd drained undrained)
    (fun _ _ _ h stepped => ⟨h.1.step stepped, h.2.step h.1.numbered stepped⟩) memory

end IsTracked

theorem IsTracked.refolds_sync (tracked : m.IsTracked) (numbered : m.tree.root.IsNumbered 0)
    (settings : Settings α) (metrics : Metrics σ α) (now : Duration) (state : σ) :
    ∃ before, Refolds m.layout (m.sync settings metrics now state).1.layout before m.tree.drained
      (m.tree.feed.map (·.id)) := by
  obtain ⟨before, shows, numberedBefore, agree⟩ := tracked
  have next := Layout.shows_withColumns settings.sizing metrics m.columnWidth m.tree.drained state
  exact ⟨before, shows, next, numberedBefore, numbered, agree⟩

variable [Scalar.LawfulStart α]

private theorem continues_sync (staged : m.IsStaged settings.animation) (tracked : m.IsTracked)
    (metrics : Metrics σ α) (now : Duration) (state : σ) :
    m.Continues (m.sync settings metrics now state).1 now := by
  obtain ⟨before, refolds⟩ := tracked.refolds_sync staged.numbered settings metrics now state
  have proper := refolds.next.isProper refolds.renumbered
  let timing : Timing α := ⟨settings.animation, .cubicInOut, now⟩
  have slow : timing.StartsSlowly := fun d pos => Scalar.LawfulStart.cubicInOut_start d pos
  have nodes := Plan.leadsTo_nodes staged.proper proper m.changeScope m.tree.drained
  have links := Plan.leadsTo_links staged.proper proper m.changeScope m.tree.drained
  have smoothNodes : ∀ t ∈ (m.sync settings metrics now state).1.plan.nodes,
      t.phase ≠ .updating → t.mode = .animated := fun t ht => refolds.animated_nodes ht
  have smoothLinks : ∀ t ∈ (m.sync settings metrics now state).1.plan.links,
      t.phase ≠ .updating → t.mode = .animated := fun t ht => refolds.animated_links ht
  constructor
  case nodesStay =>
    exact fun id => Stage.holds_applyAll timing nodes.nodup
      fun t ht phase => smoothNodes t ht (by simp [phase])
  case linksStay =>
    exact fun link => Stage.holds_applyAll timing links.nodup
      fun t ht phase => smoothLinks t ht (by simp [phase])
  case nodesGoOn =>
    exact fun t ht animated spot => Stage.sample?_applyAll_of_animated slow nodes.nodup ht animated
  case linksGoOn =>
    exact fun t ht animated strand =>
      Stage.sample?_applyAll_of_animated slow links.nodup ht animated
  case newNodes =>
    intro id new spot sampled
    obtain ⟨t, ht, entering, rfl⟩ := Stage.exists_start_of_new slow staged.nodes nodes
      (fun t ht phase => smoothNodes t ht (by simp [phase])) new sampled
    exact Plan.opacity_of_entering_node ht entering
  case newLinks =>
    intro link new strand sampled
    obtain ⟨t, ht, entering, rfl⟩ := Stage.exists_start_of_new slow staged.links links
      (fun t ht phase => smoothLinks t ht (by simp [phase])) new sampled
    exact Plan.opacity_of_entering_link ht entering

end Mount

namespace View

def IsCurrent (v : View σ α) : Prop := ∀ m ∈ v.mount?, m.IsCurrent

variable [Scalar α]

theorem exists_sync {v : View σ α} (news : v.hasNews = true) (now : Duration) :
    ∃ m ∈ v.mount?, (m.sync v.settings v.metrics now v.memory).1 ∈ (v.sync now).mount? := by
  cases hm : v.mount? with
  | none => simp [hasNews, tree?, hm] at news
  | some m => exact ⟨m, rfl, by simp [sync, news, remount, hm]⟩

private theorem isCurrent_remount (v : View σ α) {f : Mount α → σ → Mount α × σ}
    (h : ∀ m state, (f m state).1.IsCurrent) : (v.remount f).IsCurrent := by
  intro m' hm'
  unfold remount at hm'
  cases hm : v.mount? with
  | none => simp [hm] at hm'
  | some m =>
    simp only [hm] at hm'
    obtain rfl := Option.mem_some.mp hm'
    exact h m v.memory

theorem isCurrent_sync {v : View σ α} (news : v.hasNews = true) (now : Duration) :
    (v.sync now).IsCurrent := by
  rw [sync, if_pos news]
  exact v.isCurrent_remount fun m =>
    Mount.isCurrent_relayout _ v.settings v.metrics m.changeScope now

theorem fold_of_toggle {v v' : View σ α} {m : Mount α} {id : NodeId} {now : Duration}
    {state : BranchState} (attached : v.isDetached = false)
    (h : v.toggle id now = .ok (state, v')) (hm : m ∈ v.mount?) :
    m.tree.fold .toggle id = .ok (state, m.tree.folded .toggle id) := by
  unfold toggle at h
  rw [attached, if_neg (by simp)] at h
  rw [Tree.folded]
  cases ht : m.tree.fold .toggle id with
  | error e => simp [foldTree, Option.mem_def.mp hm, ht, bind, Except.bind] at h
  | ok result =>
    simp only [foldTree, Option.mem_def.mp hm, ht, bind, Except.bind, pure, Except.pure,
      Except.ok.injEq, Prod.mk.injEq] at h
    rw [← h.1]

/-- Folding over a node with children on an attached view folds it in the tree and draws that. -/
theorem exists_toggle {v v' : View σ α} {id : NodeId} {now : Duration} {state : BranchState}
    (attached : v.isDetached = false) (h : v.toggle id now = .ok (state, v'))
    (children : state ≠ .leaf) :
    ∃ m ∈ v.mount?, ∃ m' ∈ v'.mount?, ∃ folded : Mount α,
      folded = { m with tree := m.tree.folded .toggle id } ∧
        m' = (folded.sync v.settings v.metrics now v.memory).1 := by
  unfold toggle at h
  rw [attached, if_neg (by simp)] at h
  cases hm : v.mount? with
  | none => simp [foldTree, hm, bind, Except.bind] at h
  | some m =>
    cases ht : m.tree.fold .toggle id with
    | error e => simp [foldTree, hm, ht, bind, Except.bind] at h
    | ok result =>
      obtain ⟨reached, tree⟩ := result
      simp only [foldTree, hm, ht, bind, Except.bind, pure, Except.pure, Except.ok.injEq,
        Prod.mk.injEq] at h
      obtain ⟨rfl, rfl⟩ := h
      rw [if_neg children]
      have feed := Tree.feed_of_toggle ht children
      have same : m.tree.folded .toggle id = tree := by rw [Tree.folded, ht]
      have news : View.hasNews { v with mount? := some { m with tree } } = true := by
        simp [hasNews, tree?, attached, feed]
      obtain ⟨_, hfolded, drawn⟩ := exists_sync news now
      obtain rfl := Option.mem_some.mp hfolded
      exact ⟨m, rfl, _, drawn, { m with tree }, by rw [same], rfl⟩

/-- Drawing folded nodes makes nothing jump, pop in or vanish: not when a view is synchronized with
its tree, and not when a node is folded over. -/
theorem continues_of_redraw [PowTwo α] [Scalar.LawfulEq α] [Scalar.LawfulStart α]
    (settings : Settings α) (metrics : Metrics σ α) (memory : σ) {calls : List (Call α)}
    (undrained : .drain ∉ calls) (now : Duration) :
    (((ofSettings settings metrics memory).run calls).hasNews = true →
      ∃ m ∈ ((ofSettings settings metrics memory).run calls).mount?,
        ∃ m' ∈ (((ofSettings settings metrics memory).run calls).sync now).mount?,
          m.Continues m' now) ∧
    ∀ id state v', ((ofSettings settings metrics memory).run calls).isDetached = false →
      ((ofSettings settings metrics memory).run calls).toggle id now = .ok (state, v') →
      state ≠ .leaf →
      ∃ m ∈ ((ofSettings settings metrics memory).run calls).mount?, ∃ m' ∈ v'.mount?,
        m.Continues m' now := by
  have reached := Mount.IsTracked.of_run settings metrics memory undrained
  have same := settings_run (ofSettings settings metrics memory) calls
  generalize (ofSettings settings metrics memory).run calls = v at *
  replace same : v.settings = settings := same
  subst same
  constructor
  · intro news
    obtain ⟨m, hm, hm'⟩ := exists_sync news now
    obtain ⟨staged, tracked⟩ := reached m hm
    exact ⟨m, hm, _, hm', Mount.continues_sync staged tracked v.metrics now v.memory⟩
  · intro id state v' attached toggled children
    obtain ⟨m, hm, m', hm', folded, rfl, rfl⟩ := exists_toggle attached toggled children
    obtain ⟨staged, tracked⟩ := reached m hm
    have refolded : Mount.IsStaged { m with tree := m.tree.folded .toggle id }
        v.settings.animation :=
      staged.congr (staged.numbered.folded .toggle id) rfl rfl rfl
    have continues := Mount.continues_sync refolded (tracked.fold .toggle id) v.metrics now v.memory
    exact ⟨m, hm, _, hm', ⟨continues.nodesStay, continues.linksStay, continues.nodesGoOn,
      continues.linksGoOn, continues.newNodes, continues.newLinks⟩⟩

theorem continues_of_redraw_of_fold :
    ∃ v v' : View Unit Float, v.isRunning (.ofMillis 1100) = true ∧ v.hasNews = true ∧
      v.toggle 1 (.ofMillis 1100) = .ok (.expanded, v') ∧
      (∃ m ∈ v.mount?, ∃ m' ∈ (v.sync (.ofMillis 1100)).mount?, m.Continues m' (.ofMillis 1100)) ∧
      ∃ m ∈ v.mount?, ∃ m' ∈ v'.mount?, m.Continues m' (.ofMillis 1100) := by
  let tree : Tree := .ofRecord { label := "root", visible := [
    { label := "left", visible := [{ label := "upper" }, { label := "lower" }] },
    { label := "right", visible := [{ label := "leaf" }] }] }
  let calls : List (Call Float) := [.mount (some ⟨tree, .ofRecord _⟩) .zero,
    .toggle 1 (.ofMillis 1000), .tick (.ofMillis 1050), .fold .collapse 4]
  let v := (ofSettings Settings.standard (Metrics.fixed (8 : Float)) ()).run calls
  have undrained : Call.drain ∉ calls := by simp [calls]
  obtain ⟨synced, toggled⟩ := continues_of_redraw Settings.standard (Metrics.fixed (8 : Float)) ()
    undrained (.ofMillis 1100)
  have running : v.isRunning (.ofMillis 1100) = true := by decide +kernel
  have news : v.hasNews = true := by decide +kernel
  have folded : (v.toggle 1 (.ofMillis 1100)).map (·.1) = .ok .expanded := by decide +kernel
  cases reached : v.toggle 1 (.ofMillis 1100) with
  | error e => simp [reached, Except.map] at folded
  | ok result =>
    obtain ⟨state, v'⟩ := result
    simp only [reached, Except.map, Except.ok.injEq] at folded
    subst folded
    exact ⟨v, v', running, news, reached, synced news,
      toggled 1 .expanded v' (by decide +kernel) reached (by decide)⟩

end View

end TidyTree
