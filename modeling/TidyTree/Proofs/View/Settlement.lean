import TidyTree.Proofs.Relayout.Plan
import TidyTree.Proofs.View.Run

set_option autoImplicit false
set_option relaxedAutoImplicit false

namespace TidyTree

variable {σ α : Type} [Scalar α]

namespace Mount

/-- The stages present a layout of numbered nodes. -/
structure IsStaged (m : Mount α) (animation : Duration) : Prop where
  numbered : m.tree.root.IsNumbered 0
  proper : m.layout.IsProper
  nodes : m.nodes.Presents m.layout.spot? animation
  links : m.links.Presents m.layout.line? animation

/-- Everything that the layout draws is on its way to its place and not due to leave, and everything
else on stage is due to leave. -/
structure IsSettling (m : Mount α) : Prop where
  nodes : ∀ b ∈ m.layout.boxes, ∃ actor, m.nodes.actors.get? b.id = some actor ∧
    actor.leavesAt = none ∧
      ((b.position == b.position) = true → (actor.track.target == .shown b.position) = true)
  links : ∀ link ∈ m.layout.links, ∃ actor p q, m.links.actors.get? link = some actor ∧
    actor.leavesAt = none ∧ m.layout.position? link.source = some p ∧
      m.layout.position? link.target = some q ∧
        ((p == p) = true → (q == q) = true → (actor.track.target == .shown p q) = true)
  goneNodes : ∀ id actor, m.nodes.actors.get? id = some actor → m.layout.contains id = false →
    actor.leavesAt.isSome
  goneLinks : ∀ link actor, m.links.actors.get? link = some actor → link ∉ m.layout.links →
    actor.leavesAt.isSome

end Mount

/-- A scene draws the boxes and the links of a layout at their places, fully visible, and nothing
else. -/
structure Scene.Draws (scene : Scene α) (l : Layout α) : Prop where
  nodes : scene.nodes.map (·.box) = l.boxes
  spots : ∀ n ∈ scene.nodes, n.isLeaving = false ∧
    ((n.box.position == n.box.position) = true → (n.spot == .shown n.box.position) = true)
  links : scene.links.map (·.link) = l.links
  strands : ∀ s ∈ scene.links, ∃ p q, l.position? s.link.source = some p ∧
    l.position? s.link.target = some q ∧
      ((p == p) = true → (q == q) = true → (s.strand == .shown p q) = true)

namespace Mount.IsStaged

variable {m : Mount α} {settings : Settings α}

theorem congr {m' : Mount α} (h : m.IsStaged settings.animation)
    (numbered : m'.tree.root.IsNumbered 0) (layout : m'.layout = m.layout)
    (nodes : m'.nodes = m.nodes) (links : m'.links = m.links) :
    m'.IsStaged settings.animation where
  numbered := numbered
  proper := layout ▸ h.proper
  nodes := layout ▸ nodes ▸ h.nodes
  links := layout ▸ links ▸ h.links

theorem bare {t : Tree} (reachable : t.IsReachable) (columnWidth : α) (animation : Duration) :
    (Mount.bare t columnWidth).IsStaged animation where
  numbered := reachable.isNumbered
  proper := Layout.isProper_empty
  nodes := Stage.presents_empty (fun _ => rfl) animation
  links := Stage.presents_empty (fun _ => rfl) animation

theorem beginSpan (h : m.IsStaged settings.animation) (scope : Scope) (now : Duration) :
    (m.beginSpan settings scope now).IsStaged settings.animation := h.congr h.numbered rfl rfl rfl

theorem takeChanges (h : m.IsStaged settings.animation) (now : Duration) :
    (m.takeChanges settings now).IsStaged settings.animation := h.congr h.numbered rfl rfl rfl

private theorem leavingNodes_eq_nil (h : m.IsStaged settings.animation) {now : Duration}
    (still : (m.nodes.tick now).isMoving now = false) (time : Duration) :
    (m.advance now).leavingNodes time = [] := by
  refine List.filterMap_eq_nil_iff.mpr fun entry _ => ?_
  obtain ⟨id, box⟩ := entry
  show (if m.layout.contains id = true then none
    else ((m.nodes.tick now).sample? id time).map _) = none
  split
  · rfl
  · next absent =>
    have gone : m.layout.spot? id = none := by
      rwa [Layout.spot?_eq_none_iff, ← Layout.contains_iff]
    rw [Stage.sample?, h.nodes.get?_eq_none_of_still still gone, Option.map_none, Option.map_none]

private theorem leavingLinks_eq_nil (h : m.IsStaged settings.animation) {now : Duration}
    (still : (m.links.tick now).isMoving now = false) (time : Duration) :
    (m.advance now).leavingLinks time = [] := by
  refine List.map_eq_nil_iff.mpr (List.filter_eq_nil_iff.mpr fun entry hentry => ?_)
  obtain ⟨⟨link, actor⟩, held, rfl⟩ := List.mem_map.mp hentry
  rw [decide_eq_true_eq, not_not]
  by_contra absent
  have none := h.links.get?_eq_none_of_still still (Layout.line?_of_not_mem absent)
  exact absurd ((Table.get?_eq_some_iff.mpr held).symm.trans none) (by simp)

theorem holds_node (h : m.IsStaged settings.animation) {id : NodeId}
    (member : id ∈ m.layout.ids) : m.nodes.holds id = true := by
  obtain ⟨b, hb, rfl⟩ := List.mem_map.mp member
  obtain ⟨actor, held, _⟩ := h.nodes.present _ _ (h.proper.spot?_id hb)
  exact Option.isSome_iff_exists.mpr ⟨actor, held⟩

theorem holds_link (h : m.IsStaged settings.animation) {link : Link}
    (member : link ∈ m.layout.links) : m.links.holds link = true := by
  obtain ⟨strand, hstrand⟩ :=
    Option.isSome_iff_exists.mp ((h.proper.isSome_line?_iff link).mpr member)
  obtain ⟨actor, held, _⟩ := h.links.present link strand hstrand
  exact Option.isSome_iff_exists.mpr ⟨actor, held⟩

variable [Scalar.LawfulEq α]

private theorem adopt (h : m.IsStaged settings.animation) {next : Layout α} (proper : next.IsProper)
    (scope : Scope) (now : Duration) :
    (m.adopt settings next scope now).IsStaged settings.animation where
  numbered := h.numbered
  proper := proper
  nodes := h.nodes.applyAll ⟨settings.animation, .cubicInOut, now⟩
    (Plan.leadsTo_nodes h.proper proper scope m.tree)
  links := h.links.applyAll ⟨settings.animation, .cubicInOut, now⟩
    (Plan.leadsTo_links h.proper proper scope m.tree)

private theorem relayout (h : m.IsStaged settings.animation) (metrics : Metrics σ α) (scope : Scope)
    (now : Duration) (state : σ) :
    (m.relayout settings metrics scope now state).1.IsStaged settings.animation :=
  h.adopt ((Layout.shows_withColumns settings.sizing metrics m.columnWidth m.tree state).isProper
    h.numbered) scope now

theorem ofTree {t : Tree} (reachable : t.IsReachable) (settings : Settings α)
    (metrics : Metrics σ α) (now : Duration) (state : σ) :
    (Mount.ofTree t settings metrics now state).1.IsStaged settings.animation := by
  have start : ∀ width : α,
      ((Mount.bare t width).beginSpan settings .everything now).IsStaged settings.animation :=
    fun width => (bare reachable width settings.animation).beginSpan .everything now
  exact (start _).relayout metrics .everything now _

theorem step (h : m.IsStaged settings.animation) {metrics : Metrics σ α} {now : Duration}
    {prompt : Prop} {m' : Mount α} (stepped : Mount.Step settings metrics now prompt m m') :
    m'.IsStaged settings.animation := by
  cases stepped with
  | relayout state _ => exact h.relayout metrics .nothing now state
  | sync state _ =>
    exact ((h.takeChanges now).beginSpan m.changeScope now).relayout metrics m.changeScope now state
  | fold how id => exact h.congr (h.numbered.folded how id) rfl rfl rfl
  | expire => exact h.congr h.numbered rfl rfl rfl
  | advance => exact ⟨h.numbered, h.proper, h.nodes.tick now, h.links.tick now⟩

theorem of_run [PowTwo α] (settings : Settings α) (metrics : Metrics σ α) (memory : σ)
    (calls : List (Call α)) :
    ∀ m ∈ ((View.ofSettings settings metrics memory).run calls).mount?,
      m.IsStaged settings.animation :=
  View.mount_of_run calls (fun _ reachable now state => ofTree reachable settings metrics now state)
    (fun _ _ h => h.congr h.numbered rfl rfl rfl) (fun _ _ _ h stepped => h.step stepped) memory

private theorem isSettling (h : m.IsStaged settings.animation) : m.IsSettling where
  nodes := by
    intro b hb
    obtain ⟨actor, held, stays, target⟩ := h.nodes.present _ _ (h.proper.spot?_id hb)
    exact ⟨actor, held, stays, fun self => target (Spot.shown_beq_self self)⟩
  links := by
    intro link hlink
    obtain ⟨strand, hstrand⟩ := Option.isSome_iff_exists.mp (h.proper.isSome_strand? hlink)
    obtain ⟨p, q, hp, hq, rfl⟩ := Layout.strand?_eq_some hstrand
    obtain ⟨actor, held, stays, target⟩ :=
      h.links.present link _ ((Layout.line?_of_mem hlink).trans hstrand)
    exact ⟨actor, p, q, held, stays, hp, hq,
      fun pself qself => target (Strand.shown_beq_self pself qself)⟩
  goneNodes := by
    intro id actor held absent
    have gone : m.layout.spot? id = none := by
      rw [Layout.spot?_eq_none_iff, ← Layout.contains_iff, absent]
      exact Bool.false_ne_true
    obtain ⟨_, _, _, _, leaves⟩ := h.nodes.fading id actor gone held
    rw [leaves]
    rfl
  goneLinks := by
    intro link actor held absent
    obtain ⟨_, _, _, _, leaves⟩ :=
      h.links.fading link actor (Layout.line?_of_not_mem absent) held
    rw [leaves]
    rfl

private theorem sample?_node (h : m.IsStaged settings.animation) {now time : Duration}
    (still : m.nodes.isMoving now = false) (later : now ≤ time) {b : NodeBox α}
    (hb : b ∈ m.layout.boxes) :
    ∃ spot, m.nodes.sample? b.id time = some spot ∧
      ((b.position == b.position) = true → (spot == .shown b.position) = true) := by
  obtain ⟨spot, sampled, there⟩ := h.nodes.sample?_of_still still later (h.proper.spot?_id hb)
  exact ⟨spot, sampled, fun self => there (Spot.shown_beq_self self)⟩

private theorem sample?_link (h : m.IsStaged settings.animation) {now time : Duration}
    (still : m.links.isMoving now = false) (later : now ≤ time) {link : Link}
    (hlink : link ∈ m.layout.links) :
    ∃ strand p q, m.links.sample? link time = some strand ∧
      m.layout.position? link.source = some p ∧ m.layout.position? link.target = some q ∧
        ((p == p) = true → (q == q) = true → (strand == .shown p q) = true) := by
  obtain ⟨s, hs⟩ := Option.isSome_iff_exists.mp (h.proper.isSome_strand? hlink)
  obtain ⟨p, q, hp, hq, rfl⟩ := Layout.strand?_eq_some hs
  obtain ⟨strand, sampled, there⟩ :=
    h.links.sample?_of_still still later ((Layout.line?_of_mem hlink).trans hs)
  exact ⟨strand, p, q, sampled, hp, hq,
    fun pself qself => there (Strand.shown_beq_self pself qself)⟩

private theorem draws (h : m.IsStaged settings.animation) {now time : Duration} (later : now ≤ time)
    (still : (m.advance now).isMoving now = false) (v : View σ α) :
    (v.sceneOf (m.advance now) time).Draws m.layout := by
  obtain ⟨stillNodes, stillLinks⟩ := Bool.or_eq_false_iff.mp still
  have advanced : (m.advance now).IsStaged settings.animation :=
    ⟨h.numbered, h.proper, h.nodes.tick now, h.links.tick now⟩
  have nodes : (v.sceneOf (m.advance now) time).nodes = (m.advance now).presentNodes time :=
    (congrArg _ (h.leavingNodes_eq_nil stillNodes time)).trans (List.append_nil _)
  have links : (v.sceneOf (m.advance now) time).links = (m.advance now).presentLinks time :=
    (congrArg _ (h.leavingLinks_eq_nil stillLinks time)).trans (List.append_nil _)
  constructor
  case nodes =>
    rw [nodes, Mount.presentNodes, List.map_map]
    exact List.map_id _
  case spots =>
    intro n hn
    rw [nodes] at hn
    obtain ⟨box, hbox, rfl⟩ := List.mem_map.mp hn
    obtain ⟨spot, sampled, there⟩ := advanced.sample?_node stillNodes later hbox
    refine ⟨rfl, fun self => ?_⟩
    dsimp only
    rw [sampled, Option.getD_some]
    exact there self
  case links =>
    rw [links]
    refine map_filterMap_eq_self fun link hlink => ?_
    obtain ⟨strand, _, _, sampled, _⟩ := advanced.sample?_link stillLinks later hlink
    exact ⟨⟨link, strand⟩, by rw [sampled, Option.some_or, Option.map_some], rfl⟩
  case strands =>
    intro s hs
    rw [links] at hs
    obtain ⟨link, hlink, hs⟩ := List.mem_filterMap.mp hs
    obtain ⟨strand, p, q, sampled, hp, hq, there⟩ :=
      advanced.sample?_link stillLinks later hlink
    rw [sampled, Option.some_or, Option.map_some, Option.some.injEq] at hs
    exact hs ▸ ⟨p, q, hp, hq, there⟩

end Mount.IsStaged

theorem View.exists_draws_of_still [Scalar.LawfulEq α] {v : View σ α} {m : Mount α}
    (hm : m ∈ v.mount?) {settings : Settings α} (staged : m.IsStaged settings.animation)
    {now time : Duration} (later : now ≤ time) (attached : v.isDetached = false)
    (still : (v.tick now).isRunning now = false) :
    ∃ m', (v.tick now).mount? = some m' ∧ m'.layout = m.layout ∧
      ((v.tick now).sceneOf m' time).Draws m.layout := by
  have expired : (m.expireSpan now).IsStaged settings.animation :=
    staged.congr staged.numbered rfl rfl rfl
  have mounted : (v.tick now).mount? = some ((m.expireSpan now).advance now) := by
    simp only [tick, Option.mem_def.mp hm, attached, Option.map_some, Bool.false_eq_true, if_false]
  have unmoved : ((m.expireSpan now).advance now).isMoving now = false := by
    have detached : (v.tick now).isDetached = false := attached
    simpa only [isRunning, detached, isMoving, mounted, Option.any_some, Bool.not_false,
      Bool.true_and] using still
  exact ⟨_, mounted, rfl, expired.draws later unmoved _⟩

/-- In every reachable state everything that the layout draws is on its way to its place there and
everything else on stage is due to leave. When a tick of an attached view leaves nothing moving, the
layout is drawn from then on, and nothing else. -/
theorem View.settles_on_layout [PowTwo α] [Scalar.LawfulEq α] (settings : Settings α)
    (metrics : Metrics σ α) (memory : σ) (calls : List (Call α)) :
    ∀ m ∈ ((ofSettings settings metrics memory).run calls).mount?, m.IsSettling ∧
      ∀ now time : Duration, now ≤ time →
        ((ofSettings settings metrics memory).run calls).isDetached = false →
        (((ofSettings settings metrics memory).run calls).tick now).isRunning now = false →
        ∃ scene, (((ofSettings settings metrics memory).run calls).tick now).scene? time =
          some scene ∧ scene.Draws m.layout := by
  intro m hm
  have staged := Mount.IsStaged.of_run settings metrics memory calls m hm
  refine ⟨staged.isSettling, fun now time later attached still => ?_⟩
  obtain ⟨m', mounted, _, draws⟩ := exists_draws_of_still hm staged later attached still
  exact ⟨_, by rw [scene?, mounted, Option.map_some], draws⟩

theorem View.settles_on_layout_of_fold :
    ∃ v : View Unit Rat, ∃ m ∈ v.mount?, m.layout.ids = [0, 1, 4] ∧ m.IsSettling ∧
      (v.tick (.ofMillis 1000)).isRunning (.ofMillis 1000) = false ∧
        ∃ scene, (v.tick (.ofMillis 1000)).scene? (.ofMillis 2000) = some scene ∧
          scene.Draws m.layout := by
  let _ : PowTwo Rat := ⟨fun x => 2 ^ x.floor⟩
  let tree : Tree := .ofRecord { label := "root", visible := [
    { label := "left", visible := [{ label := "upper" }, { label := "lower" }] },
    { label := "right" }] }
  let calls : List (Call Rat) := [.mount (some ⟨tree, .ofRecord _⟩) .zero,
    .toggle 1 (.ofMillis 100), .tick (.ofMillis 150), .resize ⟨800, 500⟩ (.ofMillis 200)]
  let v := (ofSettings Settings.standard (Metrics.fixed (8 : Rat)) ()).run calls
  have laid : v.mount?.map (·.layout.ids) = some [0, 1, 4] := by decide +kernel
  obtain ⟨m, hm, ids⟩ := Option.map_eq_some_iff.mp laid
  obtain ⟨settling, drawn⟩ :=
    settles_on_layout Settings.standard (Metrics.fixed (8 : Rat)) () calls m hm
  have still : (v.tick (.ofMillis 1000)).isRunning (.ofMillis 1000) = false := by decide +kernel
  exact ⟨v, m, hm, ids, settling, still,
    drawn _ (.ofMillis 2000) (by decide) (by decide +kernel) still⟩

end TidyTree
