import TidyTree.Proofs.Layout.Widths
import TidyTree.Proofs.View.Coherence
import TidyTree.Proofs.View.Redraw

set_option autoImplicit false
set_option relaxedAutoImplicit false

namespace TidyTree

private theorem IsPartition.stays {κ ν : Type} [DecidableEq κ] {ts : List (Transition κ ν)}
    {keys : List κ}
    (partition : IsPartition ts keys keys) {place : κ → Option ν} (leads : LeadsTo ts place place)
    {t : Transition κ ν} (ht : t ∈ ts) :
    t.key ∈ keys ∧ t.phase = .updating ∧ place t.key = some t.start ∧ t.start = t.finish := by
  have member := ((partition.mem_keys_iff t.key).mp (List.mem_map_of_mem ht)).elim id id
  have phase := (partition.updating t ht).mpr ⟨member, member⟩
  have fits := leads.fits t ht
  rw [Transition.Fits, phase] at fits
  exact ⟨member, phase, fits.1, Option.some.inj (fits.1.symm.trans fits.2)⟩

namespace Stage

variable {κ α ν : Type} [Key κ] [Scalar α] [Lerp α ν] [BEq ν]

private theorem applyAll_eq_self (s : Stage κ α ν) (timing : Timing α) {ts : List (Transition κ ν)}
    (idle : ∀ t ∈ ts, t.phase = .updating ∧ t.mode = .immediate ∧ (t.start == t.finish) = true ∧
      s.holds t.key = true) : s.applyAll timing ts = s := by
  induction ts with
  | nil => rfl
  | cons t ts ih =>
    obtain ⟨phase, mode, same, held⟩ := idle t List.mem_cons_self
    have silent : s.cuesFor timing t = [] := by
      rw [cuesFor, Transition.cues, phase, mode]
      dsimp only
      rw [same, held]
      rfl
    have first : s.apply timing t = s := by
      rw [apply, silent]
      rfl
    have rest := ih fun u hu => idle u (List.mem_cons_of_mem _ hu)
    rw [applyAll, List.foldl_cons, first]
    exact rest

end Stage

namespace Layout

variable {σ α : Type} [Scalar α] {l : Layout α}

def HasNumbers (l : Layout α) : Prop := ∀ b ∈ l.boxes, (b.position == b.position) = true

private theorem HasNumbers.position_beq_self (h : l.HasNumbers) {id : NodeId} {p : Point α}
    (found : l.position? id = some p) : (p == p) = true := by
  obtain ⟨b, hb, rfl⟩ := Option.map_eq_some_iff.mp found
  exact h b (get?_eq_some hb).1

end Layout

namespace Plan

variable {α : Type} [Scalar α] [Scalar.LawfulEq α] {l : Layout α}

private theorem idle_nodes (proper : l.IsProper) (numbers : l.HasNumbers) (t : Tree)
    {tr : Transition NodeId (Spot α)} (htr : tr ∈ (between l l .nothing t).nodes) :
    tr.phase = .updating ∧ tr.mode = .immediate ∧ (tr.start == tr.finish) = true ∧
      tr.key ∈ l.ids := by
  obtain ⟨member, phase, there, still⟩ :=
    (isPartition_nodes proper proper .nothing t).stays (leadsTo_nodes proper proper .nothing t) htr
  obtain ⟨p, found, place⟩ := Option.map_eq_some_iff.mp there
  refine ⟨phase, mode_of_mem_nodes htr, ?_, member⟩
  rw [← still, ← place]
  exact Spot.shown_beq_self (numbers.position_beq_self found)

private theorem idle_links (proper : l.IsProper) (numbers : l.HasNumbers) (t : Tree)
    {tr : Transition Link (Strand α)} (htr : tr ∈ (between l l .nothing t).links) :
    tr.phase = .updating ∧ tr.mode = .immediate ∧ (tr.start == tr.finish) = true ∧
      tr.key ∈ l.links := by
  obtain ⟨member, phase, there, still⟩ :=
    (isPartition_links proper proper .nothing t).stays (leadsTo_links proper proper .nothing t) htr
  obtain ⟨p, q, hp, hq, place⟩ :=
    Layout.strand?_eq_some ((Layout.line?_of_mem member).symm.trans there)
  refine ⟨phase, mode_of_mem_links htr, ?_, member⟩
  rw [← still, place]
  exact Strand.shown_beq_self (numbers.position_beq_self hp) (numbers.position_beq_self hq)

end Plan

variable {σ α : Type} [Scalar α]

namespace Mount

variable {m : Mount α} {settings : Settings α} {metrics : Metrics σ α}

/-- The layout was made of the tree in some state of its nodes. -/
def IsLaidOut (m : Mount α) (settings : Settings α) (metrics : Metrics σ α) : Prop :=
  ∃ (before : Tree) (state : σ),
    m.layout = (Layout.withColumns settings.sizing metrics m.columnWidth before state).1 ∧
      before.root.AgreesOff (fun _ => True) m.tree.root

namespace IsLaidOut

private theorem relayout (m : Mount α) (settings : Settings α) (metrics : Metrics σ α)
    (scope : Scope)
    (now : Duration) (state : σ) :
    (m.relayout settings metrics scope now state).1.IsLaidOut settings metrics :=
  ⟨m.tree, state, rfl, .refl _ _⟩

private theorem fold (h : m.IsLaidOut settings metrics) (how : Fold) (id : NodeId) :
    IsLaidOut { m with tree := m.tree.folded how id } settings metrics := by
  obtain ⟨before, state, layout, agree⟩ := h
  refine ⟨before, state, layout, ?_⟩
  exact (agree.trans (m.tree.agreesOff_folded how id)).mono fun _ _ => trivial

private theorem step (h : m.IsLaidOut settings metrics) {now : Duration} {prompt : Prop}
    {m' : Mount α}
    (stepped : Mount.Step settings metrics now prompt m m') : m'.IsLaidOut settings metrics := by
  cases stepped with
  | relayout state _ => exact relayout m settings metrics .nothing now state
  | sync state _ => exact relayout _ settings metrics m.changeScope now state
  | fold how id => exact h.fold how id
  | expire => exact h
  | advance => exact h

theorem of_run [PowTwo α] (settings : Settings α) (metrics : Metrics σ α) (memory : σ)
    (calls : List (Call α)) :
    ∀ m ∈ ((View.ofSettings settings metrics memory).run calls).mount?,
      m.IsLaidOut settings metrics :=
  View.mount_of_run calls
    (fun _ _ now _ => relayout _ settings metrics .everything now _)
    (fun _ _ h => h) (fun _ _ _ h stepped => h.step stepped) memory

private theorem withColumns_eq {f : String → Font α → Except (MeasureError α) α}
    (h : m.IsLaidOut settings metrics) (answers : metrics.Answers f) (current : m.IsCurrent)
    (state : σ) :
    (Layout.withColumns settings.sizing metrics m.columnWidth m.tree state).1 = m.layout := by
  -- The layout was made when the tree was folded in some way, and this way shows the same.
  obtain ⟨before, earlier, layout, agree⟩ := h
  have shown : before.root.visibleTree.preorder = m.tree.root.visibleTree.preorder := by
    have shows :=
      Layout.shows_withColumns settings.sizing metrics m.columnWidth before earlier
    rw [← layout] at shows
    exact shows.symm.trans current
  have same : before.root.visibleTree = m.tree.root.visibleTree :=
    (agree.visits_inj (congrArg (· ++ []) shown)).1
  rw [layout, Layout.withColumns_eq answers, Layout.withColumns_eq answers, Layout.ofWidths,
    Layout.ofWidths, same]

end IsLaidOut

variable [Scalar.LawfulEq α]

private theorem relayout_eq_self {f : String → Font α → Except (MeasureError α) α}
    (staged : m.IsStaged settings.animation) (coherent : m.IsCoherent)
    (laid : m.IsLaidOut settings metrics) (answers : metrics.Answers f) (current : m.IsCurrent)
    (numbers : m.layout.HasNumbers) (now : Duration) (state : σ) :
    (m.relayout settings metrics .nothing now state).1 =
      { m with plan := .between m.layout m.layout .nothing m.tree } := by
  have same := laid.withColumns_eq answers current state
  let timing : Timing α := ⟨settings.animation, .cubicInOut, now⟩
  have nodes : m.nodes.applyAll timing (Plan.between m.layout m.layout .nothing m.tree).nodes =
      m.nodes := by
    refine Stage.applyAll_eq_self _ timing fun tr htr => ?_
    obtain ⟨phase, mode, still, member⟩ := Plan.idle_nodes staged.proper numbers m.tree htr
    exact ⟨phase, mode, still, staged.holds_node member⟩
  have links : m.links.applyAll timing (Plan.between m.layout m.layout .nothing m.tree).links =
      m.links := by
    refine Stage.applyAll_eq_self _ timing fun tr htr => ?_
    obtain ⟨phase, mode, still, member⟩ := Plan.idle_links staged.proper numbers m.tree htr
    exact ⟨phase, mode, still, staged.holds_link member⟩
  have boxes : m.layout.boxes.foldl (fun boxes box => boxes.insert box.id box) m.boxes =
      m.boxes := by
    refine Table.ext fun id => ?_
    by_cases member : id ∈ m.layout.ids
    · obtain ⟨b, hb, rfl⟩ := List.mem_map.mp member
      rw [coherent.kept b hb]
      exact Table.get?_foldl_insert_of_mem NodeBox.id m.boxes staged.proper.nodup hb
    · exact Table.get?_foldl_insert_of_not_mem NodeBox.id m.layout.boxes m.boxes member
  show m.adopt settings (Layout.withColumns settings.sizing metrics m.columnWidth m.tree state).1
    .nothing now = _
  rw [same, adopt, nodes, links, boxes]

end Mount

namespace View

/-- The views differ in nothing that is drawn of the mounted tree, or ever will be. -/
structure Resembles (v v' : View σ α) : Prop where
  mount : ∃ plan, v'.mount? = v.mount?.map fun m => { m with plan }
  isDetached : v'.isDetached = v.isDetached
  transform : v'.viewport.transform = v.viewport.transform

namespace Resembles

variable {v v' : View σ α}

private theorem tick (h : v.Resembles v') (now : Duration) : (v.tick now).Resembles
    (v'.tick now) where
  mount := by
    obtain ⟨plan, mount⟩ := h.mount
    refine ⟨plan, ?_⟩
    rw [View.tick, View.tick, mount, h.isDetached]
    cases v.mount? with
    | none => rfl
    | some m => cases v.isDetached <;> rfl
  isDetached := h.isDetached
  transform := h.transform

private theorem run_ticks [PowTwo α] (h : v.Resembles v') (ticks : List Duration) :
    (v.run (ticks.map Call.tick)).Resembles (v'.run (ticks.map Call.tick)) := by
  induction ticks generalizing v v' with
  | nil => exact h
  | cons now ticks ih => exact ih (h.tick now)

private theorem exists_frames {m : Mount α} (h : v.Resembles v') (hm : m ∈ v.mount?)
    (time : Duration) :
    ∃ scene scene', v.frame time = .scene scene ∧ v'.frame time = .scene scene' ∧
      scene'.nodes = scene.nodes ∧ scene'.links = scene.links ∧
        scene'.transform = scene.transform := by
  obtain ⟨plan, mount⟩ := h.mount
  rw [Option.mem_def.mp hm, Option.map_some] at mount
  refine ⟨v.sceneOf m time, v'.sceneOf { m with plan } time, ?_, ?_, rfl, rfl, h.transform⟩
  · rw [frame, scene?, Option.mem_def.mp hm, Option.map_some]
  · rw [frame, scene?, mount, Option.map_some]

end Resembles

private theorem isSome_mount_run_ticks [PowTwo α] (v : View σ α) (ticks : List Duration) :
    (v.run (ticks.map Call.tick)).mount?.isSome = v.mount?.isSome := by
  induction ticks generalizing v with
  | nil => rfl
  | cons now ticks ih => exact (ih (v.tick now)).trans Option.isSome_map

/-- Another view has the same layout and the same elements on stage, each with its start, its target
and the time when it is due to leave; and whatever ticks follow, it draws the same nodes and links
at the same places of the window. -/
structure GoesOnIn [PowTwo α] (v v' : View σ α) : Prop where
  layout : v'.layout? = v.layout?
  nodes : v'.mount?.map (·.nodes) = v.mount?.map (·.nodes)
  links : v'.mount?.map (·.links) = v.mount?.map (·.links)
  frames : ∀ (ticks : List Duration) (time : Duration), ∃ scene scene',
    (v.run (ticks.map Call.tick)).frame time = .scene scene ∧
      (v'.run (ticks.map Call.tick)).frame time = .scene scene' ∧ scene'.nodes = scene.nodes ∧
        scene'.links = scene.links ∧ scene'.transform = scene.transform

private theorem Resembles.goesOnIn [PowTwo α] {v v' : View σ α} (h : v.Resembles v')
    (mounted : v.mount?.isSome) : v.GoesOnIn v' := by
  obtain ⟨plan, mount⟩ := h.mount
  refine ⟨?_, ?_, ?_, fun ticks time => ?_⟩
  · rw [layout?, layout?, mount, Option.map_map]
    rfl
  · rw [mount, Option.map_map]
    rfl
  · rw [mount, Option.map_map]
    rfl
  · have there := mounted
    rw [← isSome_mount_run_ticks v ticks] at there
    obtain ⟨m, hm⟩ := Option.isSome_iff_exists.mp there
    exact (h.run_ticks ticks).exists_frames hm time

private theorem resembles_relayout {v : View σ α} {m : Mount α} (hm : m ∈ v.mount?)
    (placed : v.viewport.IsPlaced) {now : Duration}
    (same : ∀ state, (m.relayout v.settings v.metrics .nothing now state).1 =
      { m with plan := .between m.layout m.layout .nothing m.tree }) :
    v.Resembles (v.relayout now) := by
  have mount := Option.mem_def.mp hm
  refine ⟨⟨.between m.layout m.layout .nothing m.tree, ?_⟩, ?_, ?_⟩
  · rw [View.relayout, remount, mount]
    dsimp only
    rw [same, Option.map_some]
  · rw [View.relayout, remount, mount]
  · rw [View.relayout, remount, mount]
    dsimp only
    rw [placed.resume_eq]

/-- Another size or theme disturbs nothing in a view with a current layout: with a metrics that
answers like a function and without coordinates that are no numbers, the picture goes on as it would
have gone on anyway. -/
theorem goesOnIn_resize_setTheme [PowTwo α] [Scalar.LawfulEq α] (settings : Settings α)
    {metrics : Metrics σ α} {f : String → Font α → Except (MeasureError α) α}
    (answers : metrics.Answers f) (memory : σ) (calls : List (Call α)) {m : Mount α}
    (hm : m ∈ ((ofSettings settings metrics memory).run calls).mount?) (current : m.IsCurrent)
    (numbers : m.layout.HasNumbers) (now : Duration) :
    (∀ size, ((ofSettings settings metrics memory).run calls).GoesOnIn
      (((ofSettings settings metrics memory).run calls).resize size now)) ∧
    ∀ theme, ((ofSettings settings metrics memory).run calls).GoesOnIn
      (((ofSettings settings metrics memory).run calls).setTheme theme now) := by
  obtain ⟨staged, coherent⟩ := Mount.IsCoherent.of_run settings metrics memory calls m hm
  have laid := Mount.IsLaidOut.of_run settings metrics memory calls m hm
  have mounted : ((ofSettings settings metrics memory).run calls).mount?.isSome :=
    Option.isSome_iff_exists.mpr ⟨m, hm⟩
  have placed := isPlaced_run (ofSettings settings metrics memory) calls
    (fun mounted => absurd mounted (by simp [ofSettings])) mounted
  have hsettings := settings_run (ofSettings settings metrics memory) calls
  have hmetrics := metrics_run (ofSettings settings metrics memory) calls
  generalize (ofSettings settings metrics memory).run calls = v at *
  replace hsettings : v.settings = settings := hsettings
  replace hmetrics : v.metrics = metrics := hmetrics
  subst hsettings hmetrics
  have same := Mount.relayout_eq_self staged coherent laid answers current numbers now
  constructor
  · intro size
    have resembles := resembles_relayout (v := { v with
      viewport := v.viewport.resize (size.orElse v.settings.window.container) }) hm placed same
    exact Resembles.goesOnIn ⟨resembles.mount, resembles.isDetached, resembles.transform⟩ mounted
  · intro theme
    have resembles := resembles_relayout (v := { v with theme }) hm placed same
    exact Resembles.goesOnIn ⟨resembles.mount, resembles.isDetached, resembles.transform⟩ mounted

theorem goesOnIn_resize_setTheme_of_fold :
    ∃ v : View Unit Float, v.isRunning (.ofMillis 1100) = true ∧
      v.layout?.map (·.ids) = some [0, 1, 4, 5] ∧
        v.GoesOnIn (v.resize ⟨800, 500⟩ (.ofMillis 1100)) ∧
          v.GoesOnIn (v.setTheme .dark (.ofMillis 1100)) := by
  let tree : Tree := .ofRecord { label := "root", visible := [
    { label := "left", visible := [{ label := "upper" }, { label := "lower" }] },
    { label := "right", visible := [{ label := "leaf" }] }] }
  let metrics : Metrics Unit Float := .fixed 8
  let start : View Unit Float := ofSettings Settings.standard metrics ()
  let folded : List (Call Float) := [.mount (some ⟨tree, .ofRecord _⟩) .zero, .fold .collapse 1]
  let calls := folded ++ [.sync (.ofMillis 1000)]
  have answers : metrics.Answers fun text font => (metrics.measure text font ()).1 :=
    fun text font state => rfl
  have news : (start.run folded).hasNews = true := by decide +kernel
  have current : (start.run calls).IsCurrent := by
    rw [run_concat]
    exact isCurrent_sync news _
  have running : (start.run calls).isRunning (.ofMillis 1100) = true := by decide +kernel
  have laid : (start.run calls).mount?.map (fun m =>
      (m.layout.ids, m.layout.boxes.all fun b => b.position == b.position)) =
        some ([0, 1, 4, 5], true) := by decide +kernel
  obtain ⟨m, hm, same⟩ := Option.map_eq_some_iff.mp laid
  obtain ⟨ids, numbers⟩ := Prod.mk.inj same
  obtain ⟨resized, themed⟩ := goesOnIn_resize_setTheme Settings.standard answers () calls hm
    (current m hm) (fun b hb => List.all_eq_true.mp numbers b hb) (.ofMillis 1100)
  refine ⟨start.run calls, running, ?_, resized _, themed _⟩
  rw [layout?, Option.map_map, hm, Option.map_some]
  exact congrArg some ids

end View

end TidyTree
