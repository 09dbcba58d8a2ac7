import TidyTree.Proofs.Layout.Reach
import TidyTree.Proofs.View.Pointing
import TidyTree.Proofs.View.Stillness
import TidyTree.Proofs.View.Window

set_option autoImplicit false
set_option relaxedAutoImplicit false

namespace TidyTree

/-- At a point of the drawing the box of one node can be hit, and nothing else. -/
structure Regions.ShowsOnly {α : Type} [Scalar α] (r : Regions α) (id : NodeId) (world : Point α) :
    Prop where
  own : ∃ box ∈ r.boxes, box.1 = id ∧ box.2.contains world = true
  others : ∀ box ∈ r.boxes, box.1 ≠ id → box.2.contains world = false
  discs : ∀ disc ∈ r.discs, disc.2.contains world = false

private theorem Regions.ShowsOnly.hitDrawing_eq {α : Type} [Scalar α] {r : Regions α} {id : NodeId}
    {world : Point α} (h : r.ShowsOnly id world) : r.hitDrawing world = .node id := by
  have uncovered : r.discAt? world = none := by
    rw [discAt?, Option.map_eq_none_iff, List.find?_eq_none]
    intro disc hdisc
    rw [h.discs disc (List.mem_reverse.mp hdisc)]
    exact Bool.false_ne_true
  have found : r.boxAt? world = some id := by
    obtain ⟨box, hbox, _, inside⟩ := h.own
    have covered : (r.boxes.reverse.find? fun b => b.2.contains world).isSome := by
      rw [List.find?_isSome]
      exact ⟨box, List.mem_reverse.mpr hbox, inside⟩
    obtain ⟨top, htop⟩ := Option.isSome_iff_exists.mp covered
    have same : top.1 = id := by
      by_contra other
      have outside := h.others top (List.mem_reverse.mp (List.mem_of_find?_eq_some htop)) other
      exact absurd (List.find?_some htop) (by simp [outside])
    rw [boxAt?, htop, Option.map_some, same]
  rw [hitDrawing, uncovered, found]

private theorem Spot.eq_of_beq {s t : Spot Rat} (h : (s == t) = true) : s = t := by
  obtain ⟨⟨x, y⟩, opacity⟩ := s
  obtain ⟨⟨x', y'⟩, opacity'⟩ := t
  rw [Spot.beq_iff, Point.beq_iff, beq_iff_eq, beq_iff_eq, beq_iff_eq] at h
  obtain ⟨⟨rfl, rfl⟩, rfl⟩ := h
  rfl

namespace Scene.Draws

variable {scene : Scene Rat} {l : Layout Rat}

private theorem nodes_eq (h : scene.Draws l) : scene.nodes = l.boxes.map NodeBox.shape := by
  rw [← h.nodes, List.map_map]
  refine ((List.map_congr_left fun n hn => ?_).trans (List.map_id scene.nodes)).symm
  obtain ⟨stays, there⟩ := h.spots n hn
  obtain ⟨box, spot, isLeaving⟩ := n
  have self : (box.position == box.position) = true :=
    (Point.beq_iff _ _).mpr ⟨beq_self_eq_true _, beq_self_eq_true _⟩
  obtain rfl : isLeaving = false := stays
  obtain rfl : spot = .shown box.position := Spot.eq_of_beq (there self)
  rfl

private theorem present_eq (h : scene.Draws l) : scene.present = l.boxes.map NodeBox.shape := by
  rw [Scene.present, h.nodes_eq, List.filter_eq_self]
  intro n hn
  obtain ⟨b, _, rfl⟩ := List.mem_map.mp hn
  rfl

private theorem showsOnly (h : scene.Draws l) (legible : l.IsLegible scene.labelPadding)
    {b : NodeBox Rat}
    (hb : b ∈ l.boxes) : scene.regions.ShowsOnly b.id b.position := by
  have boxes : scene.regions.boxes = l.boxes.map fun b => (b.id, b.bounds) := by
    rw [regions, h.present_eq, List.map_map]
    rfl
  constructor
  case own =>
    rw [boxes]
    exact ⟨_, List.mem_map_of_mem hb, rfl, legible.own b hb⟩
  case others =>
    rw [boxes]
    intro box hbox other
    obtain ⟨a, ha, rfl⟩ := List.mem_map.mp hbox
    exact legible.others a ha b hb other
  case discs =>
    intro disc hdisc
    rw [regions, h.present_eq] at hdisc
    obtain ⟨n, hn, hdisc⟩ := List.mem_filterMap.mp hdisc
    obtain ⟨a, ha, rfl⟩ := List.mem_map.mp hn
    obtain ⟨d, hd, rfl⟩ := Option.map_eq_some_iff.mp hdisc
    exact legible.indicators a ha b hb d hd

end Scene.Draws

variable {σ : Type}

private theorem Node.AgreesOff.widest_eq {P : NodeId → Prop} {n m : Node} (h : n.AgreesOff P m)
    (widthOf : String → Rat) : n.widest widthOf = m.widest widthOf := by
  have labels := congrArg (List.map fun item : Item => widthOf item.label) h.map_item_preorder
  rw [List.map_map, List.map_map] at labels
  exact congrArg (·.foldl Scalar.max 0) labels

namespace Mount

variable {m : Mount Rat} {settings : Settings Rat} {metrics : Metrics σ Rat}
  {f : String → Font Rat → Except (MeasureError Rat) Rat}

private def IsMeasured (m : Mount Rat) (settings : Settings Rat)
    (f : String → Font Rat → Except (MeasureError Rat) Rat) : Prop :=
  m.columnWidth = settings.sizing.columnWidthOf (m.tree.root.widest (settings.sizing.widthBy f))

namespace IsMeasured

private theorem congr {m' : Mount Rat} (h : m.IsMeasured settings f)
    (columnWidth : m'.columnWidth = m.columnWidth) (root : m'.tree.root = m.tree.root) :
    m'.IsMeasured settings f := by
  rw [IsMeasured, columnWidth, root]
  exact h

private theorem step (h : m.IsMeasured settings f) {now : Duration} {prompt : Prop} {m' : Mount Rat}
    (stepped : Mount.Step settings metrics now prompt m m') : m'.IsMeasured settings f := by
  cases stepped with
  | relayout state _ => exact h.congr rfl rfl
  | sync state _ => exact h.congr rfl rfl
  | fold how id =>
    have same := (m.tree.agreesOff_folded how id).widest_eq (settings.sizing.widthBy f)
    rw [IsMeasured] at h ⊢
    rw [← same]
    exact h
  | expire => exact h.congr rfl rfl
  | advance => exact h.congr rfl rfl

private theorem of_run [PowTwo Rat] (settings : Settings Rat) (answers : metrics.Answers f)
    (memory : σ) (calls : List (Call Rat)) :
    ∀ m ∈ ((View.ofSettings settings metrics memory).run calls).mount?,
      m.IsMeasured settings f :=
  View.mount_of_run calls (fun t _ _ state => Sizing.columnWidth_eq answers settings.sizing t state)
    (fun _ _ h => h.congr rfl rfl) (fun _ _ _ h stepped => h.step stepped) memory

end IsMeasured

private theorem isLegible_of_run [PowTwo Rat] (standard : settings.sizing = .standard)
    (answers : metrics.Answers f) (memory : σ) (calls : List (Call Rat)) :
    ∀ m ∈ ((View.ofSettings settings metrics memory).run calls).mount?,
      m.layout.IsLegible settings.sizing.labelPadding := by
  intro m hm
  have staged := IsStaged.of_run settings metrics memory calls m hm
  have measured := IsMeasured.of_run settings answers memory calls m hm
  -- The layout was made when the tree was folded in some way, with columns for all its labels.
  obtain ⟨before, state, layout, agree⟩ := IsLaidOut.of_run settings metrics memory calls m hm
  have numbered := agree.symm.isNumbered staged.numbered
  rw [IsMeasured, ← agree.widest_eq] at measured
  rw [layout, Layout.withColumns_eq answers, measured, standard]
  exact Layout.isLegible_standard numbered f

end Mount

namespace View

variable {α : Type} [Scalar α] [PowTwo α] {v : View σ α}

/-- A press and a release of the primary button at a point of the screen ask for one node to be
folded over, and nothing else can be hit there. -/
structure IsClickable (v : View σ α) (id : NodeId) (screen : Point α) (now : Duration) : Prop where
  alone : (v.regions now).ShowsOnly id (v.viewport.transform.invert screen)
  press : (v.handle (.down .primary screen) now).2 = []
  release : ((v.handle (.down .primary screen) now).1.handle (.up .primary screen) now).2 =
    [.toggle id]

omit [PowTwo α] in
private theorem regions_of_closed (closed : v.tooltip? = none) (now : Duration) :
    (v.regions now).transform = v.viewport.transform ∧ (v.regions now).tooltip? = none := by
  unfold regions scene?
  cases v.mount? with
  | none => exact ⟨rfl, rfl⟩
  | some m => exact ⟨rfl, by simp [Scene.regions, sceneOf, closed]⟩

private theorem handle_snd (attached : v.isDetached = false) (event : Event α) (now : Duration) :
    (v.handle event now).2 = (v.pointer.handle (v.regions now) event).2 := by
  rw [handle, attached, if_neg Bool.false_ne_true]

private theorem handle_down (attached : v.isDetached = false) (position : Point α) (now : Duration)
    :
    (v.handle (.down .primary position) now).1 = { v with pointer :=
      (v.pointer.handle (v.regions now) (.down .primary position)).1 } := by
  rw [handle, attached, if_neg Bool.false_ne_true]
  rfl

private theorem isClickable_of_showsOnly [PowTwo Rat] {v : View σ Rat}
    (attached : v.isDetached = false)
    (closed : v.tooltip? = none) (near : 0 ≤ v.pointer.clickDistance)
    (disarmed : v.pointer.listener = .disarmed) {id : NodeId} {screen : Point Rat} {now : Duration}
    (alone : (v.regions now).ShowsOnly id (v.viewport.transform.invert screen)) :
    v.IsClickable id screen now := by
  obtain ⟨transform, tooltip⟩ := regions_of_closed closed now
  have hit : (v.regions now).hit screen = .node id := by
    rw [Regions.hit, tooltip, Option.bind_none, transform]
    exact alone.hitDrawing_eq
  refine ⟨alone, handle_snd attached _ now, ?_⟩
  rw [handle_down attached]
  refine (handle_snd ?_ _ now).trans (Pointer.handle_up ?_ ?_ ?_ _)
  · exact attached
  · exact near
  · show v.pointer.listener.settle = .disarmed
    rw [disarmed]
    rfl
  · show some (Press.mk screen screen ((v.regions now).hit screen) false) = _
    rw [hit]

end View

private theorem Settings.clickDistance_nonneg {s : Settings Rat} (h : s.isValid = true) :
    0 ≤ s.clickDistance := by
  simp only [isValid, problems, List.isEmpty_iff, List.append_eq_nil_iff, hasNoClickDistance,
    ite_eq_right_iff, List.cons_ne_nil, imp_false, Bool.or_eq_true, decide_eq_true_eq, not_or,
    not_lt] at h
  exact h.2.2

namespace View

variable {metrics : Metrics σ Rat} {f : String → Font Rat → Except (MeasureError Rat) Rat}

private theorem IsFramed.scale_pos {v : View σ Rat} (h : v.IsFramed)
    (valid : v.settings.isValid = true)
    (mounted : v.mount?.isSome) : 0 < v.viewport.transform.scale := by
  obtain ⟨start, anchored⟩ := h.anchored mounted
  have within := anchored.contains_scale
  rw [ScaleExtent.contains, Bool.and_eq_true] at within
  exact lt_of_lt_of_le (Settings.isOrdered_of_isValid valid).2 (of_decide_eq_true within.1)

/-- When a tick leaves nothing moving, every node of the layout can be clicked at the place where it
appears, wherever the diagram was panned and zoomed to. The view is attached, no tooltip is open and
no click outside of one is listened for; the settings are without problems and have the standard
lengths; and the metrics answers like a function of text and font. -/
theorem isClickable_of_still [PowTwo Rat] {settings : Settings Rat}
    (valid : settings.isValid = true) (standard : settings.sizing = .standard)
    (answers : metrics.Answers f) (memory : σ) (calls : List (Call Rat)) {now : Duration}
    {v : View σ Rat} (reached : v = ((ofSettings settings metrics memory).run calls).tick now)
    (attached : v.isDetached = false) (still : v.isRunning now = false)
    (closed : v.tooltip? = none) (unarmed : v.pointer.isArmed = false) :
    ∀ l ∈ v.layout?, ∀ b ∈ l.boxes,
      v.IsClickable b.id (v.viewport.transform.apply b.position) now := by
  -- The view is reached by a run that ends with the tick.
  have run : v = (ofSettings settings metrics memory).run (calls ++ [.tick now]) := by
    rw [reached, run_concat]
    rfl
  intro l hl b hb
  obtain ⟨m', hm', rfl⟩ := Option.map_eq_some_iff.mp hl
  obtain ⟨m, hm, _⟩ := Option.map_eq_some_iff.mp (reached ▸ hm')
  have staged := Mount.IsStaged.of_run settings metrics memory calls m hm
  have same : v.settings = settings := by
    rw [run]
    exact settings_run _ _
  obtain ⟨shown, mounted, layout, draws⟩ : ∃ shown, v.mount? = some shown ∧
      shown.layout = m.layout ∧ (v.sceneOf shown now).Draws m.layout := by
    subst reached
    exact exists_draws_of_still hm staged (Nat.le_refl now.nanos) attached still
  obtain rfl : shown = m' := Option.some.inj (mounted.symm.trans hm')
  have legible := Mount.isLegible_of_run standard answers memory _ shown (run ▸ hm')
  have settled : v.pointer.IsSettled settings.clickDistance :=
    run ▸ (recounts_of_run settings metrics memory _).settled
  have framed : v.IsFramed := run ▸ IsFramed.of_run valid metrics memory _
  have scaled := framed.scale_pos (same ▸ valid) (Option.isSome_iff_exists.mpr ⟨shown, hm'⟩)
  refine isClickable_of_showsOnly attached closed ?_ (settled.listener_eq unarmed) ?_
  · rw [settled.distance]
    exact Settings.clickDistance_nonneg valid
  · rw [Transform.invert_apply scaled.ne']
    have alone := draws.showsOnly (by rw [← layout, sceneOf, same]; exact legible) (layout ▸ hb)
    have regions : v.regions now = (v.sceneOf shown now).regions := by
      rw [View.regions, scene?, hm', Option.map_some]
    rw [regions]
    exact alone

theorem isClickable_of_still_zoomed :
    ∃ (_ : PowTwo Rat) (v : View Unit Rat), v.layout?.map (·.ids) = some [0, 1, 2, 3, 4] ∧
      (v.viewport.transform.scale = 3 / 2 ∧ (v.regions (.ofMillis 2000)).discs.length = 3) ∧
        ∀ l ∈ v.layout?, ∀ b ∈ l.boxes,
          v.IsClickable b.id (v.viewport.transform.apply b.position) (.ofMillis 2000) := by
  let powTwo : PowTwo Rat := ⟨fun x => 2 ^ x.floor⟩
  let tree : Tree := .ofRecord { label := "root", comment := some "the root", visible := [
    { label := "left", visible := [{ label := "a long label", comment := some "wide" },
      { label := "lower" }] },
    { label := "", comment := some "no label", hidden := [{ label := "hidden" }] }] }
  let metrics : Metrics Unit Rat := .fixed 8
  let start : View Unit Rat := ofSettings Settings.standard metrics ()
  let calls : List (Call Rat) := [.mount (some ⟨tree, .ofRecord _⟩) .zero, .pan 35 (-7),
    .toggle 1 (.ofMillis 100), .zoom ⟨10, 20⟩ (3 / 2), .toggle 1 (.ofMillis 900)]
  have answers : metrics.Answers fun text _ => .ok ((text.length : Rat) * 8) := fun _ _ _ => rfl
  let v := (start.run calls).tick (.ofMillis 2000)
  have laid : v.layout?.map (·.ids) = some [0, 1, 2, 3, 4] := by decide +kernel
  have drawn : v.viewport.transform.scale = 3 / 2 ∧
      (v.regions (.ofMillis 2000)).discs.length = 3 := by decide +kernel
  have valid : (Settings.standard : Settings Rat).isValid = true := by decide +kernel
  have reached : v = (start.run calls).tick (.ofMillis 2000) := rfl
  have attached : v.isDetached = false := by decide +kernel
  have still : v.isRunning (.ofMillis 2000) = false := by decide +kernel
  have closed : v.tooltip? = none := by decide +kernel
  have unarmed : v.pointer.isArmed = false := by decide +kernel
  exact ⟨powTwo, v, laid, drawn,
    isClickable_of_still valid rfl answers () calls reached attached still closed unarmed⟩

end View

end TidyTree
