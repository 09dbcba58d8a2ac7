import TidyTree.Proofs.Layout.Boxes
import TidyTree.Proofs.Screen.Viewport
import TidyTree.Proofs.View.Run

set_option autoImplicit false
set_option relaxedAutoImplicit false

namespace TidyTree

def Call.mounts {α : Type} : Call α → Bool
  | mount _ _ => true
  | _ => false

def Intent.steers {α : Type} : Intent α → Bool
  | pan _ _ => true
  | zoom _ _ => true
  | _ => false

variable {σ α : Type} [Scalar α]

namespace View

/-- The call asks for another transform, or its event does. -/
def steers [PowTwo α] (v : View σ α) : Call α → Bool
  | .handle event now => (v.handle event now).2.any (·.steers)
  | .setTransform _ => true
  | .pan _ _ => true
  | .zoom _ _ => true
  | .zoomIn => true
  | .zoomOut => true
  | .resetTransform => true
  | _ => false

def Shifts (still : Prop) (v v' : View σ α) : Prop :=
  Relation.ReflTransGen (Viewport.Move still) v.viewport v'.viewport

namespace Shifts

variable {still : Prop} {v v' : View σ α}

private theorem of_eq (same : v'.viewport = v.viewport) : v.Shifts still v' := by
  rw [Shifts, same]

private theorem trans {w : View σ α} (h : v.Shifts still v') (k : v'.Shifts still w) :
    v.Shifts still w :=
  Relation.ReflTransGen.trans h k

private theorem mono {loose : Prop} (h : loose → still) (k : v.Shifts still v') : v.Shifts loose v'
    :=
  Relation.ReflTransGen.mono (fun _ _ => Viewport.Move.mono h) _ _ k

private theorem remount (v : View σ α) (f : Mount α → σ → Mount α × σ) : v.Shifts still
    (v.remount f) := by
  unfold View.remount
  split
  · exact of_eq rfl
  · exact Viewport.Move.resume v.viewport _

private theorem sync (v : View σ α) (now : Duration) : v.Shifts still (v.sync now) := by
  unfold View.sync
  split
  · exact remount v _
  · exact of_eq rfl

private theorem folded (v : View σ α) (how : Fold) (id : NodeId) : v.Shifts still (v.folded how id)
    := by
  rw [folded_eq]
  exact of_eq rfl

private theorem toggled (v : View σ α) (id : NodeId) (now : Duration) :
    v.Shifts still (v.toggled id now) := by
  rcases v.toggled_cases id now with same | ⟨_, same⟩
  · rw [same]
    exact of_eq rfl
  · rw [same]
    exact (folded v .toggle id).trans (sync _ now)

private theorem openTooltip (v : View σ α) (id : NodeId) (anchor : Point α) :
    v.Shifts still (v.openTooltip id anchor) := by
  unfold View.openTooltip
  split <;> exact of_eq rfl

private theorem resize (v : View σ α) (size : Size α) (now : Duration) :
    v.Shifts still (v.resize size now) := by
  let container := size.orElse v.settings.window.container
  have resized : v.Shifts still { v with viewport := v.viewport.resize container } :=
    .single (.resize v.viewport container)
  exact resized.trans (remount _ _)

private theorem setTheme (v : View σ α) (theme : Theme) (now : Duration) :
    v.Shifts still (v.setTheme theme now) := by
  have themed : v.Shifts still { v with theme } := of_eq rfl
  exact themed.trans (remount _ _)

private theorem obey (v : View σ α) (now : Duration) {intent : Intent α}
    (calm : still → intent.steers = false) : v.Shifts still (v.obey now intent) := by
  cases intent with
  | toggle id => exact toggled v id now
  | openTooltip id position => exact openTooltip v id position
  | closeTooltip => exact of_eq rfl
  | pan dx dy => exact .single (.pan v.viewport dx dy fun holds => Bool.noConfusion (calm holds))
  | zoom anchor factor =>
    exact Viewport.Move.zoom v.viewport anchor factor fun holds => Bool.noConfusion (calm holds)
  | resize size => exact resize v size now

private theorem obeyAll (v : View σ α) (now : Duration) (intents : List (Intent α))
    (calm : still → intents.any (·.steers) = false) :
    v.Shifts still (intents.foldl (fun v intent => v.obey now intent) v) := by
  induction intents generalizing v with
  | nil => exact of_eq rfl
  | cons intent intents ih =>
    have first : v.Shifts still (v.obey now intent) :=
      obey v now fun holds => (Bool.or_eq_false_iff.mp (calm holds)).1
    exact first.trans (ih _ fun holds => (Bool.or_eq_false_iff.mp (calm holds)).2)

variable [PowTwo α]

private theorem handle (v : View σ α) (event : Event α) (now : Duration) :
    v.Shifts (v.steers (.handle event now) = false) (v.handle event now).1 := by
  rw [steers]
  unfold View.handle
  split
  · exact of_eq rfl
  · next attached =>
    have pointed : v.Shifts ((v.pointer.handle (v.regions now) event).2.any (·.steers) = false)
        { v with pointer := (v.pointer.handle (v.regions now) event).1 } := of_eq rfl
    exact pointed.trans (obeyAll _ now _ id)

theorem step (v : View σ α) {call : Call α} (stays : call.mounts = false) :
    v.Shifts (v.steers call = false) (v.step call) := by
  have steering : ¬ true = false := Bool.noConfusion
  cases call with
  | mount tree? now => exact absurd stays (by simp [Call.mounts])
  | fold how id => exact folded v how id
  | drain => exact of_eq rfl
  | sync now => exact sync v now
  | toggle id now => exact toggled v id now
  | handle event now => exact handle v event now
  | tick now => exact of_eq rfl
  | resize size now => exact resize v size now
  | setTheme theme now => exact setTheme v theme now
  | openTooltip id anchor => exact openTooltip v id anchor
  | closeTooltip => exact of_eq rfl
  | setTransform t => exact .single (.set v.viewport t steering)
  | pan dx dy => exact .single (.pan v.viewport dx dy steering)
  | zoom anchor factor => exact Viewport.Move.zoom v.viewport anchor factor steering
  | zoomIn => exact .single (.scaleTo v.viewport _ _ steering)
  | zoomOut => exact .single (.scaleTo v.viewport _ _ steering)
  | resetTransform => exact .single (.reset v.viewport steering)
  | detach => exact of_eq rfl

private theorem run (v : View σ α) {calls : List (Call α)}
    (stays : ∀ call ∈ calls, call.mounts = false) :
    v.Shifts False (v.run calls) := by
  induction calls generalizing v with
  | nil => exact of_eq rfl
  | cons call calls ih =>
    have first := step v (stays call List.mem_cons_self)
    have rest := ih (v.step call) fun call member => stays call (List.mem_cons_of_mem _ member)
    exact (first.mono False.elim).trans rest

end Shifts

/-- The window keeps the extent of the settings, and a mounted diagram is anchored in it. -/
structure IsFramed (v : View σ α) : Prop where
  extent : v.viewport.window.extent = v.settings.window.extent
  anchored : v.mount?.isSome → ∃ start, v.viewport.IsAnchored v.settings.window.extent start

variable [PowTwo α]

private theorem mounted_of_step {v : View σ α} {call : Call α} (stays : call.mounts = false)
    (mounted : (v.step call).mount?.isSome) : v.mount?.isSome := by
  rcases v.step_cases call .zero with ⟨tree?, now, rfl⟩ | rfl | carries
  · exact absurd stays (by simp [Call.mounts])
  · rwa [step, drainTree, Option.isSome_map] at mounted
  · obtain ⟨m', hm'⟩ := Option.isSome_iff_exists.mp mounted
    obtain ⟨m, hm, _⟩ := carries.mount m' hm'
    exact Option.isSome_iff_exists.mpr ⟨m, hm⟩

/-- A call that asks for no transform leaves that of the view alone, whose scale is in the extent of
the settings. A reset goes back to the transform of an earlier view. -/
structure HoldsStill (start v : View σ α) : Prop where
  keeps : ∀ call : Call α, call.mounts = false → v.steers call = false →
    (v.step call).viewport.transform = v.viewport.transform
  contains : v.settings.window.extent.contains v.viewport.transform.scale = true
  resets : (v.step .resetTransform).viewport.transform = start.viewport.transform

private theorem holdsStill_of_anchored {start v : View σ α}
    (anchored : v.viewport.IsAnchored v.settings.window.extent start.viewport.transform) :
    start.HoldsStill v where
  keeps := by
    intro call stays calm
    obtain ⟨t, placed, _⟩ := anchored.current
    have same := Viewport.transform?_moves (Shifts.step v stays) calm placed
    rw [Viewport.transform, Viewport.transform, same, placed]
  contains := anchored.contains_scale
  resets := by
    show v.viewport.reset.transform = start.viewport.transform
    rw [anchored.reset_eq]
    rfl

variable [Scalar.LawfulOrder α]

omit [PowTwo α] in
private theorem isAnchored_mount (v : View σ α) (ordered : v.viewport.window.extent.IsOrdered)
    (t : Tree) (now : Duration) :
    (v.mount (some t) now).viewport.IsAnchored v.viewport.window.extent
      (v.mount (some t) now).viewport.transform := by
  obtain ⟨bounds, hull⟩ := (Layout.shows_withColumns v.settings.sizing v.metrics
    (v.settings.sizing.columnWidth v.metrics t v.memory).1 t.drained
    (v.settings.sizing.columnWidth v.metrics t v.memory).2).exists_bounds
  have placed : (v.mount (some t) now).viewport = v.viewport.clear.place (some bounds) := by
    rw [← hull]
    rfl
  rw [placed]
  exact .place v.viewport.clear ordered bounds

private theorem IsFramed.step {v : View σ α} (h : v.IsFramed)
    (ordered : v.settings.window.extent.IsOrdered) (call : Call α) : (v.step call).IsFramed := by
  have kept := (v.settings_step call).1
  cases mounts : call.mounts with
  | false =>
    have shifts := Shifts.step v mounts
    refine ⟨?_, fun mounted => ?_⟩
    · rw [kept, ← h.extent]
      exact Viewport.extent_moves shifts
    · obtain ⟨start, anchored⟩ := h.anchored (mounted_of_step mounts mounted)
      exact ⟨start, kept ▸ anchored.moves ordered shifts⟩
  | true =>
    cases call with
    | mount tree? now =>
      cases tree? with
      | none => exact ⟨h.extent, fun mounted => absurd mounted Bool.false_ne_true⟩
      | some t =>
        have anchored := v.isAnchored_mount (h.extent ▸ ordered) t.1 now
        rw [h.extent] at anchored
        exact ⟨h.extent, fun _ => ⟨_, anchored⟩⟩
    | _ => exact Bool.noConfusion mounts

/-- Every diagram that is mounted is anchored, if the settings are without problems. -/
theorem IsFramed.of_run {settings : Settings α} (valid : settings.isValid = true)
    (metrics : Metrics σ α) (memory : σ) (calls : List (Call α)) :
    ((ofSettings settings metrics memory).run calls).IsFramed := by
  have ordered := (Settings.isOrdered_of_isValid valid).1
  have framed : ∀ v : View σ α, v.IsFramed → v.settings.window.extent.IsOrdered →
      (v.run calls).IsFramed := by
    induction calls with
    | nil => exact fun v h _ => h
    | cons call calls ih =>
      intro v h ordered
      have kept := (v.settings_step call).1
      exact ih (v.step call) (h.step ordered call) (kept ▸ ordered)
  exact framed _ ⟨rfl, fun mounted => absurd mounted Bool.false_ne_true⟩ ordered

/-- When a tree has been mounted, only what pans or zooms moves the diagram, whatever is called
until another tree is mounted. The scale stays in the extent, and a reset always goes back to the
first transform. The settings are without problems; the scalars need not be exact. -/
theorem holdsStill_of_run {settings : Settings α} (valid : settings.isValid = true)
    (metrics : Metrics σ α) (memory : σ) (earlier : List (Call α))
    (tree : { t : Tree // t.IsReachable }) (now : Duration) {calls : List (Call α)}
    (stays : ∀ call ∈ calls, call.mounts = false) :
    HoldsStill (((ofSettings settings metrics memory).run earlier).step (.mount (some tree) now))
      ((((ofSettings settings metrics memory).run earlier).step
        (.mount (some tree) now)).run calls) := by
  have ordered := (Settings.isOrdered_of_isValid valid).1
  have framed := IsFramed.of_run valid metrics memory earlier
  have hsettings := settings_run (ofSettings settings metrics memory) earlier
  generalize (ofSettings settings metrics memory).run earlier = v at *
  replace hsettings : v.settings = settings := hsettings
  subst hsettings
  have shown := v.isAnchored_mount (framed.extent ▸ ordered) tree.1 now
  rw [framed.extent] at shown
  have kept : ((v.step (.mount (some tree) now)).run calls).settings = v.settings :=
    settings_run _ calls
  refine holdsStill_of_anchored ?_
  rw [kept]
  exact shown.moves ordered (Shifts.run _ stays)

theorem holdsStill_of_run_unbounded :
    ∃ shown v : View Unit Float, shown.layout?.map (·.ids) = some [0, 1, 2] ∧
      (v.viewport.transform.scale == 4) = true ∧ shown.HoldsStill v := by
  let tree : Tree := .ofRecord { label := "root", visible := [{ label := "left" },
    { label := "right" }] }
  let start : View Unit Float := ofSettings Settings.standard (.fixed 8) ()
  let earlier : List (Call Float) := [.resize ⟨800, 500⟩ .zero, .setTransform ⟨0, 0, 1 / 0⟩]
  let shown := (start.run earlier).step (.mount (some ⟨tree, .ofRecord _⟩) .zero)
  let calls : List (Call Float) := [.zoom ⟨10, 10⟩ (1 / 0), .toggle 0 (.ofMillis 100),
    .handle (.resize ⟨700, 400⟩) (.ofMillis 200), .setTransform ⟨5, 5, 0 / 0⟩,
    .resize ⟨0, 300⟩ (.ofMillis 300), .pan (0 / 0) 7, .zoomOut, .zoom ⟨10, 10⟩ 1e300, .detach,
    .zoomIn, .tick (.ofMillis 400)]
  have laid : shown.layout?.map (·.ids) = some [0, 1, 2] := by decide +kernel
  have scale : ((shown.run calls).viewport.transform.scale == 4) = true := by decide +kernel
  have stays : ∀ call ∈ calls, call.mounts = false := by
    have all : calls.all (!·.mounts) = true := rfl
    exact fun call member => Bool.not_eq_true' _ |>.mp (List.all_eq_true.mp all call member)
  exact ⟨shown, shown.run calls, laid, scale,
    holdsStill_of_run (by decide +kernel) (.fixed 8) () earlier ⟨tree, .ofRecord _⟩ .zero stays⟩

end View

end TidyTree
