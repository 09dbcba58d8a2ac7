import TidyTree.Proofs.Plane.Hull
import TidyTree.Proofs.View.Window

set_option autoImplicit false
set_option relaxedAutoImplicit false

/-!
# Where a mounted diagram appears

A diagram is placed by the hull of its boxes: the left side is to appear behind the left margin and
the inset, and the middle between top and bottom in the middle between the margins. The way there is
reckoned at a scale of one, but the scale is clamped. So both appear where they belong if the extent
contains one. If it does not, they are off by what the scale adds, which is nothing only for what
lies at zero in the drawing.
-/

namespace TidyTree

private theorem ScaleExtent.IsOrdered.clamp_eq_iff {e : ScaleExtent Rat} (h : e.IsOrdered)
    (scale : Rat) :
    e.clamp scale = scale ↔ e.contains scale = true := by
  constructor
  · intro same
    rw [← same]
    exact h.contains_clamp scale
  · intro within
    rw [contains, Bool.and_eq_true, decide_eq_true_eq, decide_eq_true_eq] at within
    rw [clamp, if_neg (by simp [Scalar.isNaN]), Scalar.min_eq, Scalar.max_eq,
      max_eq_left within.1, min_eq_left within.2]

namespace Window

def leftSide (w : Window Rat) : Rat := w.margins.left + w.inset

def middle (w : Window Rat) : Rat :=
  w.margins.top + (w.container.height - w.margins.top - w.margins.bottom) / 2

private theorem apply_left (w : Window Rat) (bounds : Rect Rat) (y : Rat) :
    ((w.placement (some bounds)).apply ⟨bounds.left, y⟩).x =
      w.leftSide + (w.extent.clamp 1 - 1) * bounds.left := by
  rw [Transform.apply, placement, leftSide]
  ring

private theorem apply_middle (w : Window Rat) (bounds : Rect Rat) (x : Rat) :
    ((w.placement (some bounds)).apply ⟨x, (bounds.top + bounds.bottom) / 2⟩).y =
      w.middle + (w.extent.clamp 1 - 1) * ((bounds.top + bounds.bottom) / 2) := by
  rw [Transform.apply, placement, middle, Sides.vertical, Rect.bottom, Rect.top]
  ring

end Window

namespace Layout

variable {σ : Type}

private theorem size_of_mem_ofMeasured {s : Sizing Rat} {columnWidth : Rat}
    {visits : Rose (Visit × Rat)}
    {b : NodeBox Rat} (h : b ∈ (ofMeasured s columnWidth visits).boxes) :
    s.minBoxWidth ≤ b.size.width ∧ b.size.height = s.boxHeight := by
  obtain ⟨visit, _, rfl⟩ := List.mem_map.mp h
  refine ⟨?_, rfl⟩
  show s.minBoxWidth ≤ s.boxWidth visit.1.2
  rw [Sizing.boxWidth, Scalar.max_eq]
  exact le_max_right _ _

private theorem isHull_bounds? {s : Sizing Rat} (width : 0 ≤ s.minBoxWidth)
    (height : 0 ≤ s.boxHeight)
    (m : Metrics σ Rat) (columnWidth : Rat) (t : Tree) (state : σ) :
    ∃ hull, (withColumns s m columnWidth t state).1.bounds? = some hull ∧
      hull.IsHull ((withColumns s m columnWidth t state).1.boxes.map (·.bounds)) := by
  obtain ⟨hull, bounds⟩ := (shows_withColumns s m columnWidth t state).exists_bounds
  refine ⟨hull, bounds, Rect.isHull_of_hull? ?_ bounds⟩
  intro r hr
  obtain ⟨b, hb, rfl⟩ := List.mem_map.mp hr
  obtain ⟨wide, high⟩ := size_of_mem_ofMeasured hb
  exact ⟨width.trans wide, height.trans high.ge⟩

end Layout

namespace View

variable {σ : Type} {v : View σ Rat}

/-- The diagram of a root sits in a window: the hull of its boxes, one for each node that is drawn,
has its left side and its middle where they belong, or off by what the scale adds. -/
structure SitsIn (v : View σ Rat) (w : Window Rat) (root : Node) (l : Layout Rat)
    (hull : Rect Rat) : Prop where
  layout : v.layout? = some l
  shows : l.Shows root
  isHull : hull.IsHull (l.boxes.map (·.bounds))
  left : ∀ y, (v.viewport.transform.apply ⟨hull.left, y⟩).x =
    w.leftSide + (w.extent.clamp 1 - 1) * hull.left
  middle : ∀ x, (v.viewport.transform.apply ⟨x, (hull.top + hull.bottom) / 2⟩).y =
    w.middle + (w.extent.clamp 1 - 1) * ((hull.top + hull.bottom) / 2)
  left_iff : ∀ y, (v.viewport.transform.apply ⟨hull.left, y⟩).x = w.leftSide ↔
    w.extent.contains 1 = true ∨ hull.left = 0
  middle_iff : ∀ x, (v.viewport.transform.apply ⟨x, (hull.top + hull.bottom) / 2⟩).y = w.middle ↔
    w.extent.contains 1 = true ∨ hull.top + hull.bottom = 0

private theorem exists_hull_mount (v : View σ Rat) (width : 0 ≤ v.settings.sizing.minBoxWidth)
    (height : 0 ≤ v.settings.sizing.boxHeight) (t : Tree) (now : Duration) :
    ∃ l hull, (v.mount (some t) now).layout? = some l ∧ l.Shows t.root ∧ l.bounds? = some hull ∧
      hull.IsHull (l.boxes.map (·.bounds)) ∧
      (v.mount (some t) now).viewport = v.viewport.clear.place (some hull) := by
  obtain ⟨hull, bounds, isHull⟩ := Layout.isHull_bounds? width height v.metrics
    (v.settings.sizing.columnWidth v.metrics t v.memory).1 t.drained
    (v.settings.sizing.columnWidth v.metrics t v.memory).2
  refine ⟨_, hull, rfl, Layout.shows_withColumns _ _ _ _ _, bounds, isHull, ?_⟩
  rw [← bounds]
  rfl

private theorem sitsIn_mount (ordered : v.viewport.window.extent.IsOrdered)
    (width : 0 ≤ v.settings.sizing.minBoxWidth) (height : 0 ≤ v.settings.sizing.boxHeight)
    (t : Tree) (now : Duration) :
    ∃ l hull, (v.mount (some t) now).SitsIn v.viewport.window t.root l hull := by
  obtain ⟨l, hull, layout, shows, _, isHull, placed⟩ := v.exists_hull_mount width height t now
  have transform : (v.mount (some t) now).viewport.transform =
      v.viewport.window.placement (some hull) := by
    rw [placed]
    rfl
  have left := v.viewport.window.apply_left hull
  have middle := v.viewport.window.apply_middle hull
  have unscaled : v.viewport.window.extent.clamp 1 - 1 = 0 ↔
      v.viewport.window.extent.contains 1 = true := by
    rw [sub_eq_zero]
    exact ordered.clamp_eq_iff 1
  refine ⟨l, hull, layout, shows, isHull, ?_, ?_, ?_, ?_⟩
  · rw [transform]
    exact left
  · rw [transform]
    exact middle
  · intro y
    rw [transform, left y, add_eq_left, mul_eq_zero, unscaled]
  · intro x
    rw [transform, middle x, add_eq_left, mul_eq_zero, unscaled, div_eq_zero_iff,
      or_iff_left (by norm_num : ¬ (2 : Rat) = 0)]

section

variable [PowTwo Rat]

private theorem window_step (v : View σ Rat) (call : Call Rat) :
    (v.step call).viewport.window =
      { v.viewport.window with container := (v.step call).viewport.window.container } := by
  cases mounts : call.mounts with
  | false => exact Viewport.window_moves (Shifts.step v mounts)
  | true =>
    cases call with
    | mount tree? now => cases tree? <;> rfl
    | _ => exact Bool.noConfusion mounts

private theorem window_run (v : View σ Rat) (calls : List (Call Rat)) :
    (v.run calls).viewport.window =
      { v.viewport.window with container := (v.run calls).viewport.window.container } := by
  induction calls generalizing v with
  | nil => rfl
  | cons call calls ih =>
    show ((v.step call).run calls).viewport.window = _
    rw [ih, window_step]
    rfl

/-- A tree that is mounted in a window of any size sits in it with the settings' extent and margins.
Its left side and its middle appear where they belong if the extent contains one. -/
theorem sitsIn_of_run {settings : Settings Rat} (valid : settings.isValid = true)
    (width : 0 ≤ settings.sizing.minBoxWidth) (height : 0 ≤ settings.sizing.boxHeight)
    (metrics : Metrics σ Rat) (memory : σ) (earlier : List (Call Rat))
    (tree : { t : Tree // t.IsReachable }) (now : Duration) :
    ∃ l hull, (((ofSettings settings metrics memory).run earlier).step
        (.mount (some tree) now)).SitsIn
      { settings.window with
        container := ((ofSettings settings metrics memory).run earlier).viewport.window.container }
      tree.1.root l hull := by
  have window := window_run (ofSettings settings metrics memory) earlier
  have hsettings := settings_run (ofSettings settings metrics memory) earlier
  generalize (ofSettings settings metrics memory).run earlier = v at *
  replace hsettings : v.settings = settings := hsettings
  subst hsettings
  have ordered : v.viewport.window.extent.IsOrdered := by
    rw [window]
    exact (Settings.isOrdered_of_isValid valid).1
  have sits := sitsIn_mount ordered width height tree.1 now
  rw [window] at sits
  exact sits

end

theorem sitsIn_of_run_resized :
    ∃ (_ : PowTwo Rat) (settings : Settings Rat) (v : View Unit Rat) (w : Window Rat) (root : Node)
      (l : Layout Rat) (hull : Rect Rat), settings.isValid = true ∧
      (0 ≤ settings.sizing.minBoxWidth ∧ 0 ≤ settings.sizing.boxHeight) ∧
      v.layout?.map (·.ids) = some [0, 1, 2, 3] ∧
      (w.container = ⟨700, 300⟩ ∧ w.extent.contains 1 = true) ∧ v.SitsIn w root l hull := by
  let powTwo : PowTwo Rat := ⟨fun x => 2 ^ x.floor⟩
  let settings : Settings Rat := Settings.standard
  let tree : Tree := .ofRecord { label := "root", visible := [
    { label := "left", visible := [{ label := "a long label" }] },
    { label := "right", hidden := [{ label := "hidden" }] }] }
  let earlier : List (Call Rat) := [.mount (some ⟨tree, .ofRecord _⟩) .zero, .zoom ⟨10, 20⟩ 3,
    .resize ⟨700, 300⟩ (.ofMillis 100), .pan 35 (-7)]
  let v := (ofSettings settings (.fixed 8) ()).run earlier
  have valid : settings.isValid = true := by decide +kernel
  have width : 0 ≤ settings.sizing.minBoxWidth := by decide +kernel
  have height : 0 ≤ settings.sizing.boxHeight := by decide +kernel
  have laid : (v.step (.mount (some ⟨tree, .ofRecord _⟩) .zero)).layout?.map (·.ids) =
      some [0, 1, 2, 3] := by decide +kernel
  have container : v.viewport.window.container = ⟨700, 300⟩ := by decide +kernel
  have contains : settings.window.extent.contains 1 = true := by decide +kernel
  obtain ⟨l, hull, sits⟩ :=
    sitsIn_of_run valid width height (.fixed 8) () earlier ⟨tree, .ofRecord _⟩ .zero
  exact ⟨powTwo, settings, _, _, _, l, hull, valid, ⟨width, height⟩, laid,
    ⟨container, contains⟩, sits⟩

/-- In an extent from two to four neither the left side nor the middle of a diagram appears where it
belongs. -/
theorem not_centred_of_mount :
    ∃ (settings : Settings Rat) (tree : Tree) (v : View Unit Rat) (l : Layout Rat)
      (hull : Rect Rat),
      settings.isValid = true ∧
      (0 ≤ settings.sizing.minBoxWidth ∧ 0 ≤ settings.sizing.boxHeight) ∧
      v = (ofSettings settings (.fixed 8) ()).mount (some tree) .zero ∧
      v.layout? = some l ∧ l.Shows tree.root ∧ hull.IsHull (l.boxes.map (·.bounds)) ∧
      (∀ y, (v.viewport.transform.apply ⟨hull.left, y⟩).x ≠ settings.window.leftSide) ∧
      ∀ x, (v.viewport.transform.apply ⟨x, (hull.top + hull.bottom) / 2⟩).y ≠
        settings.window.middle := by
  let settings : Settings Rat :=
    { Settings.standard with window := { Window.standard with extent := ⟨2, 4⟩ } }
  let tree : Tree := .ofRecord { label := "root", visible := [
    { label := "a", visible := [{ label := "x" }, { label := "y" }, { label := "z" }] },
    { label := "b" }] }
  let start : View Unit Rat := ofSettings settings (.fixed 8) ()
  let v := start.mount (some tree) .zero
  have valid : settings.isValid = true := by decide +kernel
  have width : 0 ≤ settings.sizing.minBoxWidth := by decide +kernel
  have height : 0 ≤ settings.sizing.boxHeight := by decide +kernel
  obtain ⟨l, hull, layout, shows, bounds, isHull, _⟩ := start.exists_hull_mount width height tree .zero
  have lies : v.layout?.bind (·.bounds?) = some ⟨-40, -157, 260, 224⟩ := by decide +kernel
  have transform : v.viewport.transform = ⟨100, 345, 2⟩ := by decide +kernel
  obtain rfl : hull = ⟨-40, -157, 260, 224⟩ := by
    rw [layout, Option.bind_some, bounds] at lies
    exact Option.some.inj lies
  refine ⟨settings, tree, v, l, _, valid, ⟨width, height⟩, rfl, layout, shows, isHull, ?_, ?_⟩
  · intro y
    rw [transform]
    show (-40 : Rat) * 2 + 100 ≠ settings.window.leftSide
    decide +kernel
  · intro x
    rw [transform]
    show ((-157 : Rat) + (-157 + 224)) / 2 * 2 + 345 ≠ settings.window.middle
    decide +kernel

end View

end TidyTree
