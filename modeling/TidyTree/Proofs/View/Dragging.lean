import TidyTree.Proofs.View.Presses
import TidyTree.Proofs.View.Window

set_option autoImplicit false
set_option relaxedAutoImplicit false

/-!
# The point under the pointer

While the button is down the diagram follows the pointer: each move pans by the way that the pointer
went, and each turn of the wheel at the pointer scales the diagram around it. So the point of the
drawing that was under the pointer when the button went down stays there, however often the scale is
clamped and whatever is laid out anew in between. The arithmetic is exact; the factors of the wheel
are any numbers.
-/

namespace TidyTree

/-- The call neither steers the diagram nor has to do with the press that is held. -/
def Call.sparesPress {α : Type} : Call α → Bool
  | fold _ _ => true
  | drain => true
  | sync _ => true
  | toggle _ _ => true
  | tick _ => true
  | resize _ _ => true
  | setTheme _ _ => true
  | openTooltip _ _ => true
  | closeTooltip => true
  | handle (.resize _) _ => true
  | _ => false

/-- The calls take the pointer from one point to another while a press is held: the pointer moves,
the wheel turns under the pointer, and in between come calls that spare the press. -/
inductive Call.Drags {α : Type} : Point α → List (Call α) → Point α → Prop
  | stop (p : Point α) : Drags p [] p
  | move {p q r : Point α} {calls : List (Call α)} (now : Duration) (rest : Drags q calls r) :
      Drags p (.handle (.move q) now :: calls) r
  | wheel {p r : Point α} {calls : List (Call α)} (delta : α) (unit : WheelUnit) (ctrl : Bool)
      (now : Duration) (rest : Drags p calls r) :
      Drags p (.handle (.wheel p delta unit ctrl) now :: calls) r
  | aside {p r : Point α} {call : Call α} {calls : List (Call α)} (spares : call.sparesPress = true)
      (rest : Drags p calls r) : Drags p (call :: calls) r

namespace Viewport

variable {v : Viewport Rat}

private theorem invert_pan (v : Viewport Rat) (p q : Point Rat) :
    (v.pan (q.x - p.x) (q.y - p.y)).transform.invert q = v.transform.invert p := by
  have panned : (v.pan (q.x - p.x) (q.y - p.y)).transform =
      { v.transform with
        shiftX := v.transform.shiftX + (q.x - p.x)
        shiftY := v.transform.shiftY + (q.y - p.y) } := rfl
  have alongX : q.x - (v.transform.shiftX + (q.x - p.x)) = p.x - v.transform.shiftX := by ring
  have alongY : q.y - (v.transform.shiftY + (q.y - p.y)) = p.y - v.transform.shiftY := by ring
  rw [panned, Transform.invert, Transform.invert, alongX, alongY]

private theorem invert_scaleTo (v : Viewport Rat) (anchor : Point Rat) {scale : Rat}
    (scaled : v.window.extent.clamp scale ≠ 0) :
    (v.scaleTo anchor scale).transform.invert anchor = v.transform.invert anchor := by
  have here : (v.scaleTo anchor scale).transform =
      ⟨anchor.x - (v.transform.invert anchor).x * v.window.extent.clamp scale,
        anchor.y - (v.transform.invert anchor).y * v.window.extent.clamp scale,
        v.window.extent.clamp scale⟩ := rfl
  rw [here, Transform.invert, sub_sub_cancel, sub_sub_cancel, mul_div_cancel_right₀ _ scaled,
    mul_div_cancel_right₀ _ scaled]

private theorem invert_zoom (v : Viewport Rat) (anchor : Point Rat) (factor : Rat)
    (scaled : ∀ scale, v.window.extent.clamp scale ≠ 0) :
    (v.zoom anchor factor).transform.invert anchor = v.transform.invert anchor := by
  unfold zoom
  split
  · exact v.invert_scaleTo anchor (scaled _)
  · rfl

end Viewport

variable {σ : Type}

namespace View

/-- A press is held that began outside of the tooltip, the pointer is at a point, and under it lies a
point of the drawing. The diagram is anchored in an extent. -/
structure Grips (v : View σ Rat) (extent : ScaleExtent Rat) (world last : Point Rat) : Prop where
  attached : v.isDetached = false
  held : ∃ press, v.pointer.press? = some press ∧ press.last = last ∧
    press.target.isTooltip = false
  anchored : ∃ start, v.viewport.IsAnchored extent start
  under : v.viewport.transform.invert last = world

variable {v : View σ Rat} {extent : ScaleExtent Rat} {world last : Point Rat}

private theorem clamp_ne_zero (ordered : extent.IsOrdered) (positive : 0 < extent.min)
    (scale : Rat) :
    extent.clamp scale ≠ 0 := by
  have within := ordered.contains_clamp scale
  rw [ScaleExtent.contains, Bool.and_eq_true] at within
  have low : extent.min ≤ extent.clamp scale := of_decide_eq_true within.1
  exact (lt_of_lt_of_le positive low).ne'

section

variable [PowTwo Rat]

private theorem sparesPress_stays {call : Call Rat} (spares : call.sparesPress = true) :
    call.mounts = false ∧ call ≠ .detach ∧ v.steers call = false := by
  cases call with
  | handle event now =>
    cases event with
    | resize size =>
      refine ⟨rfl, fun same => by simp at same, ?_⟩
      rw [steers]
      unfold handle
      split <;> rfl
    | _ => exact absurd spares Bool.false_ne_true
  | fold _ _ | drain | sync _ | toggle _ _ | tick _ | resize _ _ | setTheme _ _ | openTooltip _ _
  | closeTooltip => exact ⟨rfl, fun same => by simp at same, rfl⟩
  | _ => exact absurd spares Bool.false_ne_true

private theorem press?_of_sparesPress (attached : v.isDetached = false) {call : Call Rat}
    (spares : call.sparesPress = true) : (v.step call).pointer.press? = v.pointer.press? := by
  by_cases eventful : ∃ event now, call = .handle event now
  · obtain ⟨event, now, rfl⟩ := eventful
    cases event with
    | resize size =>
      rw [step, handle_eq attached, obeying, press?_obeyAll]
      rfl
    | _ => exact absurd spares Bool.false_ne_true
  · have quiet : ∀ event now, call ≠ .handle event now := fun event now same =>
      eventful ⟨event, now, same⟩
    exact v.press?_step quiet (sparesPress_stays (v := v) spares).2.1

end

namespace Grips

variable [PowTwo Rat]

private theorem aside (h : v.Grips extent world last) (ordered : extent.IsOrdered) {call : Call Rat}
    (spares : call.sparesPress = true) : (v.step call).Grips extent world last := by
  obtain ⟨stays, attached, calm⟩ := sparesPress_stays (v := v) spares
  obtain ⟨start, anchored⟩ := h.anchored
  obtain ⟨t, placed, _⟩ := anchored.current
  have shifts := Shifts.step v stays
  have same := Viewport.transform?_moves shifts calm placed
  constructor
  case attached => exact isDetached_step h.attached attached
  case held => rw [press?_of_sparesPress h.attached spares]; exact h.held
  case anchored => exact ⟨start, anchored.moves ordered shifts⟩
  case under =>
    rw [Viewport.transform, same, ← placed]
    exact h.under

private theorem move (h : v.Grips extent world last) (ordered : extent.IsOrdered) (q : Point Rat)
    (now : Duration) : (v.step (.handle (.move q) now)).Grips extent world q := by
  obtain ⟨press, held, rfl, free⟩ := h.held
  obtain ⟨start, anchored⟩ := h.anchored
  let call : Call Rat := .handle (.move q) now
  have shifts : v.Shifts (v.steers call = false) (v.step call) := Shifts.step v rfl
  have reacted : v.pointer.moved q =
      ({ v.pointer with press? := some { press with
          last := q, moved := press.moved || press.origin.isBeyond q v.pointer.clickDistance } },
        if q.x - press.last.x != 0 || q.y - press.last.y != 0 then
          [.pan (q.x - press.last.x) (q.y - press.last.y)] else []) := by
    rw [Pointer.moved, held]
    dsimp only
    rw [if_neg (free ▸ Bool.false_ne_true)]
    rfl
  have stepped := v.handle_eq h.attached (.move q) now
  have asked : (v.pointer.handle (v.regions now) (.move q)).2 = (v.pointer.moved q).2 := rfl
  have pointed : (v.pointer.handle (v.regions now) (.move q)).1.press? =
      (v.pointer.moved q).1.press? := rfl
  constructor
  case attached => exact isDetached_step h.attached (by simp)
  case held =>
    rw [step, stepped, obeying, press?_obeyAll, pointed, reacted]
    exact ⟨_, rfl, rfl, free⟩
  case anchored => exact ⟨start, anchored.moves ordered shifts⟩
  case under =>
    rw [step, stepped, obeying, asked, reacted]
    dsimp only
    split
    · exact (v.viewport.invert_pan press.last q).trans h.under
    · next still =>
      -- A pointer that did not move is where it was.
      have same : q = press.last := by
        rw [Bool.or_eq_true, not_or, bne_iff_ne, bne_iff_ne, not_not, not_not] at still
        obtain ⟨x, y⟩ := q
        exact congrArg₂ Point.mk (sub_eq_zero.mp still.1) (sub_eq_zero.mp still.2)
      rw [same]
      exact h.under

private theorem wheel (h : v.Grips extent world last) (ordered : extent.IsOrdered)
    (positive : 0 < extent.min) (delta : Rat) (unit : WheelUnit) (ctrl : Bool) (now : Duration) :
    (v.step (.handle (.wheel last delta unit ctrl) now)).Grips extent world last := by
  obtain ⟨press, held, there, free⟩ := h.held
  obtain ⟨start, anchored⟩ := h.anchored
  let call : Call Rat := .handle (.wheel last delta unit ctrl) now
  have shifts : v.Shifts (v.steers call = false) (v.step call) := Shifts.step v rfl
  have stepped := v.handle_eq h.attached (.wheel last delta unit ctrl) now
  have asked : (v.pointer.handle (v.regions now) (.wheel last delta unit ctrl)).2 =
      v.pointer.wheeled last delta unit ctrl := rfl
  have pointed : (v.pointer.handle (v.regions now) (.wheel last delta unit ctrl)).1.press? =
      v.pointer.press? := rfl
  constructor
  case attached => exact isDetached_step h.attached (by simp)
  case held =>
    rw [step, stepped, obeying, press?_obeyAll, pointed]
    exact ⟨press, held, there, free⟩
  case anchored => exact ⟨start, anchored.moves ordered shifts⟩
  case under =>
    have scaled : ∀ scale, v.viewport.window.extent.clamp scale ≠ 0 := by
      rw [anchored.window]
      exact clamp_ne_zero ordered positive
    rw [step, stepped, obeying, asked, Pointer.wheeled]
    split
    · exact h.under
    · dsimp only
      split
      · exact (v.viewport.invert_zoom last _ scaled).trans h.under
      · exact h.under

private theorem run (h : v.Grips extent world last) (ordered : extent.IsOrdered)
    (positive : 0 < extent.min) {calls : List (Call Rat)} {final : Point Rat}
    (drags : Call.Drags last calls final) : (v.run calls).Grips extent world final := by
  induction drags generalizing v with
  | stop => exact h
  | move now _ ih => exact ih (h.move ordered _ now)
  | wheel delta unit ctrl now _ ih => exact ih (h.wheel ordered positive delta unit ctrl now)
  | aside spares _ ih => exact ih (h.aside ordered spares)

end Grips

private theorem grips_press [PowTwo Rat] (attached : v.isDetached = false) (framed : v.IsFramed)
    (mounted : v.mount?.isSome) {position : Point Rat} {now : Duration}
    (free : ((v.regions now).hit position).isTooltip = false) :
    (v.step (.handle (.down .primary position) now)).Grips v.settings.window.extent
      (v.viewport.transform.invert position) position where
  attached := isDetached_step attached (by simp)
  held := by
    rw [step, handle_eq attached, obeying, press?_obeyAll]
    exact ⟨_, rfl, rfl, free⟩
  anchored := by
    rw [step, handle_eq attached]
    exact framed.anchored mounted
  under := by
    rw [step, handle_eq attached]
    rfl

/-- From a press that hits neither the tooltip nor its button, and as long as it is held, the point
of the drawing under the pointer is the one under the press: over every sequence of moves and of
turns of the wheel under the pointer, whatever the wheel's factors and clamped or not, with ticks,
folds, redraws, resizes and themes in between. The settings are without problems. -/
theorem invert_run_of_drags [PowTwo Rat] {settings : Settings Rat}
    (valid : settings.isValid = true) (metrics : Metrics σ Rat) (memory : σ)
    (earlier : List (Call Rat)) {v : View σ Rat}
    (reached : v = (ofSettings settings metrics memory).run earlier)
    (attached : v.isDetached = false) (mounted : v.mount?.isSome) {position last : Point Rat}
    {now : Duration} (free : ((v.regions now).hit position).isTooltip = false)
    {calls : List (Call Rat)} (drags : Call.Drags position calls last) :
    (v.run (.handle (.down .primary position) now :: calls)).viewport.transform.invert last =
      v.viewport.transform.invert position := by
  have framed : v.IsFramed := reached ▸ IsFramed.of_run valid metrics memory earlier
  have kept : v.settings = settings :=
    reached ▸ settings_run (ofSettings settings metrics memory) earlier
  obtain ⟨ordered, positive⟩ := Settings.isOrdered_of_isValid (kept ▸ valid)
  have gripped := grips_press attached framed mounted free
  exact (gripped.run ordered positive drags).under

theorem invert_run_of_drags_clamped :
    ∃ (_ : PowTwo Rat) (v : View Unit Rat) (calls : List (Call Rat)),
      v.layout?.map (·.ids) = some [0, 1, 2] ∧ Call.Drags ⟨190, 300⟩ calls ⟨-40, 7 / 2⟩ ∧
        ((v.run (.handle (.down .primary ⟨190, 300⟩) .zero :: calls)).viewport.transform.scale =
          1 / 10 ∧
        (v.run (.handle (.down .primary ⟨190, 300⟩) .zero :: calls)).viewport.transform.invert
          ⟨-40, 7 / 2⟩ = v.viewport.transform.invert ⟨190, 300⟩) := by
  let powTwo : PowTwo Rat := ⟨fun x => 2 ^ x.floor⟩
  let tree : Tree := .ofRecord { label := "root", visible := [{ label := "left" },
    { label := "right" }] }
  let start : View Unit Rat := ofSettings Settings.standard (.fixed 8) ()
  let earlier : List (Call Rat) := [.mount (some ⟨tree, .ofRecord _⟩) .zero, .zoom ⟨10, 20⟩ (3 / 2)]
  let calls : List (Call Rat) := [.handle (.move ⟨195, 310⟩) .zero,
    .handle (.wheel ⟨195, 310⟩ (-9) .page false) .zero, .toggle 0 (.ofMillis 100),
    .handle (.move ⟨-40, 7 / 2⟩) (.ofMillis 100), .resize ⟨800, 500⟩ (.ofMillis 200),
    .handle (.wheel ⟨-40, 7 / 2⟩ 900 .line true) (.ofMillis 300), .tick (.ofMillis 400)]
  have drags : Call.Drags ⟨190, 300⟩ calls ⟨-40, 7 / 2⟩ :=
    .move _ (.wheel _ _ _ _ (.aside rfl (.move _ (.aside rfl (.wheel _ _ _ _
      (.aside rfl (.stop _)))))))
  have free : (((start.run earlier).regions .zero).hit ⟨190, 300⟩).isTooltip = false := by
    decide +kernel
  have laid : (start.run earlier).layout?.map (·.ids) = some [0, 1, 2] := by decide +kernel
  have scale : ((start.run earlier).run (.handle (.down .primary ⟨190, 300⟩) .zero :: calls)
      ).viewport.transform.scale = 1 / 10 := by decide +kernel
  exact ⟨powTwo, start.run earlier, calls, laid, drags, scale,
    invert_run_of_drags (by decide +kernel) (.fixed 8) () earlier rfl rfl rfl free drags⟩

end View

end TidyTree
