import TidyTree.Proofs.Screen.Viewport

set_option autoImplicit false
set_option relaxedAutoImplicit false

/-!
# Controls of a viewport

A viewport is controlled by calls in any order, and it may be given back a transform that it had
before. The calls that change the scale clamp it. Two calls set a scale of one without a look at the
extent: a diagram without bounds is placed with it, and so is one that is panned before it was
placed. So the scale is in the extent, or it is one and such a call was made.
-/

namespace TidyTree

inductive Control (α : Type) where
  | resume (previous : Option (Transform α)) (bounds : Option (Rect α))
  | set (transform : Transform α)
  | pan (dx dy : α)
  | zoom (anchor : Point α) (factor : α)
  | scaleTo (anchor : Point α) (scale : α)
  | zoomIn
  | zoomOut
  | reset
  | clear
  | resize (container : Size α)

private def Control.givesBack {α : Type} : Control α → Bool
  | .resume (some _) _ => true
  | _ => false

variable {α : Type} [Scalar α]

namespace Viewport

def control (v : Viewport α) : Control α → Viewport α
  | .resume previous bounds => v.resume previous bounds
  | .set transform => v.set transform
  | .pan dx dy => v.pan dx dy
  | .zoom anchor factor => v.zoom anchor factor
  | .scaleTo anchor scale => v.scaleTo anchor scale
  | .zoomIn => v.zoomIn
  | .zoomOut => v.zoomOut
  | .reset => v.reset
  | .clear => v.clear
  | .resize container => v.resize container

def controlled (w : Window α) (controls : List (Control α)) : Viewport α :=
  controls.foldl control (.ofWindow w)

private theorem controlled_concat (w : Window α) (controls : List (Control α)) (c : Control α) :
    controlled w (controls ++ [c]) = (controlled w controls).control c := by
  rw [controlled, List.foldl_append]
  rfl

/-- The call sets a scale of one without a look at the extent: it places a diagram without bounds,
or pans one that has no transform. -/
def SkipsExtent (v : Viewport α) : Control α → Prop
  | .resume none none => True
  | .pan dx dy => v.transform? = none ∧ (Scalar.isFinite dx && Scalar.isFinite dy) = true
  | _ => False

/-- The calls on a new viewport in which no other transform is given back than one it had before. -/
inductive IsControlled (w : Window α) : List (Control α) → Prop where
  | nil : IsControlled w []
  | concat {controls : List (Control α)} (h : IsControlled w controls) (c : Control α)
      (own : ∀ t bounds, c = .resume (some t) bounds →
        ∃ before, before <+: controls ∧ (controlled w before).transform? = some t) :
      IsControlled w (controls ++ [c])

private theorem IsControlled.concat_fresh {w : Window α} {controls : List (Control α)}
    (h : IsControlled w controls) {c : Control α} (fresh : c.givesBack = false) :
    IsControlled w (controls ++ [c]) := by
  apply h.concat c
  rintro t bounds rfl
  exact Bool.noConfusion fresh

private theorem IsControlled.of_fresh {w : Window α} {controls : List (Control α)}
    (fresh : ∀ c ∈ controls, c.givesBack = false) : IsControlled w controls := by
  induction controls using List.reverseRecOn with
  | nil => exact .nil
  | append_singleton controls c ih =>
    have earlier := ih fun c mem => fresh c (List.mem_append_left _ mem)
    exact earlier.concat_fresh (fresh c (by simp))

/-- One of the calls sets a scale of one without a look at the extent. -/
def SkipsOnce (w : Window α) (controls : List (Control α)) : Prop :=
  ∃ before c, before ++ [c] <+: controls ∧ (controlled w before).SkipsExtent c

private theorem SkipsOnce.mono {w : Window α} {controls later : List (Control α)}
    (h : SkipsOnce w controls) (earlier : controls <+: later) : SkipsOnce w later := by
  obtain ⟨before, c, made, skips⟩ := h
  exact ⟨before, c, made.trans earlier, skips⟩

private def IsAdmitted (e : ScaleExtent α) (skipped : Prop) (t : Transform α) : Prop :=
  e.contains t.scale = true ∨ t.scale = 1 ∧ skipped

structure IsConfined (v : Viewport α) (e : ScaleExtent α) (skipped : Prop) : Prop where
  window : v.window.extent = e
  current : ∀ t, v.transform? = some t → IsAdmitted e skipped t
  initial : ∀ t, v.initial? = some t → IsAdmitted e skipped t

namespace IsConfined

variable {v : Viewport α} {e : ScaleExtent α} {skipped skipped' : Prop}

private theorem mono (h : v.IsConfined e skipped) (more : skipped → skipped') :
    v.IsConfined e skipped' where
  window := h.window
  current t placed := (h.current t placed).imp_right (And.imp_right more)
  initial t placed := (h.initial t placed).imp_right (And.imp_right more)

private theorem ofWindow (w : Window α) : (Viewport.ofWindow w).IsConfined w.extent skipped where
  window := rfl
  current _ placed := absurd placed.symm (Option.some_ne_none _)
  initial _ placed := absurd placed.symm (Option.some_ne_none _)

private theorem withTransform (h : v.IsConfined e skipped) {t : Transform α}
    (admitted : IsAdmitted e skipped t) : (v.withTransform t).IsConfined e skipped where
  window := h.window
  current := by
    intro t' same
    obtain rfl := Option.some.inj same
    exact admitted
  initial := h.initial

private theorem reset (h : v.IsConfined e skipped) : v.reset.IsConfined e skipped := by
  unfold Viewport.reset
  split
  · next t first => exact h.withTransform (h.initial t first)
  · exact h

private theorem clear (h : v.IsConfined e skipped) : v.clear.IsConfined e skipped where
  window := h.window
  current _ placed := absurd placed.symm (Option.some_ne_none _)
  initial _ placed := absurd placed.symm (Option.some_ne_none _)

private theorem resize (h : v.IsConfined e skipped) (container : Size α) :
    (v.resize container).IsConfined e skipped := ⟨h.window, h.current, h.initial⟩

private theorem pan (h : v.IsConfined e skipped) (dx dy : α)
    (skips : v.SkipsExtent (.pan dx dy) → skipped) : (v.pan dx dy).IsConfined e skipped := by
  unfold Viewport.pan
  split
  · next finite =>
    apply h.withTransform
    rw [transform]
    cases placed : v.transform? with
    | some t => exact h.current t placed
    | none => exact Or.inr ⟨rfl, skips ⟨placed, finite⟩⟩
  · exact h

variable [Scalar.LawfulOrder α]

private theorem place (h : v.IsConfined e skipped) (ordered : e.IsOrdered)
    (bounds : Option (Rect α))
    (skips : bounds = none → skipped) : (v.place bounds).IsConfined e skipped := by
  have admitted : IsAdmitted e skipped (v.window.placement bounds) := by
    cases bounds with
    | none => exact Or.inr ⟨rfl, skips rfl⟩
    | some bounds =>
      left
      rw [← h.window]
      exact (h.window ▸ ordered).contains_clamp 1
  refine ⟨h.window, ?_, ?_⟩
  · intro t same
    obtain rfl := Option.some.inj same
    exact admitted
  · intro t same
    obtain rfl := Option.some.inj same
    exact admitted

private theorem set (h : v.IsConfined e skipped) (ordered : e.IsOrdered) (t : Transform α) :
    (v.set t).IsConfined e skipped := by
  unfold Viewport.set
  split
  · apply h.withTransform
    rw [h.window]
    exact Or.inl (ordered.contains_clamp t.scale)
  · exact h

private theorem scaleTo (h : v.IsConfined e skipped) (ordered : e.IsOrdered) (anchor : Point α)
    (scale : α) : (v.scaleTo anchor scale).IsConfined e skipped := by
  unfold Viewport.scaleTo
  split
  · apply h.withTransform
    rw [h.window]
    exact Or.inl (ordered.contains_clamp scale)
  · exact h

private theorem zoom (h : v.IsConfined e skipped) (ordered : e.IsOrdered) (anchor : Point α)
    (factor : α) :
    (v.zoom anchor factor).IsConfined e skipped := by
  unfold Viewport.zoom
  split
  · exact h.scaleTo ordered anchor _
  · exact h

private theorem control (h : v.IsConfined e skipped) (ordered : e.IsOrdered) (c : Control α)
    (skips : v.SkipsExtent c → skipped)
    (own : ∀ t bounds, c = .resume (some t) bounds → IsAdmitted e skipped t) :
    (v.control c).IsConfined e skipped := by
  cases c with
  | resume previous bounds =>
    cases previous with
    | some t => exact h.withTransform (own t bounds rfl)
    | none =>
      apply h.place ordered bounds
      rintro rfl
      exact skips trivial
  | set t => exact h.set ordered t
  | pan dx dy => exact h.pan dx dy skips
  | zoom anchor factor => exact h.zoom ordered anchor factor
  | scaleTo anchor scale => exact h.scaleTo ordered anchor scale
  | zoomIn => exact h.scaleTo ordered _ _
  | zoomOut => exact h.scaleTo ordered _ _
  | reset => exact h.reset
  | clear => exact h.clear
  | resize container => exact h.resize container

/-- Any calls. What is given back was had before some of them, so the induction is on all that was
made up to a call at once. -/
theorem of_isControlled {w : Window α} (ordered : w.extent.IsOrdered)
    {controls : List (Control α)} (h : IsControlled w controls) :
    ∀ before, before <+: controls →
      (controlled w before).IsConfined w.extent (SkipsOnce w controls) := by
  induction h with
  | nil =>
    intro before made
    rw [List.prefix_nil.mp made]
    exact .ofWindow w
  | @concat controls _ c own ih =>
    intro before made
    have earlier : controls <+: controls ++ [c] := List.prefix_append controls [c]
    rcases List.prefix_concat_iff.mp made with rfl | made
    · rw [controlled_concat]
      have kept := (ih controls (List.prefix_rfl)).mono (·.mono earlier)
      apply kept.control ordered c
      · intro skips
        exact ⟨controls, c, List.prefix_rfl, skips⟩
      · intro t bounds same
        obtain ⟨before, made, had⟩ := own t bounds same
        exact ((ih before made).mono (·.mono earlier)).current t had
    · exact (ih before made).mono (·.mono earlier)

end IsConfined

/-- A viewport whose extent is in order has a scale in the extent, whatever the calls were, unless
one of them placed a diagram without bounds or panned one that was not placed. Then the scale may
also be one. -/
theorem contains_of_isControlled [Scalar.LawfulOrder α] [Scalar.LawfulLE α] {w : Window α}
    (ordered : w.extent.min ≤ w.extent.max) {controls : List (Control α)}
    (h : IsControlled w controls) {t : Transform α}
    (captured : (controlled w controls).transform? = some t) :
    w.extent.contains t.scale = true ∨ t.scale = 1 ∧ SkipsOnce w controls := by
  have confined := IsConfined.of_isControlled (ScaleExtent.isOrdered_of_le ordered) h
  exact (confined controls List.prefix_rfl).current t captured

theorem contains_of_isControlled_restored :
    ∃ (w : Window Float) (controls : List (Control Float)) (t : Transform Float),
      w.extent.min ≤ w.extent.max ∧ IsControlled w controls ∧
      (controlled w controls).transform? = some t ∧ (t.scale == 2) = true ∧
      (w.extent.contains t.scale = true ∨ t.scale = 1 ∧ SkipsOnce w controls) := by
  let w : Window Float := { Window.standard with extent := ⟨2, 4⟩ }
  let first : List (Control Float) :=
    [.resume none (some ⟨-40, -22, 80, 44⟩), .zoom ⟨10, 10⟩ 100, .pan (0 / 0) 1]
  let had : Transform Float := (controlled w first).transform
  let controls : List (Control Float) := first ++ [.clear, .zoomIn]
  have cleared : IsControlled w controls := .of_fresh (by simp [controls, first, Control.givesBack])
  have restored : IsControlled w (controls ++ [.resume (some had) none]) := by
    apply cleared.concat
    intro t bounds same
    refine ⟨first, ?_, ?_⟩
    · exact List.prefix_append first _
    · rw [← (Control.resume.inj same).1]
      rfl
  have run := restored.concat_fresh (c := .scaleTo ⟨5, 5⟩ (0 / 0)) rfl
  have ordered : w.extent.min ≤ w.extent.max := by decide +kernel
  exact ⟨w, _, _, ordered, run, rfl, by decide +kernel, contains_of_isControlled ordered run rfl⟩

/-- An extent that does not contain one, and the two calls that set a scale of one nevertheless. -/
theorem not_contains_of_isControlled :
    ∃ w : Window Float, 0 < w.extent.min ∧ w.extent.min ≤ w.extent.max ∧
      (∃ t, IsControlled w [.resume none none] ∧
        (controlled w [.resume none none]).transform? = some t ∧
        w.extent.contains t.scale = false) ∧
      ∃ t, IsControlled w [.pan 1 2] ∧
        (controlled w [.pan 1 2]).transform? = some t ∧ w.extent.contains t.scale = false := by
  let w : Window Float := { Window.standard with extent := ⟨2, 4⟩ }
  have positive : 0 < w.extent.min := by decide +kernel
  have ordered : w.extent.min ≤ w.extent.max := by decide +kernel
  have placed : IsControlled w [.resume none none] := .of_fresh (by simp [Control.givesBack])
  have panned : IsControlled w [.pan 1 2] := .of_fresh (by simp [Control.givesBack])
  exact ⟨w, positive, ordered, ⟨_, placed, rfl, by decide +kernel⟩,
    ⟨_, panned, rfl, by decide +kernel⟩⟩

end Viewport

end TidyTree
