import TidyTree.Proofs.Motion.Stage
import TidyTree.Proofs.Scalar.Laws

set_option autoImplicit false
set_option relaxedAutoImplicit false

/-!
# Presence on a stage

A stage presents a picture when every element of the picture is on its way to its place and not due
to leave, and every other element on stage is fading and leaves when it has faded. Transitions that
lead from one picture to another take a stage that presents the first to one that presents the
second, whatever their phases and modes and whatever the elements were doing.
-/

namespace TidyTree

variable {κ α ν : Type}

/-- The phase of a transition is right, and it leads from the place before to the place after. -/
def Transition.Fits (t : Transition κ ν) (before after : κ → Option ν) : Prop :=
  match t.phase with
  | .entering => before t.key = none ∧ after t.key = some t.finish
  | .updating => before t.key = some t.start ∧ after t.key = some t.finish
  | .exiting => before t.key = some t.start ∧ after t.key = none

/-- Each element of either picture has one transition, and it leads from the one to the other. -/
structure LeadsTo (ts : List (Transition κ ν)) (before after : κ → Option ν) : Prop where
  nodup : (ts.map (·.key)).Nodup
  fits : ∀ t ∈ ts, t.Fits before after
  complete : ∀ k, (before k).isSome ∨ (after k).isSome → k ∈ ts.map (·.key)

/-- The element is fading, and it is due to leave when it has faded. -/
def Actor.IsFading (actor : Actor α ν) (animation : Duration) : Prop :=
  ∃ tween since, actor.track = .moving tween since ∧ tween.duration = animation.orOne ∧
    actor.leavesAt = some (since + animation)

/-- The element goes to a value and stays there. -/
def Actor.HeadsFor [BEq ν] (actor : Actor α ν) (v : ν) : Prop :=
  actor.leavesAt = none ∧ ((v == v) = true → (actor.track.target == v) = true)

/-- Every element of the picture goes to its place and stays, and every other one is fading. -/
structure Stage.Presents [Key κ] [BEq ν] (s : Stage κ α ν) (picture : κ → Option ν)
    (animation : Duration) : Prop where
  present : ∀ k v, picture k = some v → ∃ actor, s.actors.get? k = some actor ∧ actor.HeadsFor v
  fading : ∀ k actor, picture k = none → s.actors.get? k = some actor → actor.IsFading animation

namespace Duration

theorem orOne_pos (d : Duration) : 0 < d.orOne.nanos := by
  unfold orOne
  split
  · decide
  · next h => exact Nat.pos_of_ne_zero h

private theorem le_orOne (d : Duration) : d.nanos ≤ d.orOne.nanos := by
  unfold orOne
  split
  · next h => rw [h]; exact Nat.zero_le _
  · exact Nat.le_refl _

end Duration

namespace Track

theorem sample_of_not_isMoving [Scalar α] [Lerp α ν] {t : Track α ν} {now time : Duration}
    (h : t.isMoving now = false) (later : now ≤ time) : t.sample time = t.target := by
  cases t with
  | resting value => rfl
  | moving tween since =>
    have passed : ¬ (now - since).nanos < tween.duration.nanos := of_decide_eq_false h
    have later : now.nanos ≤ time.nanos := later
    have complete : (tween.advance (time - since)).isComplete = true := by
      refine decide_eq_true (?_ : tween.duration.nanos ≤ (tween.elapsed + (time - since)).nanos)
      have bounded := tween.duration.isLe
      rw [Duration.add_nanos, Duration.sub_nanos]
      rw [Duration.sub_nanos] at passed
      omega
    rw [sample, Tween.current, complete]
    rfl

@[simp] theorem target_settle (t : Track α ν) (now : Duration) :
    (t.settle now).target = t.target := by
  unfold settle
  split <;> rfl

end Track

private theorem Actor.IsFading.isMoving {actor : Actor α ν} {animation now : Duration}
    (h : actor.IsFading animation) (stays : Stage.stays now actor = true) :
    actor.track.isMoving now = true := by
  obtain ⟨tween, since, track, duration, leaves⟩ := h
  have early : now.nanos < (since + animation).nanos := by
    rw [Stage.stays, leaves] at stays
    exact of_decide_eq_true stays
  rw [track]
  refine decide_eq_true (?_ : (now - since).nanos < tween.duration.nanos)
  have least := animation.le_orOne
  have pos := animation.orOne_pos
  rw [Duration.add_nanos] at early
  rw [duration, Duration.sub_nanos]
  omega

theorem Stage.presents_empty [Key κ] [BEq ν] {picture : κ → Option ν} (h : ∀ k, picture k = none)
    (animation : Duration) : (Stage.empty : Stage κ α ν).Presents picture animation where
  present k v hv := absurd ((h k).symm.trans hv) (by simp)
  fading k actor _ held := absurd held (by simp [Stage.empty])

namespace Stage.Presents

variable [Key κ] [BEq ν] {s : Stage κ α ν} {before after : κ → Option ν} {animation : Duration}

theorem tick (h : s.Presents before animation) (now : Duration) :
    (s.tick now).Presents before animation where
  present := by
    intro k v hv
    obtain ⟨actor, held, stays, target⟩ := h.present k v hv
    refine ⟨{ actor with track := actor.track.settle now }, ?_, stays, ?_⟩
    · have kept : Stage.stays now actor = true := by rw [Stage.stays, stays]
      rw [get?_tick, held, Option.filter_some_pos kept, Option.map_some]
    · rwa [Track.target_settle]
  fading := by
    intro k actor hk held
    rw [get?_tick, Option.map_eq_some_iff] at held
    obtain ⟨old, held, rfl⟩ := held
    obtain ⟨held, stays⟩ := Option.filter_eq_some_iff.mp held
    have fading := h.fading k old hk held
    rw [Track.settle, if_pos (fading.isMoving stays)]
    exact fading

theorem get?_eq_none_of_still (h : s.Presents before animation) {now : Duration}
    (still : (s.tick now).isMoving now = false) {k : κ} (hk : before k = none) :
    (s.tick now).actors.get? k = none := by
  cases held : (s.tick now).actors.get? k with
  | none => rfl
  | some actor =>
    have resting := Table.any_eq_false_iff.mp still k actor held
    rw [get?_tick, Option.map_eq_some_iff] at held
    obtain ⟨old, held, rfl⟩ := held
    obtain ⟨held, stays⟩ := Option.filter_eq_some_iff.mp held
    have moving := (h.fading k old hk held).isMoving stays
    rw [Track.settle, if_pos moving, moving] at resting
    exact absurd resting (by decide)

theorem sample?_of_still [Scalar α] [Lerp α ν] (h : s.Presents before animation)
    {now time : Duration} (still : s.isMoving now = false) (later : now ≤ time) {k : κ} {v : ν}
    (hk : before k = some v) :
    ∃ w, s.sample? k time = some w ∧ ((v == v) = true → (w == v) = true) := by
  obtain ⟨actor, held, _, target⟩ := h.present k v hk
  have resting := Table.any_eq_false_iff.mp still k actor held
  refine ⟨actor.track.target, ?_, target⟩
  rw [sample?, held, Option.map_some, Track.sample_of_not_isMoving resting later]

end Stage.Presents

section Transitions

variable [Scalar α] [Lerp α ν]

private theorem Track.finish_redirect (t : Track α ν) (finish : ν) (duration now : Duration) :
    (t.redirect finish duration now).finish = finish ∧
      (t.redirect finish duration now).duration = duration.orOne := by
  cases t <;> exact ⟨rfl, rfl⟩

theorem Transition.finish_tween (t : Transition κ ν) (timing : Timing α)
    (held : Option (Actor α ν)) :
    (t.tween timing held).finish = t.finish ∧
      (t.tween timing held).duration = timing.duration.orOne := by
  cases held with
  | none => exact ⟨rfl, rfl⟩
  | some actor => exact actor.track.finish_redirect _ _ _

variable [BEq ν] {before after : κ → Option ν}

private theorem Transition.outcome_of_after [PartialEquivBEq ν] {t : Transition κ ν} {v : ν}
    (fits : t.Fits before after) (timing : Timing α) (hv : after t.key = some v)
    {held : Option (Actor α ν)}
    (present : ∀ w, before t.key = some w → ∃ actor, held = some actor ∧ actor.HeadsFor w) :
    ∃ actor, t.outcome timing held = some actor ∧ actor.HeadsFor v := by
  have moving : t.finish = v → (⟨.moving (t.tween timing held) timing.now, none⟩ :
      Actor α ν).HeadsFor v := by
    rintro rfl
    refine ⟨rfl, fun self => ?_⟩
    rw [Track.target, (t.finish_tween timing held).1]
    exact self
  have resting : t.finish = v → (⟨.resting t.finish, none⟩ : Actor α ν).HeadsFor v := by
    rintro rfl
    exact ⟨rfl, id⟩
  obtain ⟨key, phase, mode, start, finish⟩ := t
  cases phase with
  | entering =>
    obtain rfl : finish = v := Option.some.inj (fits.2.symm.trans hv)
    cases mode with
    | animated => exact ⟨_, rfl, moving rfl⟩
    | immediate => exact ⟨_, rfl, resting rfl⟩
  | updating =>
    obtain rfl : finish = v := Option.some.inj (fits.2.symm.trans hv)
    cases mode with
    | animated => exact ⟨_, rfl, moving rfl⟩
    | immediate =>
      unfold outcome
      dsimp only
      split
      · next skipped =>
        -- The element is told nothing, so it keeps heading for where it was before.
        obtain ⟨actor, rfl, stays, target⟩ := present start fits.1
        have same : (start == finish) = true := (Bool.and_eq_true_iff.mp skipped).1
        have self : (start == start) = true := BEq.trans same (BEq.symm same)
        exact ⟨actor, rfl, stays, fun _ => BEq.trans (target self) same⟩
      · exact ⟨_, rfl, resting rfl⟩
  | exiting => exact absurd (fits.2.symm.trans hv) (by simp)

private theorem Transition.isFading_of_outcome {t : Transition κ ν} (fits : t.Fits before after)
    (timing : Timing α) (hnone : after t.key = none) {held : Option (Actor α ν)}
    {actor : Actor α ν} (h : t.outcome timing held = some actor) :
    actor.IsFading timing.duration := by
  have finish := t.finish_tween timing held
  obtain ⟨key, phase, mode, start, goal⟩ := t
  cases phase with
  | entering => exact absurd (fits.2.symm.trans hnone) (by simp)
  | updating => exact absurd (fits.2.symm.trans hnone) (by simp)
  | exiting =>
    cases mode with
    | animated =>
      obtain rfl := Option.some.inj h
      exact ⟨_, _, rfl, finish.2, rfl⟩
    | immediate => exact absurd h (by simp [outcome])

/-- Transitions between two pictures take a stage that presents the one to the other. -/
theorem Stage.Presents.applyAll [Key κ] [PartialEquivBEq ν] {s : Stage κ α ν}
    {ts : List (Transition κ ν)} (timing : Timing α) (h : s.Presents before timing.duration)
    (leads : LeadsTo ts before after) : (s.applyAll timing ts).Presents after timing.duration where
  present := by
    intro k v hv
    obtain ⟨t, ht, rfl⟩ := List.mem_map.mp (leads.complete k (Or.inr (by rw [hv]; rfl)))
    rw [get?_applyAll_of_mem s timing leads.nodup ht]
    exact t.outcome_of_after (leads.fits t ht) timing hv (h.present t.key)
  fading := by
    intro k actor hk held
    by_cases hmem : k ∈ ts.map (·.key)
    · obtain ⟨t, ht, rfl⟩ := List.mem_map.mp hmem
      rw [get?_applyAll_of_mem s timing leads.nodup ht] at held
      exact t.isFading_of_outcome (leads.fits t ht) timing hk held
    · rw [get?_applyAll_of_not_mem s timing hmem] at held
      have gone : before k = none := by
        by_contra some
        exact hmem (leads.complete k (Or.inl (Option.isSome_iff_ne_none.mpr some)))
      exact h.fading k actor gone held

end Transitions

end TidyTree
