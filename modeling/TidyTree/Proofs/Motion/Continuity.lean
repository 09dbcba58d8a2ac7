import TidyTree.Proofs.Motion.Presence

set_option autoImplicit false
set_option relaxedAutoImplicit false

namespace TidyTree

variable {κ α ν : Type} [Scalar α] [Lerp α ν]

private theorem Transition.start_tween (t : Transition κ ν) (timing : Timing α)
    (held : Option (Actor α ν)) :
    (t.tween timing held).start = (held.map (·.track.sample timing.now)).getD t.start ∧
      (t.tween timing held).elapsed = .zero ∧ (t.tween timing held).easing = timing.easing := by
  obtain _ | ⟨_ | _, _⟩ := held <;> exact ⟨rfl, rfl, rfl⟩

/-- The course of time has not begun at the start of any duration. -/
def Timing.StartsSlowly (timing : Timing α) : Prop :=
  ∀ d : Duration, 0 < d.nanos →
    timing.easing (Scalar.toUnit ((Duration.zero.seconds : α) / d.seconds)) ≤ 0

private theorem Transition.sample_tween [LawfulLerp α ν] (t : Transition κ ν) {timing : Timing α}
    (slow : timing.StartsSlowly) (held : Option (Actor α ν)) :
    (Track.moving (t.tween timing held) timing.now).sample timing.now =
      (held.map (·.track.sample timing.now)).getD t.start := by
  obtain ⟨start, elapsed, easing⟩ := t.start_tween timing held
  obtain ⟨_, duration⟩ := t.finish_tween timing held
  have passed : Duration.zero + (timing.now - timing.now) = .zero := by
    apply Duration.ext
    rw [Duration.add_nanos, Duration.sub_nanos, Nat.sub_self]
    rfl
  have pos := timing.duration.orOne_pos
  have begun : ((t.tween timing held).advance (timing.now - timing.now)).isComplete = false := by
    refine decide_eq_false ?_
    show ¬ ((t.tween timing held).duration.nanos ≤
      ((t.tween timing held).elapsed + (timing.now - timing.now)).nanos)
    rw [elapsed, passed, duration]
    exact Nat.not_le.mpr pos
  rw [Track.sample, Tween.current, begun, ← start]
  refine LawfulLerp.lerp_start _ _ _ ?_
  show (t.tween timing held).easing (Scalar.toUnit
    (((t.tween timing held).elapsed + (timing.now - timing.now)).seconds /
      (t.tween timing held).duration.seconds)) ≤ 0
  rw [elapsed, passed, easing, duration]
  exact slow _ pos

variable [BEq ν]

private theorem Transition.sample_outcome [LawfulLerp α ν] {t : Transition κ ν} {timing : Timing α}
    (slow : timing.StartsSlowly) (animated : t.mode = .animated) (held : Option (Actor α ν)) :
    (t.outcome timing held).map (·.track.sample timing.now) =
      some ((held.map (·.track.sample timing.now)).getD t.start) := by
  have moving := t.sample_tween slow held
  obtain ⟨key, phase, mode, start, finish⟩ := t
  obtain rfl : mode = .animated := animated
  cases phase <;> exact congrArg some moving

private theorem Transition.isSome_outcome {t : Transition κ ν} (timing : Timing α)
    (smooth : t.phase = .exiting → t.mode = .animated) (held : Option (Actor α ν)) :
    (t.outcome timing held).isSome := by
  obtain ⟨key, phase, mode, start, finish⟩ := t
  unfold outcome
  cases phase <;> cases mode <;> dsimp only
  case exiting.immediate => exact absurd (smooth rfl) (by simp)
  case updating.immediate =>
    split
    · next h => exact (Bool.and_eq_true_iff.mp h).2
    · rfl
  all_goals rfl

namespace Stage

variable [Key κ] {s : Stage κ α ν} {ts : List (Transition κ ν)} {before after : κ → Option ν}
  {timing : Timing α}

theorem holds_applyAll (timing : Timing α) (nodup : (ts.map (·.key)).Nodup)
    (smooth : ∀ t ∈ ts, t.phase = .exiting → t.mode = .animated) {k : κ}
    (h : s.holds k = true) : (s.applyAll timing ts).holds k = true := by
  by_cases hmem : k ∈ ts.map (·.key)
  · obtain ⟨t, ht, rfl⟩ := List.mem_map.mp hmem
    show ((s.applyAll timing ts).actors.get? t.key).isSome
    rw [get?_applyAll_of_mem s timing nodup ht]
    exact t.isSome_outcome timing (smooth t ht) _
  · show ((s.applyAll timing ts).actors.get? k).isSome
    rw [get?_applyAll_of_not_mem s timing hmem]
    exact h

variable [LawfulLerp α ν]

theorem sample?_applyAll_of_animated (slow : timing.StartsSlowly) (nodup : (ts.map (·.key)).Nodup)
    {t : Transition κ ν} (ht : t ∈ ts) (animated : t.mode = .animated) {v : ν}
    (h : s.sample? t.key timing.now = some v) :
    (s.applyAll timing ts).sample? t.key timing.now = some v := by
  rw [sample?] at h
  rw [sample?, get?_applyAll_of_mem s timing nodup ht, t.sample_outcome slow animated, h,
    Option.getD_some]

theorem exists_start_of_new {animation : Duration} (slow : timing.StartsSlowly)
    (present : s.Presents before animation) (leads : LeadsTo ts before after)
    (smooth : ∀ t ∈ ts, t.phase = .entering → t.mode = .animated) {k : κ}
    (new : s.holds k = false) {v : ν}
    (h : (s.applyAll timing ts).sample? k timing.now = some v) :
    ∃ t ∈ ts, t.phase = .entering ∧ t.start = v := by
  have absent : s.actors.get? k = none :=
    Option.not_isSome_iff_eq_none.mp (Bool.eq_false_iff.mp new)
  by_cases hmem : k ∈ ts.map (·.key)
  · obtain ⟨t, ht, rfl⟩ := List.mem_map.mp hmem
    have fits := leads.fits t ht
    have gone : before t.key = none := by
      by_contra some
      obtain ⟨w, hw⟩ := Option.ne_none_iff_exists'.mp some
      obtain ⟨actor, held, _⟩ := present.present _ w hw
      exact absurd (absent.symm.trans held) (by simp)
    have entering : t.phase = .entering := by
      unfold Transition.Fits at fits
      cases hphase : t.phase with
      | entering => rfl
      | updating => rw [hphase] at fits; exact absurd (gone.symm.trans fits.1) (by simp)
      | exiting => rw [hphase] at fits; exact absurd (gone.symm.trans fits.1) (by simp)
    rw [sample?, get?_applyAll_of_mem s timing leads.nodup ht,
      t.sample_outcome slow (smooth t ht entering), absent] at h
    exact ⟨t, ht, entering, Option.some.inj h⟩
  · rw [sample?, get?_applyAll_of_not_mem s timing hmem, absent] at h
    exact absurd h (by simp)

end Stage

end TidyTree
