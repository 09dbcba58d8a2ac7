import TidyTree.Proofs.Motion.Presence

set_option autoImplicit false
set_option relaxedAutoImplicit false

namespace TidyTree

variable {κ α ν : Type}

/-- Until when an element on stage stays there; one that is not due to leave stays without end. -/
def Stage.stay? [Key κ] (s : Stage κ α ν) (k : κ) : Option (Option Duration) :=
  (s.actors.get? k).map (·.leavesAt)

/-- Until when a transition lets its element stay. -/
def Transition.stay (t : Transition κ ν) (timing : Timing α) : Option (Option Duration) :=
  match t.phase, t.mode with
  | .exiting, .animated => some (some (timing.now + timing.duration))
  | .exiting, .immediate => none
  | _, _ => some none

/-- A stay that ends no later than another. -/
def StaysNoLonger : Option Duration → Option Duration → Prop
  | _, none => True
  | some d, some e => d ≤ e
  | none, some _ => False

theorem StaysNoLonger.refl : ∀ d : Option Duration, StaysNoLonger d d
  | none => trivial
  | some d => Nat.le_refl d.nanos

theorem Transition.stay_congr {κ' ν' : Type} {t : Transition κ ν} {u : Transition κ' ν'}
    (timing : Timing α) (phase : t.phase = u.phase) (mode : t.mode = u.mode) :
    t.stay timing = u.stay timing := by
  rw [stay, stay, phase, mode]

theorem Transition.stay_of_after {t : Transition κ ν} {before after : κ → Option ν}
    (fits : t.Fits before after) (timing : Timing α) (there : (after t.key).isSome) :
    t.stay timing = some none := by
  obtain ⟨key, phase, mode, start, finish⟩ := t
  cases phase with
  | exiting =>
    have gone : after key = none := fits.2
    exact absurd (gone ▸ there) (by simp)
  | _ => rfl

theorem Transition.stay_of_gone {t : Transition κ ν} {before after : κ → Option ν}
    (fits : t.Fits before after) (timing : Timing α)
    (smooth : t.phase = .exiting → t.mode = .animated) (gone : after t.key = none) :
    t.stay timing = some (some (timing.now + timing.duration)) := by
  obtain ⟨key, phase, mode, start, finish⟩ := t
  cases phase with
  | exiting =>
    obtain rfl : mode = .animated := smooth rfl
    rfl
  | _ => exact absurd (fits.2.symm.trans gone) (by simp)

section

variable [Scalar α] [Lerp α ν] [BEq ν] {before after : κ → Option ν}

private theorem Transition.stay_outcome {t : Transition κ ν} (fits : t.Fits before after)
    (timing : Timing α) {held : Option (Actor α ν)}
    (present : ∀ w, before t.key = some w → ∃ actor, held = some actor ∧ actor.HeadsFor w) :
    (t.outcome timing held).map (·.leavesAt) = t.stay timing := by
  obtain ⟨key, phase, mode, start, finish⟩ := t
  cases phase with
  | entering => cases mode <;> rfl
  | exiting => cases mode <;> rfl
  | updating =>
    cases mode with
    | animated => rfl
    | immediate =>
      obtain ⟨actor, rfl, stays, _⟩ := present start fits.1
      unfold outcome
      dsimp only
      split
      · exact congrArg some stays
      · rfl

end

namespace Stage

variable [Key κ] {s : Stage κ α ν}

theorem isSome_stay? (s : Stage κ α ν) (k : κ) : (s.stay? k).isSome = s.holds k := Option.isSome_map

theorem stay?_empty (k : κ) : (empty : Stage κ α ν).stay? k = none := rfl

/-- A tick lets go of what is due and keeps all else. -/
theorem stay?_tick (s : Stage κ α ν) (now : Duration) (k : κ) :
    (s.tick now).stay? k = (s.stay? k).filter fun until? => until?.all (now < ·) := by
  rw [stay?, get?_tick, Option.map_map, stay?]
  cases s.actors.get? k with
  | none => rfl
  | some actor =>
    have same : stays now actor = actor.leavesAt.all (now < ·) := by
      rw [stays]
      cases actor.leavesAt <;> rfl
    rw [Option.filter_some, Option.map_some, Option.filter_some, same]
    split <;> rfl

theorem holds_of_holds_tick {now : Duration} {k : κ} (h : (s.tick now).holds k = true) :
    s.holds k = true := by
  rw [← isSome_stay?, stay?_tick, Option.isSome_filter] at h
  rw [← isSome_stay?]
  cases hs : s.stay? k with
  | none => simp [hs] at h
  | some until? => rfl

variable [Scalar α] [Lerp α ν] [BEq ν] {before after : κ → Option ν} {timing : Timing α}
  {ts : List (Transition κ ν)}

theorem stay?_applyAll_of_not_mem (timing : Timing α) {k : κ} (h : k ∉ ts.map (·.key)) :
    (s.applyAll timing ts).stay? k = s.stay? k := by
  rw [stay?, get?_applyAll_of_not_mem s timing h, stay?]

theorem holds_applyAll_of_not_mem (timing : Timing α) {k : κ} (h : k ∉ ts.map (·.key)) :
    (s.applyAll timing ts).holds k = s.holds k := by
  rw [← isSome_stay?, stay?_applyAll_of_not_mem timing h, isSome_stay?]

theorem Presents.stay?_applyAll (present : s.Presents before timing.duration)
    (leads : LeadsTo ts before after) {t : Transition κ ν} (ht : t ∈ ts) :
    (s.applyAll timing ts).stay? t.key = t.stay timing := by
  rw [stay?, get?_applyAll_of_mem s timing leads.nodup ht]
  exact Transition.stay_outcome (leads.fits t ht) timing (present.present t.key)

end Stage

end TidyTree
