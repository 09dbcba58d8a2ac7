import TidyTree.Proofs.Table
import TidyTree.Relayout.Transition

set_option autoImplicit false
set_option relaxedAutoImplicit false

namespace TidyTree

variable {κ α ν : Type} [Key κ]

/-- A tick lets the elements stay that are not due, and those rest that have arrived. -/
theorem Stage.get?_tick (s : Stage κ α ν) (now : Duration) (k : κ) :
    (s.tick now).actors.get? k =
      ((s.actors.get? k).filter (stays now)).map
        fun actor => { actor with track := actor.track.settle now } := by
  rw [tick, Table.get?_map, Table.get?_filter]

variable [Scalar α] [Lerp α ν]

/-- The tween of an element that is told to move, from where it is or from a start if it is new. -/
def Transition.tween (t : Transition κ ν) (timing : Timing α) (held : Option (Actor α ν)) :
    Tween α ν :=
  (match held with
  | some actor => actor.track.redirect t.finish timing.duration timing.now
  | none => .between t.start t.finish timing.duration).withEasing timing.easing

def Transition.outcome [BEq ν] (t : Transition κ ν) (timing : Timing α)
    (held : Option (Actor α ν)) : Option (Actor α ν) :=
  match t.phase, t.mode with
  | .exiting, .animated =>
    some ⟨.moving (t.tween timing held) timing.now, some (timing.now + timing.duration)⟩
  | .exiting, .immediate => none
  | .updating, .immediate =>
    if t.start == t.finish && held.isSome then held else some ⟨.resting t.finish, none⟩
  | .entering, .immediate => some ⟨.resting t.finish, none⟩
  | _, .animated => some ⟨.moving (t.tween timing held) timing.now, none⟩

namespace Stage

theorem get?_perform_move (s : Stage κ α ν) (t : Transition κ ν) (timing : Timing α) :
    (s.perform (.move t.key t.start t.finish timing.duration timing.easing
      timing.now)).actors.get? t.key =
        some ⟨.moving (t.tween timing (s.actors.get? t.key)) timing.now, none⟩ :=
  Table.get?_insert_self _ _ _

theorem get?_perform_move_of_ne (s : Stage κ α ν) {j k : κ} (start finish : ν)
    (duration : Duration) (easing : Easing α) (now : Duration) (h : j ≠ k) :
    (s.perform (.move k start finish duration easing now)).actors.get? j = s.actors.get? j := by
  rw [perform, Table.get?_insert_of_ne _ _ h]

variable [BEq ν]

private theorem get?_apply_self (s : Stage κ α ν) (timing : Timing α) (t : Transition κ ν) :
    (s.apply timing t).actors.get? t.key = t.outcome timing (s.actors.get? t.key) := by
  have held : s.holds t.key = (s.actors.get? t.key).isSome := rfl
  obtain ⟨key, phase, mode, start, finish⟩ := t
  unfold apply cuesFor Transition.cues Transition.outcome
  cases phase <;> cases mode <;> dsimp only
  case updating.immediate =>
    rw [held]
    split
    · rfl
    · exact Table.get?_insert_self _ _ _
  case entering.immediate => exact Table.get?_insert_self _ _ _
  case exiting.immediate => exact Table.get?_erase_self _ _
  case exiting.animated =>
    refine (Table.get?_modify_self _ _ _).trans ?_
    rw [get?_perform_move s ⟨key, .exiting, .animated, start, finish⟩ timing]
    rfl
  all_goals exact get?_perform_move s ⟨key, _, .animated, start, finish⟩ timing

private theorem get?_apply_of_ne (s : Stage κ α ν) (timing : Timing α) (t : Transition κ ν) {k : κ}
    (h : k ≠ t.key) : (s.apply timing t).actors.get? k = s.actors.get? k := by
  obtain ⟨key, phase, mode, start, finish⟩ := t
  unfold apply cuesFor Transition.cues
  cases phase <;> cases mode <;> dsimp only
  case updating.immediate =>
    split
    · rfl
    · exact Table.get?_insert_of_ne _ _ h
  case entering.immediate => exact Table.get?_insert_of_ne _ _ h
  case exiting.immediate => exact Table.get?_erase_of_ne _ h
  case exiting.animated =>
    exact (Table.get?_modify_of_ne _ _ h).trans (get?_perform_move_of_ne s _ _ _ _ _ h)
  all_goals exact get?_perform_move_of_ne s _ _ _ _ _ h

theorem get?_applyAll_of_not_mem (s : Stage κ α ν) (timing : Timing α) {k : κ}
    {ts : List (Transition κ ν)} (h : k ∉ ts.map (·.key)) :
    (s.applyAll timing ts).actors.get? k = s.actors.get? k := by
  induction ts generalizing s with
  | nil => rfl
  | cons t ts ih =>
    rw [List.map_cons, List.mem_cons, not_or] at h
    exact (ih (s.apply timing t) h.2).trans (get?_apply_of_ne s timing t h.1)

/-- Transitions of different elements do not meddle with each other. -/
theorem get?_applyAll_of_mem (s : Stage κ α ν) (timing : Timing α) {t : Transition κ ν}
    {ts : List (Transition κ ν)} (nodup : (ts.map (·.key)).Nodup) (h : t ∈ ts) :
    (s.applyAll timing ts).actors.get? t.key = t.outcome timing (s.actors.get? t.key) := by
  induction ts generalizing s with
  | nil => exact absurd h List.not_mem_nil
  | cons u ts ih =>
    obtain ⟨fresh, nodup⟩ := List.nodup_cons.mp nodup
    rcases List.mem_cons.mp h with rfl | h
    · exact (get?_applyAll_of_not_mem (s.apply timing t) timing fresh).trans
        (get?_apply_self s timing t)
    · refine (ih (s.apply timing u) nodup h).trans ?_
      have other : t.key ≠ u.key := fun same => fresh (List.mem_map.mpr ⟨t, h, same⟩)
      rw [get?_apply_of_ne s timing u other]

end Stage

end TidyTree
