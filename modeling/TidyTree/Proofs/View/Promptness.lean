import TidyTree.Proofs.View.Run

set_option autoImplicit false
set_option relaxedAutoImplicit false

namespace TidyTree

/-- A call of `sync` comes between every fold and the next call that lays the tree out anew, and
before such a call when a fold waits for it already. -/
def Call.syncsInTime {α : Type} (waiting : Bool) : List (Call α) → Bool
  | [] => true
  | .fold _ _ :: calls => syncsInTime true calls
  | .sync _ :: calls => syncsInTime false calls
  | call :: calls => !(waiting && call.relaysOut) && syncsInTime waiting calls

namespace Call

variable {α : Type}

private theorem syncsInTime_cons {call : Call α} (drawn : ∀ how id, call ≠ .fold how id)
    (other : ∀ now, call ≠ .sync now) (waiting : Bool) (calls : List (Call α)) :
    syncsInTime waiting (call :: calls) =
      (!(waiting && call.relaysOut) && syncsInTime waiting calls) := by
  cases call with
  | fold how id => exact absurd rfl (drawn how id)
  | sync now => exact absurd rfl (other now)
  | _ => rfl

private theorem relaysOut_of_isAbrupt {call : Call α} (abrupt : call.isAbrupt = true)
    (kept : call ≠ .drain) : call.relaysOut = true := by
  cases call with
  | drain => exact absurd rfl kept
  | _ => exact abrupt

end Call

variable {σ α : Type} [Scalar α]

namespace View

private theorem isDetached_obey (v : View σ α) (now : Duration) (intent : Intent α) :
    (v.obey now intent).isDetached = v.isDetached := by
  cases intent with
  | toggle id =>
    obtain ⟨_, _, _, same⟩ := v.toggled_eq id now
    rw [obey, same]
  | openTooltip id position =>
    obtain ⟨_, _, same⟩ := v.openTooltip_eq id position
    rw [obey, same]
  | resize size =>
    obtain ⟨_, _, _, same⟩ := v.resize_eq size now
    rw [obey, same]
  | _ => rfl

private theorem isDetached_obeyAll (v : View σ α) (now : Duration) (intents : List (Intent α)) :
    (intents.foldl (fun v intent => v.obey now intent) v).isDetached = v.isDetached := by
  induction intents generalizing v with
  | nil => rfl
  | cons intent intents ih => exact (ih (v.obey now intent)).trans (v.isDetached_obey now intent)

theorem isDetached_step [PowTwo α] {v : View σ α} (attached : v.isDetached = false)
    {call : Call α} (stays : call ≠ .detach) : (v.step call).isDetached = false := by
  cases call with
  | mount tree? now => cases tree? <;> rfl
  | fold how id =>
    rw [step, folded_eq]
    exact attached
  | sync now =>
    obtain ⟨_, _, _, same⟩ := v.sync_eq now
    rw [step, same]
    exact attached
  | toggle id now => exact (v.isDetached_obey now (.toggle id)).trans attached
  | handle event now =>
    show (v.handle event now).1.isDetached = false
    rw [handle, attached, if_neg (by simp)]
    exact isDetached_obeyAll _ now _
  | resize size now => exact (v.isDetached_obey now (.resize size)).trans attached
  | setTheme theme now =>
    obtain ⟨_, _, _, same⟩ := v.setTheme_eq theme now
    rw [step, same]
    exact attached
  | openTooltip id anchor => exact (v.isDetached_obey .zero (.openTooltip id anchor)).trans attached
  | detach => exact absurd rfl stays
  | _ => exact attached

private theorem isTold_remount {v : View σ α} {f : Mount α → σ → Mount α × σ}
    (told : ∀ m ∈ v.mount?, ∀ state, (f m state).1.tree.feed = []) : (v.remount f).IsTold := by
  intro m' hm'
  unfold remount at hm'
  cases hm : v.mount? with
  | none => simp [hm] at hm'
  | some m =>
    simp only [hm] at hm'
    obtain rfl := Option.mem_some.mp hm'
    exact told m hm v.memory

private theorem isTold_sync {v : View σ α} (attached : v.isDetached = false) (now : Duration) :
    (v.sync now).IsTold := by
  unfold sync
  split
  · exact isTold_remount fun _ _ _ => rfl
  · next silent =>
    intro m hm
    simpa [hasNews, tree?, attached, Option.mem_def.mp hm] using silent

private theorem IsTold.toggled {v : View σ α} (h : v.IsTold) (id : NodeId) (now : Duration) :
    (v.toggled id now).IsTold := by
  rcases v.toggled_cases id now with same | ⟨attached, same⟩
  · rw [same]
    exact h
  · rw [same]
    refine isTold_sync ?_ now
    rw [folded_eq]
    exact attached

private theorem IsTold.relayout {v : View σ α} (h : v.IsTold) (now : Duration) :
    (v.relayout now).IsTold :=
  isTold_remount fun m hm _ => h m hm

private theorem IsTold.resize {v : View σ α} (h : v.IsTold) (size : Size α) (now : Duration) :
    (v.resize size now).IsTold := by
  have resized : IsTold { v with
      viewport := v.viewport.resize (size.orElse v.settings.window.container) } := h
  exact resized.relayout now

private theorem IsTold.openTooltip {v : View σ α} (h : v.IsTold) (id : NodeId) (anchor : Point α) :
    (v.openTooltip id anchor).IsTold := by
  unfold View.openTooltip
  split
  · exact h
  · exact h

private theorem IsTold.obeyAll {v : View σ α} (h : v.IsTold) (now : Duration)
    (intents : List (Intent α)) :
    (intents.foldl (fun v intent => v.obey now intent) v).IsTold := by
  induction intents generalizing v with
  | nil => exact h
  | cons intent intents ih =>
    have obeyed : (v.obey now intent).IsTold := by
      cases intent with
      | toggle id => exact h.toggled id now
      | openTooltip id position => exact h.openTooltip id position
      | resize size => exact h.resize size now
      | _ => exact h
    exact ih obeyed

private theorem IsTold.step [PowTwo α] {v : View σ α} (h : v.IsTold)
    (attached : v.isDetached = false)
    {call : Call α} (drawn : ∀ how id, call ≠ .fold how id) : (v.step call).IsTold := by
  cases call with
  | mount tree? now =>
    cases tree? with
    | none => exact fun m hm => absurd hm (by simp [View.step, View.mount])
    | some t =>
      intro m hm
      obtain rfl := Option.mem_some.mp hm
      rfl
  | fold how id => exact absurd rfl (drawn how id)
  | drain =>
    intro m hm
    obtain ⟨old, _, rfl⟩ := Option.map_eq_some_iff.mp hm
    rfl
  | sync now => exact isTold_sync attached now
  | toggle id now => exact h.toggled id now
  | handle event now =>
    show (v.handle event now).1.IsTold
    have heard : IsTold { v with pointer := (v.pointer.handle (v.regions now) event).1 } := h
    rw [View.handle, if_neg (by simp [attached])]
    exact heard.obeyAll now _
  | tick now =>
    intro m hm
    obtain ⟨old, hold, rfl⟩ := Option.map_eq_some_iff.mp hm
    have told := h old hold
    dsimp only
    rw [attached]
    exact told
  | resize size now => exact h.resize size now
  | setTheme theme now =>
    have themed : IsTold { v with theme } := h
    exact themed.relayout now
  | openTooltip id anchor => exact h.openTooltip id anchor
  | _ => exact h

theorem runsPromptly_of_syncsInTime [PowTwo α] (settings : Settings α) (metrics : Metrics σ α)
    (memory : σ) {calls : List (Call α)} (attached : .detach ∉ calls) (undrained : .drain ∉ calls)
    (synced : Call.syncsInTime false calls = true) :
    (ofSettings settings metrics memory).RunsPromptly calls := by
  -- While no fold waits to be synchronized, no change waits to be drawn.
  have general : ∀ (v : View σ α) (waiting : Bool), v.isDetached = false →
      (waiting = false → v.IsTold) → Call.syncsInTime waiting calls = true →
        v.RunsPromptly calls := by
    clear synced
    induction calls with
    | nil => exact fun _ _ _ _ _ => trivial
    | cons call calls ih =>
      intro v waiting stays told synced
      rw [List.mem_cons, not_or] at attached undrained
      have kept := isDetached_step stays fun same => attached.1 same.symm
      have next := ih attached.2 undrained.2 (v.step call)
      by_cases folding : ∃ how id, call = .fold how id
      · obtain ⟨how, id, rfl⟩ := folding
        exact ⟨fun abrupt => absurd abrupt (by simp [Call.isAbrupt, Call.relaysOut]),
          next true kept (by simp) synced⟩
      by_cases syncing : ∃ now, call = .sync now
      · obtain ⟨now, rfl⟩ := syncing
        exact ⟨fun abrupt => absurd abrupt (by simp [Call.isAbrupt, Call.relaysOut]),
          next false kept (fun _ => isTold_sync stays now) synced⟩
      have drawn : ∀ how id, call ≠ .fold how id := fun how id same => folding ⟨how, id, same⟩
      rw [Call.syncsInTime_cons drawn fun now same => syncing ⟨now, same⟩, Bool.and_eq_true]
        at synced
      refine ⟨fun abrupt => ?_,
        next waiting kept (fun none => (told none).step stays drawn) synced.2⟩
      have relaysOut := Call.relaysOut_of_isAbrupt abrupt fun same => undrained.1 same.symm
      have free := synced.1
      rw [relaysOut, Bool.and_true, Bool.not_eq_true'] at free
      exact told free
  exact general _ false rfl (fun _ m hm => absurd hm (by simp [ofSettings])) synced

end View

end TidyTree
