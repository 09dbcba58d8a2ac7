import TidyTree.Proofs.Outline.Requests
import TidyTree.Proofs.View.Window

set_option autoImplicit false
set_option relaxedAutoImplicit false

namespace TidyTree

variable {σ α : Type} [Scalar α]

namespace View

section

variable [PowTwo α] {v : View σ α}

def obeying (v : View σ α) (event : Event α) (now : Duration) (intents : List (Intent α)) :
    View σ α :=
  intents.foldl (fun v intent => v.obey now intent)
    { v with pointer := (v.pointer.handle (v.regions now) event).1 }

theorem handle_eq (attached : v.isDetached = false) (event : Event α) (now : Duration) :
    v.handle event now = (v.obeying event now (v.pointer.handle (v.regions now) event).2,
      (v.pointer.handle (v.regions now) event).2) := if_neg (by simp [attached])

theorem handle_of_detached (detached : v.isDetached = true) (event : Event α) (now : Duration) :
    v.handle event now = (v, []) := if_pos detached

end

/-- The tree of one view is what requests make of the tree of another; where one view has no tree,
the other has none. -/
def HandsOn (v v' : View σ α) : Prop :=
  ∃ requests, v'.tree? = v.tree?.map (·.complyAll requests)

namespace HandsOn

variable {v v' : View σ α}

omit [Scalar α] in
private theorem of_eq (same : v'.mount? = v.mount?) : v.HandsOn v' := by
  refine ⟨[], ?_⟩
  rw [tree?, tree?, same, Option.map_map]
  rfl

omit [Scalar α] in
theorem trans {w : View σ α} (h : v.HandsOn v') (k : v'.HandsOn w) : v.HandsOn w := by
  obtain ⟨first, h⟩ := h
  obtain ⟨second, k⟩ := k
  refine ⟨first ++ second, ?_⟩
  rw [k, h, Option.map_map]
  refine congrArg (v.tree?.map ·) (funext fun t => ?_)
  exact List.foldl_append.symm

private theorem remount (v : View σ α) {f : Mount α → σ → Mount α × σ}
    (h : ∀ m state, ∃ requests, (f m state).1.tree = m.tree.complyAll requests) :
    v.HandsOn (v.remount f) := by
  unfold View.remount
  split
  · exact of_eq rfl
  · next m hm =>
    obtain ⟨requests, same⟩ := h m v.memory
    refine ⟨requests, ?_⟩
    rw [tree?, tree?, hm]
    exact congrArg some same

private theorem relayout (v : View σ α) (now : Duration) : v.HandsOn (v.relayout now) :=
  remount v fun _ _ => ⟨[], rfl⟩

private theorem sync (v : View σ α) (now : Duration) : v.HandsOn (v.sync now) := by
  unfold View.sync
  split
  · exact remount v fun _ _ => ⟨[.drain], rfl⟩
  · exact of_eq rfl

omit [Scalar α] in
private theorem folded (v : View σ α) (how : Fold) (id : NodeId) : v.HandsOn (v.folded how id) := by
  refine ⟨[.fold how id], ?_⟩
  rw [folded_eq, tree?, tree?, Option.map_map, Option.map_map]
  rfl

private theorem toggled (v : View σ α) (id : NodeId) (now : Duration) : v.HandsOn
    (v.toggled id now) := by
  rcases v.toggled_cases id now with same | ⟨_, same⟩
  · exact of_eq (congrArg mount? same)
  · rw [same]
    exact (folded v .toggle id).trans (sync _ now)

private theorem openTooltip (v : View σ α) (id : NodeId) (anchor : Point α) :
    v.HandsOn (v.openTooltip id anchor) := by
  obtain ⟨_, _, same⟩ := v.openTooltip_eq id anchor
  exact of_eq (by rw [same])

private theorem resize (v : View σ α) (size : Size α) (now : Duration) : v.HandsOn
    (v.resize size now) := by
  unfold View.resize
  exact trans (of_eq rfl) (relayout _ now)

private theorem obey (v : View σ α) (now : Duration) (intent : Intent α) : v.HandsOn
    (v.obey now intent) := by
  cases intent with
  | toggle id => exact toggled v id now
  | openTooltip id position => exact openTooltip v id position
  | closeTooltip => exact of_eq rfl
  | pan dx dy => exact of_eq rfl
  | zoom anchor factor => exact of_eq rfl
  | resize size => exact resize v size now

private theorem obeyAll (v : View σ α) (now : Duration) (intents : List (Intent α)) :
    v.HandsOn (intents.foldl (fun v intent => v.obey now intent) v) := by
  induction intents generalizing v with
  | nil => exact of_eq rfl
  | cons intent intents ih => exact (obey v now intent).trans (ih _)

variable [PowTwo α]

theorem obeying (v : View σ α) (event : Event α) (now : Duration) (intents : List (Intent α)) :
    v.HandsOn (v.obeying event now intents) := by
  have pointed : v.HandsOn { v with pointer := (v.pointer.handle (v.regions now) event).1 } :=
    of_eq rfl
  exact pointed.trans (obeyAll _ now intents)

private theorem handle (v : View σ α) (event : Event α) (now : Duration) :
    v.HandsOn (v.handle event now).1 := by
  cases detached : v.isDetached with
  | true =>
    rw [handle_of_detached detached]
    exact of_eq rfl
  | false =>
    rw [handle_eq detached]
    exact obeying v event now _

private theorem step (v : View σ α) {call : Call α} (stays : call.mounts = false) :
    v.HandsOn (v.step call) := by
  cases call with
  | mount tree? now => exact Bool.noConfusion stays
  | fold how id => exact folded v how id
  | drain =>
    refine ⟨[.drain], ?_⟩
    rw [View.step, drainTree, tree?, tree?, Option.map_map, Option.map_map]
    rfl
  | sync now => exact sync v now
  | toggle id now => exact toggled v id now
  | handle event now => exact handle v event now
  | tick now =>
    refine ⟨[], ?_⟩
    rw [View.step, tick, tree?, tree?, Option.map_map, Option.map_map]
    refine congrArg (v.mount?.map ·) (funext fun m => ?_)
    dsimp only [Function.comp_apply]
    split <;> rfl
  | resize size now => exact resize v size now
  | setTheme theme now => exact trans (of_eq rfl) (relayout _ now)
  | openTooltip id anchor => exact openTooltip v id anchor
  | _ => exact of_eq rfl

theorem run (v : View σ α) {calls : List (Call α)} (stays : ∀ call ∈ calls, call.mounts = false) :
    v.HandsOn (v.run calls) := by
  induction calls generalizing v with
  | nil => exact of_eq rfl
  | cons call calls ih =>
    have first := step v (stays call List.mem_cons_self)
    exact first.trans (ih (v.step call) fun call member => stays call (List.mem_cons_of_mem _ member))

end HandsOn

end View

end TidyTree
