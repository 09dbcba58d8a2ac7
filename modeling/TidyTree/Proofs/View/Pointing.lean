import TidyTree.Proofs.Pointer.Gestures
import TidyTree.Proofs.View.Run
import TidyTree.Scalar.Exact

set_option autoImplicit false
set_option relaxedAutoImplicit false

namespace TidyTree

namespace Pointer

theorem handle_up [PowTwo Rat] {p : Pointer Rat} (near : 0 ≤ p.clickDistance)
    (disarmed : p.listener = .disarmed) {position : Point Rat} {id : NodeId}
    (pressed : p.press? = some ⟨position, position, .node id, false⟩) (regions : Regions Rat) :
    (p.handle regions (.up .primary position)).2 = [.toggle id] := by
  have still : position.isBeyond position p.clickDistance = false := by
    rw [Point.isBeyond, sub_self, sub_self]
    refine Bool.not_eq_false' _ |>.mpr (decide_eq_true ⟨near, ?_⟩)
    rw [Scalar.Exact.normSq, mul_zero, add_zero]
    exact mul_self_nonneg _
  show (p.released position).2 = [.toggle id]
  rw [released, pressed]
  dsimp only
  rw [still, Bool.false_or, if_neg Bool.false_ne_true, click, disarmed]
  rfl

end Pointer

variable {σ α : Type}

def Intent.occurrence? : Intent α → Option (Occurrence α)
  | closeTooltip => some .tooltipClosed
  | _ => none

variable [Scalar α] [PowTwo α]

namespace View

theorem pointer_obey (v : View σ α) (now : Duration) (intent : Intent α) :
    (v.obey now intent).pointer = v.pointer.after intent.occurrence?.toList := by
  cases intent with
  | toggle id =>
    obtain ⟨_, _, _, same⟩ := v.toggled_eq id now
    rw [obey, same]
    rfl
  | openTooltip id position =>
    obtain ⟨_, _, same⟩ := v.openTooltip_eq id position
    rw [obey, same]
    rfl
  | resize size =>
    obtain ⟨_, _, _, same⟩ := v.resize_eq size now
    rw [obey, same]
    rfl
  | _ => rfl

private theorem pointer_obeyAll (v : View σ α) (now : Duration) (intents : List (Intent α)) :
    (intents.foldl (fun v intent => v.obey now intent) v).pointer =
      v.pointer.after (intents.filterMap Intent.occurrence?) := by
  induction intents generalizing v with
  | nil => rfl
  | cons intent intents ih =>
    rw [List.foldl_cons, ih, pointer_obey, ← Pointer.after_append, List.filterMap_cons]
    cases intent.occurrence? <;> rfl

def happens (v : View σ α) : Call α → List (Occurrence α)
  | .mount _ _ => [.tooltipClosed]
  | .handle event now =>
    if v.isDetached then []
    else .event (v.regions now) event ::
      (v.pointer.handle (v.regions now) event).2.filterMap Intent.occurrence?
  | .closeTooltip => [.tooltipClosed]
  | .detach => [.detach]
  | _ => []

def history (v : View σ α) : List (Call α) → List (Occurrence α)
  | [] => []
  | call :: calls => v.happens call ++ (v.step call).history calls

theorem pointer_step (v : View σ α) (call : Call α) :
    (v.step call).pointer = v.pointer.after (v.happens call) := by
  cases call with
  | mount tree? now => cases tree? <;> rfl
  | fold how id =>
    rw [step, folded_eq]
    rfl
  | sync now =>
    obtain ⟨_, _, _, same⟩ := v.sync_eq now
    rw [step, same]
    rfl
  | toggle id now => exact v.pointer_obey now (.toggle id)
  | handle event now =>
    show (v.handle event now).1.pointer = _
    unfold handle happens
    split
    · rfl
    · exact pointer_obeyAll _ now _
  | resize size now => exact v.pointer_obey now (.resize size)
  | setTheme theme now =>
    obtain ⟨_, _, _, same⟩ := v.setTheme_eq theme now
    rw [step, same]
    rfl
  | openTooltip id anchor => exact v.pointer_obey .zero (.openTooltip id anchor)
  | _ => rfl

private theorem pointer_run (v : View σ α) (calls : List (Call α)) :
    (v.run calls).pointer = v.pointer.after (v.history calls) := by
  induction calls generalizing v with
  | nil => rfl
  | cons call calls ih =>
    rw [history, Pointer.after_append, ← pointer_step]
    exact ih (v.step call)

theorem recounts_of_run (settings : Settings α) (metrics : Metrics σ α) (memory : σ)
    (calls : List (Call α)) :
    ((ofSettings settings metrics memory).run calls).pointer.Recounts settings.clickDistance
      ((ofSettings settings metrics memory).history calls) := by
  rw [pointer_run]
  exact Pointer.recounts_after settings.clickDistance settings.zoomRequiresCtrl _

end View

end TidyTree
