import Mathlib.Data.List.Basic
import TidyTree.Settings.Environment

set_option autoImplicit false
set_option relaxedAutoImplicit false

namespace TidyTree

def Variable.Value (α : Type) : Variable → Type
  | animation => Duration
  | fontFamily => String
  | zoomRequiresCtrl => Bool
  | theme => Theme
  | minScale => α
  | maxScale => α
  | fontSize => α
  | rowSpacing => α
  | minColumnWidth => α

/-- The variables whose fields get their standard values back for a setting. -/
def Setting.putsBack : Setting → List Variable
  | minScale => [.minScale, .maxScale]
  | maxScale => [.minScale, .maxScale]
  | scaleExtent => [.minScale, .maxScale]
  | fontSize => [.fontSize]
  | rowSpacing => [.rowSpacing]
  | minColumnWidth => [.minColumnWidth]
  | animation => []
  | fontFamily => []
  | zoomRequiresCtrl => []
  | theme => []
  | zoomStep => []
  | clickDistance => []

variable {α : Type} [Scalar α]

namespace Settings

def value (s : Settings α) : (v : Variable) → v.Value α
  | .animation => s.animation
  | .minScale => s.window.extent.min
  | .maxScale => s.window.extent.max
  | .fontSize => s.sizing.font.size
  | .fontFamily => s.sizing.font.family
  | .zoomRequiresCtrl => s.zoomRequiresCtrl
  | .theme => s.theme
  | .rowSpacing => s.sizing.rowSpacing
  | .minColumnWidth => s.sizing.minColumnWidth

/-- The standard settings, but for the fields of the variables. -/
def holding (values : (v : Variable) → v.Value α) : Settings α :=
  let sizing : Sizing α := .standard
  let window : Window α := .standard
  { (standard : Settings α) with
    sizing := { sizing with
      font := ⟨values .fontSize, values .fontFamily⟩
      rowSpacing := values .rowSpacing
      minColumnWidth := values .minColumnWidth }
    animation := values .animation
    window := { window with extent := ⟨values .minScale, values .maxScale⟩ }
    zoomRequiresCtrl := values .zoomRequiresCtrl
    theme := values .theme }

/-- Only in the fields of variables the settings differ from the standard ones. -/
def IsOverriding (s : Settings α) : Prop := s = holding s.value

theorem isOverriding_standard : (standard : Settings α).IsOverriding := rfl

private theorem value_restore (s : Settings α) (setting : Setting) (v : Variable) :
    (s.restore setting).value v = if v ∈ setting.putsBack then standard.value v else s.value v := by
  cases setting <;> cases v <;> rfl

private theorem IsOverriding.restore {s : Settings α} (h : s.IsOverriding) (setting : Setting) :
    (s.restore setting).IsOverriding := by
  rw [h]
  cases setting <;> rfl

theorem value_restoreAll (s : Settings α) (ps : List (Problem α)) (v : Variable) :
    (ps.foldl (fun s p => s.restore p.setting) s).value v =
      if ∃ p ∈ ps, v ∈ p.setting.putsBack then standard.value v else s.value v := by
  induction ps generalizing s with
  | nil => simp
  | cons p ps ih =>
    rw [List.foldl_cons, ih, value_restore]
    simp only [List.exists_mem_cons_iff]
    split <;> split <;> simp_all

theorem isOverriding_restoreAll {s : Settings α} (h : s.IsOverriding) (ps : List (Problem α)) :
    (ps.foldl (fun s p => s.restore p.setting) s).IsOverriding := by
  induction ps generalizing s with
  | nil => exact h
  | cons p ps ih => exact ih (h.restore p.setting)

def length? (s : Settings α) : Setting → Option α
  | .minScale => some s.window.extent.min
  | .maxScale => some s.window.extent.max
  | .fontSize => some s.sizing.font.size
  | .rowSpacing => some s.sizing.rowSpacing
  | .minColumnWidth => some s.sizing.minColumnWidth
  | .zoomStep => some s.window.zoomStep
  | _ => none

def Has (s : Settings α) : Problem α → Prop
  | .unreadable _ _ => False
  | .notPositive setting x => s.length? setting = some x ∧ Scalar.isPositive x = false
  | .invertedExtent extent => extent = s.window.extent ∧ extent.min > extent.max
  | .closeRows rowSpacing => rowSpacing = s.sizing.rowSpacing ∧ s.hasCloseRows = true
  | .noClickDistance x => x = s.clickDistance ∧ s.hasNoClickDistance = true

private theorem mem_needPositive {setting : Setting} {x : α} {p : Problem α} :
    p ∈ needPositive setting x ↔ p = .notPositive setting x ∧ Scalar.isPositive x = false := by
  unfold needPositive
  split <;> simp_all

theorem mem_problems_iff {s : Settings α} {p : Problem α} : p ∈ s.problems ↔ s.Has p := by
  simp only [problems, List.mem_append, mem_needPositive, List.mem_ite_nil_right,
    List.mem_singleton]
  constructor
  · rintro ((((((((⟨rfl, bad⟩ | ⟨rfl, bad⟩) | ⟨bad, rfl⟩) | ⟨rfl, bad⟩) | ⟨rfl, bad⟩) | ⟨rfl, bad⟩) |
      ⟨rfl, bad⟩) | ⟨bad, rfl⟩) | ⟨bad, rfl⟩) <;> exact ⟨rfl, bad⟩
  · intro has
    cases p with
    | unreadable setting text => exact has.elim
    | notPositive setting x =>
      obtain ⟨field, low⟩ := has
      cases setting <;> simp only [length?, Option.some.injEq, reduceCtorEq] at field <;>
        simp [field, low]
    | invertedExtent extent =>
      obtain ⟨rfl, inverted⟩ := has
      simp [inverted]
    | closeRows rowSpacing =>
      obtain ⟨rfl, close⟩ := has
      simp [close]
    | noClickDistance x =>
      obtain ⟨rfl, none⟩ := has
      simp [none]

private theorem length?_congr {f g : (v : Variable) → v.Value α} {setting : Setting}
    (same : ∀ v ∈ setting.putsBack, f v = g v) :
    (holding f).length? setting = (holding g).length? setting := by
  cases setting with
  | minScale => exact congrArg some (same .minScale (by decide))
  | maxScale => exact congrArg some (same .maxScale (by decide))
  | fontSize => exact congrArg some (same .fontSize (by decide))
  | rowSpacing => exact congrArg some (same .rowSpacing (by decide))
  | minColumnWidth => exact congrArg some (same .minColumnWidth (by decide))
  | _ => rfl

private theorem Has.congr {s t : Settings α} (hs : s.IsOverriding) (ht : t.IsOverriding)
    {p : Problem α} (same : ∀ v ∈ p.setting.putsBack, s.value v = t.value v)
    (h : s.Has p) : t.Has p := by
  rw [hs] at h
  rw [ht]
  generalize s.value = f at *
  generalize t.value = g at *
  cases p with
  | unreadable setting text => exact h
  | notPositive setting x => exact ⟨(length?_congr same).symm.trans h.1, h.2⟩
  | invertedExtent extent =>
    obtain ⟨rfl, inverted⟩ := h
    have min : f .minScale = g .minScale := same .minScale List.mem_cons_self
    have max : f .maxScale = g .maxScale := same .maxScale (List.mem_cons_of_mem _ List.mem_cons_self)
    refine ⟨?_, inverted⟩
    show (⟨f .minScale, f .maxScale⟩ : ScaleExtent α) = ⟨g .minScale, g .maxScale⟩
    rw [min, max]
  | closeRows rowSpacing =>
    obtain ⟨rfl, close⟩ := h
    have spacing : (holding f).sizing.rowSpacing = (holding g).sizing.rowSpacing :=
      same .rowSpacing List.mem_cons_self
    refine ⟨spacing, ?_⟩
    rw [hasCloseRows, ← spacing]
    exact close
  | noClickDistance x => exact h

end Settings

private theorem Setting.putsBack_eq {a b : Setting} {v : Variable} (ha : v ∈ a.putsBack)
    (hb : v ∈ b.putsBack) : a.putsBack = b.putsBack := by
  cases a <;> cases b <;>
    first | rfl | (exfalso; revert v; decide)

namespace Settings

private theorem not_has_standard (stock : (standard : Settings α).isValid = true) (p : Problem α) :
    ¬ (standard : Settings α).Has p := by
  rw [isValid, List.isEmpty_iff] at stock
  rw [← mem_problems_iff, stock]
  exact List.not_mem_nil

/-- When what has a problem is put back, no problem is left. -/
theorem isValid_restored (stock : (standard : Settings α).isValid = true) {s : Settings α}
    (h : s.IsOverriding) : s.restored.isValid = true := by
  have restored : s.restored.IsOverriding := isOverriding_restoreAll h s.problems
  rw [isValid, List.isEmpty_iff, List.eq_nil_iff_forall_not_mem]
  intro p mem
  rw [mem_problems_iff] at mem
  by_cases back : ∃ q ∈ s.problems, ∃ v ∈ p.setting.putsBack, v ∈ q.setting.putsBack
  · obtain ⟨q, hq, v, own, other⟩ := back
    refine not_has_standard stock p (mem.congr restored isOverriding_standard fun w hw => ?_)
    rw [Setting.putsBack_eq own other] at hw
    rw [Settings.restored, value_restoreAll, if_pos ⟨q, hq, hw⟩]
  · have kept : s.Has p := by
      refine mem.congr restored h fun w hw => ?_
      rw [Settings.restored, value_restoreAll, if_neg]
      rintro ⟨q, hq, hw'⟩
      exact back ⟨q, hq, w, hw, hw'⟩
    -- The problem was there before, so nothing is put back for it, and the standard has it too.
    refine not_has_standard stock p (kept.congr h isOverriding_standard fun w hw => ?_)
    exact absurd ⟨p, mem_problems_iff.mpr kept, w, hw, hw⟩ back

end Settings

end TidyTree
