import TidyTree.Proofs.Scalar.Laws
import TidyTree.Settings.Check

set_option autoImplicit false
set_option relaxedAutoImplicit false

namespace TidyTree

/-- Values that are numbers are ordered, and finite values are numbers. -/
class Scalar.LawfulOrder (α : Type) [Scalar α] : Prop where
  isNaN_of_isFinite {x : α} : Scalar.isFinite x = true → Scalar.isNaN x = false
  le_of_lt {x y : α} : x < y → x ≤ y
  le_of_not_lt {x y : α} : Scalar.isNaN x = false → Scalar.isNaN y = false → ¬ y < x → x ≤ y

/-- Only values that are numbers are in order. -/
class Scalar.LawfulLE (α : Type) [Scalar α] : Prop where
  numbers_of_le {x y : α} : x ≤ y → Scalar.isNaN x = false ∧ Scalar.isNaN y = false

namespace Scalar

instance : LawfulOrder Rat where
  isNaN_of_isFinite {x} _ := by
    rw [isNaN, beq_self_eq_true]
    rfl
  le_of_lt h := h.le
  le_of_not_lt _ _ h := not_lt.mp h

open Float.Model

private theorem compare_swap {a b : UnpackedFloat} (ha : a ≠ .notANumber) (hb : b ≠ .notANumber) :
    ∃ o, a.compare b = some o ∧ b.compare a = some o.swap := by
  cases a with
  | notANumber => exact absurd rfl ha
  | infinity s =>
    cases b with
    | notANumber => exact absurd rfl hb
    | infinity t => exact ⟨_, rfl, by cases s <;> cases t <;> rfl⟩
    | zero t => cases s <;> exact ⟨_, rfl, rfl⟩
    | finite t => cases s <;> exact ⟨_, rfl, rfl⟩
  | zero s =>
    cases b with
    | notANumber => exact absurd rfl hb
    | infinity t => cases t <;> exact ⟨_, rfl, rfl⟩
    | zero t => exact ⟨_, rfl, rfl⟩
    | finite t => cases t <;> exact ⟨_, rfl, rfl⟩
  | finite s m e pos =>
    cases b with
    | notANumber => exact absurd rfl hb
    | infinity t => cases s <;> cases t <;> exact ⟨_, rfl, rfl⟩
    | zero t => cases s <;> exact ⟨_, rfl, rfl⟩
    | finite t n f pos' =>
      have exponents : compare f e = (compare e f).swap := Std.OrientedCmp.eq_swap
      have mantissas : compare n m = (compare m n).swap := Std.OrientedCmp.eq_swap
      cases s <;> cases t
      · refine ⟨_, rfl, ?_⟩
        simp only [UnpackedFloat.compare, exponents, mantissas, Ordering.swap_then]
      · exact ⟨_, rfl, rfl⟩
      · exact ⟨_, rfl, rfl⟩
      · refine ⟨_, rfl, ?_⟩
        simp only [UnpackedFloat.compare, exponents, mantissas, Ordering.swap_then]

private theorem float_lt_iff (x y : Float) :
    x < y ↔ x.toModel.unpack.compare y.toModel.unpack = some .lt := by
  show decide (Float.Model.UnpackedFloat.lt _ _ = true) = true ↔ _
  rw [decide_eq_true_eq, UnpackedFloat.lt, beq_iff_eq]

private theorem float_le_iff (x y : Float) :
    x ≤ y ↔ (x.toModel.unpack.compare y.toModel.unpack).any Ordering.isLE = true := by
  show decide (Float.Model.UnpackedFloat.le _ _ = true) = true ↔ _
  rw [decide_eq_true_eq, UnpackedFloat.le]

private theorem float_isNaN_eq_false_iff (x : Float) :
    isNaN x = false ↔ x.toModel.unpack ≠ .notANumber := by
  rw [isNaN, Bool.not_eq_false', float_beq_iff, compare_eq_iff]
  constructor
  · rintro (⟨_, number⟩ | ⟨_, _, zero, _⟩)
    · exact number
    · rw [zero]
      exact UnpackedFloat.noConfusion
  · exact fun number => Or.inl ⟨rfl, number⟩

instance : LawfulOrder Float where
  isNaN_of_isFinite {x} h := by
    rw [float_isNaN_eq_false_iff]
    have finite : x.toModel.unpack.isFinite = true := h
    intro notANumber
    rw [notANumber] at finite
    exact absurd finite (by simp [UnpackedFloat.isFinite])
  le_of_lt {x y} h := by
    rw [float_lt_iff] at h
    rw [float_le_iff, h]
    rfl
  le_of_not_lt {x y} hx hy h := by
    rw [float_isNaN_eq_false_iff] at hx hy
    rw [float_lt_iff] at h
    obtain ⟨o, forward, backward⟩ := compare_swap hy hx
    rw [float_le_iff, backward, Option.any_some]
    rw [forward] at h
    cases o with
    | lt => exact absurd rfl h
    | eq => rfl
    | gt => rfl

instance : LawfulLE Rat where
  numbers_of_le _ := ⟨LawfulOrder.isNaN_of_isFinite rfl, LawfulOrder.isNaN_of_isFinite rfl⟩

instance : LawfulLE Float where
  numbers_of_le {x y} h := by
    rw [float_isNaN_eq_false_iff, float_isNaN_eq_false_iff]
    rw [float_le_iff] at h
    constructor
    · intro notANumber
      rw [notANumber] at h
      exact absurd h (by simp [UnpackedFloat.compare])
    · intro notANumber
      rw [notANumber] at h
      exact absurd h (by cases x.toModel.unpack <;> simp [UnpackedFloat.compare])

inductive IsPos : UnpackedFloat → Prop
  | infinity : IsPos (.infinity .positive)
  | finite {m : Nat} {e : Int} (pos : 0 < m) : IsPos (.finite .positive m e pos)

private theorem float_pos_iff (x : Float) : 0 < x ↔ IsPos x.toModel.unpack := by
  have zero : (0 : Float).toModel.unpack = .zero .positive := by rfl
  rw [float_lt_iff, zero]
  generalize x.toModel.unpack = a
  constructor
  · intro less
    cases a with
    | infinity s =>
      cases s with
      | negative => exact absurd less (by simp [UnpackedFloat.compare])
      | positive => exact .infinity
    | notANumber => exact absurd less (by simp [UnpackedFloat.compare])
    | zero s => exact absurd less (by simp [UnpackedFloat.compare])
    | finite s m e pos =>
      cases s with
      | negative => exact absurd less (by simp [UnpackedFloat.compare])
      | positive => exact .finite pos
  · intro pos
    cases pos <;> rfl

theorem float_lt_of_not_pos {x y : Float} (number : isNaN y = false) (low : ¬ 0 < y)
    (pos : 0 < x) : y < x := by
  rw [float_isNaN_eq_false_iff] at number
  rw [float_pos_iff] at low pos
  rw [float_lt_iff]
  generalize x.toModel.unpack = a at *
  generalize y.toModel.unpack = b at *
  cases b with
  | notANumber => exact absurd rfl number
  | zero s => cases pos <;> rfl
  | infinity s =>
    cases s with
    | negative => cases pos <;> rfl
    | positive => exact absurd .infinity low
  | finite s m e some =>
    cases s with
    | negative => cases pos <;> rfl
    | positive => exact absurd (.finite some) low

theorem float_not_lt_of_lt {x y : Float} (less : x < y) : ¬ y < x := by
  intro back
  rw [float_lt_iff] at less back
  have hx : x.toModel.unpack ≠ .notANumber := by
    intro same
    rw [same] at less
    exact absurd less (by simp [UnpackedFloat.compare])
  have hy : y.toModel.unpack ≠ .notANumber := by
    intro same
    rw [same] at back
    exact absurd back (by simp [UnpackedFloat.compare])
  obtain ⟨o, forward, backward⟩ := compare_swap hx hy
  obtain rfl : Ordering.lt = o := Option.some.inj (less.symm.trans forward)
  exact absurd (back.symm.trans backward) (by simp)

section

variable {α : Type} [Scalar α] [LawfulOrder α] {x y : α}

private theorem le_self (h : isNaN x = false) : x ≤ x := by
  by_cases less : x < x
  · exact LawfulOrder.le_of_lt less
  · exact LawfulOrder.le_of_not_lt h h less

private theorem snd_le_max (x : α) (hy : isNaN y = false) :
    y ≤ max x y ∧ isNaN (max x y) = false := by
  unfold max
  cases hx : isNaN x with
  | true => exact ⟨le_self hy, hy⟩
  | false =>
    rw [hy, if_neg Bool.false_ne_true, if_neg Bool.false_ne_true]
    split
    · next less => exact ⟨LawfulOrder.le_of_lt less, hx⟩
    · exact ⟨le_self hy, hy⟩

private theorem min_le_snd (hx : isNaN x = false) (hy : isNaN y = false) : min x y ≤ y := by
  unfold min
  rw [hx, hy, if_neg Bool.false_ne_true, if_neg Bool.false_ne_true]
  split
  · next less => exact LawfulOrder.le_of_lt less
  · exact le_self hy

omit [LawfulOrder α] in
private theorem le_min_of_le {z : α} (hx : z ≤ x) (hy : z ≤ y) : z ≤ min x y := by
  unfold min
  repeat' split
  all_goals assumption

end

end Scalar

variable {α : Type} [Scalar α] [Scalar.LawfulOrder α]

/-- The ends of the extent are numbers in their order. -/
structure ScaleExtent.IsOrdered (e : ScaleExtent α) : Prop where
  min : Scalar.isNaN e.min = false
  max : Scalar.isNaN e.max = false
  le : e.min ≤ e.max

omit [Scalar.LawfulOrder α] in
theorem ScaleExtent.isOrdered_of_le [Scalar.LawfulLE α] {e : ScaleExtent α} (h : e.min ≤ e.max) :
    e.IsOrdered :=
  ⟨(Scalar.LawfulLE.numbers_of_le h).1, (Scalar.LawfulLE.numbers_of_le h).2, h⟩

/-- A clamped scale lies in the extent. -/
theorem ScaleExtent.IsOrdered.contains_clamp {e : ScaleExtent α} (h : e.IsOrdered) (scale : α) :
    e.contains (e.clamp scale) = true := by
  obtain ⟨x, number, least, clamped⟩ : ∃ x, Scalar.isNaN x = false ∧ e.min ≤ x ∧
      e.clamp scale = Scalar.min x e.max := by
    unfold clamp
    split
    · exact ⟨e.min, h.min, Scalar.le_self h.min, rfl⟩
    · obtain ⟨least, number⟩ := Scalar.snd_le_max scale h.min
      exact ⟨_, number, least, rfl⟩
  rw [clamped, contains, Bool.and_eq_true]
  exact ⟨decide_eq_true (Scalar.le_min_of_le least h.le),
    decide_eq_true (Scalar.min_le_snd number h.max)⟩

/-- The extent of settings without problems is in order, and its scales are positive. -/
theorem Settings.isOrdered_of_isValid {s : Settings α} (h : s.isValid = true) :
    s.window.extent.IsOrdered ∧ 0 < s.window.extent.min := by
  simp only [isValid, problems, List.isEmpty_iff, List.append_eq_nil_iff, needPositive,
    Scalar.isPositive, ite_eq_left_iff, ite_eq_right_iff, imp_false, not_not, Bool.and_eq_true,
    decide_eq_true_eq, List.cons_ne_nil] at h
  obtain ⟨⟨⟨⟨⟨⟨⟨⟨least, most⟩, inverted⟩, _⟩, _⟩, _⟩, _⟩, _⟩, _⟩ := h
  have min := Scalar.LawfulOrder.isNaN_of_isFinite least.1
  have max := Scalar.LawfulOrder.isNaN_of_isFinite most.1
  exact ⟨⟨min, max, Scalar.LawfulOrder.le_of_not_lt min max inverted⟩, least.2⟩

end TidyTree
