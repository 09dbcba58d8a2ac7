import TidyTree.Proofs.Scalar.Laws

set_option autoImplicit false
set_option relaxedAutoImplicit false

namespace TidyTree

namespace Scalar

theorem toUnit_of_mem {t : Rat} (low : 0 ≤ t) (high : t ≤ 1) : toUnit t = t := by
  rw [toUnit, if_neg (not_lt.mpr low), if_neg (not_lt.mpr high)]

end Scalar

namespace Easing

/-- Time begins at zero, does not turn back, and has not arrived at one before the end. -/
structure IsCourse (easing : Easing Rat) : Prop where
  start : easing 0 = 0
  mono : ∀ s t, 0 ≤ s → s ≤ t → t ≤ 1 → easing s ≤ easing t
  lt_one : ∀ t, 0 ≤ t → t < 1 → easing t < 1

theorem IsCourse.nonneg {easing : Easing Rat} (h : easing.IsCourse) {t : Rat} (low : 0 ≤ t)
    (high : t ≤ 1) : 0 ≤ easing t := by
  have begun := h.mono 0 t le_rfl low high
  rwa [h.start] at begun

theorem isCourse_linear : IsCourse linear where
  start := Scalar.toUnit_of_mem le_rfl zero_le_one
  mono s t low le high := by
    rw [linear, Scalar.toUnit_of_mem low (le.trans high),
      Scalar.toUnit_of_mem (low.trans le) high]
    exact le
  lt_one t low high := by
    rw [linear, Scalar.toUnit_of_mem low high.le]
    exact high

/-- The two halves of the cubic. -/
theorem cubicInOut_eq {t : Rat} (low : 0 ≤ t) (high : t ≤ 1) :
    cubicInOut t = if t < 1 / 2 then 4 * t ^ 3 else 1 - (2 - 2 * t) ^ 3 / 2 := by
  have half : (0.5 : Rat) = 1 / 2 := by norm_num
  have early : (4 * t * t * t : Rat) = 4 * t ^ 3 := by ring
  have late : (1 - (-2 * t + 2) * (-2 * t + 2) * (-2 * t + 2) / 2 : Rat) =
      1 - (2 - 2 * t) ^ 3 / 2 := by ring
  unfold cubicInOut
  dsimp only
  rw [Scalar.toUnit_of_mem low high, ← half, ← early, ← late]

theorem isCourse_cubicInOut : IsCourse cubicInOut where
  start := by
    rw [cubicInOut_eq le_rfl zero_le_one]
    norm_num
  mono s t low le high := by
    rw [cubicInOut_eq low (le.trans high), cubicInOut_eq (low.trans le) high]
    have left : 0 ≤ 2 - 2 * t := by linarith
    split_ifs with hs ht ht
    · exact mul_le_mul_of_nonneg_left (pow_le_pow_left₀ low le 3) (by norm_num)
    · -- The two halves meet in the middle, at one half.
      have before : s ^ 3 ≤ (1 / 2) ^ 3 := pow_le_pow_left₀ low hs.le 3
      have behind : (2 - 2 * t) ^ 3 ≤ 1 ^ 3 := pow_le_pow_left₀ left (by linarith) 3
      linarith
    · exact absurd (lt_of_le_of_lt le ht) hs
    · have less : (2 - 2 * t) ^ 3 ≤ (2 - 2 * s) ^ 3 := pow_le_pow_left₀ left (by linarith) 3
      linarith
  lt_one t low high := by
    rw [cubicInOut_eq low high.le]
    split_ifs with ht
    · have before : t ^ 3 ≤ (1 / 2) ^ 3 := pow_le_pow_left₀ low ht.le 3
      linarith
    · have left : 0 < (2 - 2 * t) ^ 3 := pow_pos (by linarith) 3
      linarith

end Easing

/-- Values that are made of numbers, of which each goes its way by itself. -/
class Composite (ν : Type) [Lerp Rat ν] where
  coordinates : List (ν → Rat)
  ext : ∀ a b : ν, (∀ x ∈ coordinates, x a = x b) → a = b
  lerp_eq : ∀ x ∈ coordinates, ∀ (a b : ν) (t : Rat), x (lerp a b t) = Scalar.lerp (x a) (x b) t

open Composite (coordinates)

instance : Composite Rat where
  coordinates := [id]
  ext _ _ same := same id List.mem_cons_self
  lerp_eq := List.forall_mem_singleton.mpr fun _ _ _ => rfl

instance : Composite (Point Rat) where
  coordinates := [(·.x), (·.y)]
  ext := by
    rintro ⟨x, y⟩ ⟨x', y'⟩ same
    simpa using same
  lerp_eq := by
    intro x hx a b t
    fin_cases hx <;> rfl

instance : Composite (Spot Rat) where
  coordinates := [(·.position.x), (·.position.y), (·.opacity)]
  ext := by
    rintro ⟨⟨x, y⟩, opacity⟩ ⟨⟨x', y'⟩, opacity'⟩ same
    simpa [and_assoc] using same
  lerp_eq := by
    intro x hx a b t
    fin_cases hx <;> rfl

instance : Composite (Strand Rat) where
  coordinates := [(·.source.x), (·.source.y), (·.target.x), (·.target.y), (·.opacity)]
  ext := by
    rintro ⟨⟨sx, sy⟩, ⟨tx, ty⟩, opacity⟩ ⟨⟨sx', sy'⟩, ⟨tx', ty'⟩, opacity'⟩ same
    simpa [and_assoc] using same
  lerp_eq := by
    intro x hx a b t
    fin_cases hx <;> rfl

/-- On a way from one number to another the second place is not before the first, and neither lies
outside. -/
def IsPassed (start first second finish : Rat) : Prop :=
  start ≤ first ∧ first ≤ second ∧ second ≤ finish ∨
    finish ≤ second ∧ second ≤ first ∧ first ≤ start

namespace Scalar

variable {a b s t : Rat}

private theorem lerp_eq (low : 0 ≤ t) (high : t < 1) : Scalar.lerp a b t = a + (b - a) * t := by
  unfold Scalar.lerp
  split_ifs with begun ended
  · rw [le_antisymm begun low, mul_zero, add_zero]
  · exact absurd high (not_lt.mpr ended)
  · rfl

theorem isPassed_lerp (low : 0 ≤ s) (le : s ≤ t) (high : t < 1) :
    IsPassed a (Scalar.lerp a b s) (Scalar.lerp a b t) b := by
  rw [lerp_eq low (le.trans_lt high), lerp_eq (low.trans le) high]
  rcases le_total a b with up | down
  · exact Or.inl ⟨by nlinarith, by nlinarith, by nlinarith⟩
  · exact Or.inr ⟨by nlinarith, by nlinarith, by nlinarith⟩

theorem isPassed_lerp_finish (low : 0 ≤ t) (high : t < 1) : IsPassed a (Scalar.lerp a b t) b b := by
  rcases isPassed_lerp (a := a) (b := b) low le_rfl high with ⟨begun, _, open'⟩ | ⟨open', _, begun⟩
  · exact Or.inl ⟨begun, open', le_rfl⟩
  · exact Or.inr ⟨le_rfl, open', begun⟩

theorem lerp_ne (low : 0 ≤ t) (high : t < 1) (apart : a ≠ b) : Scalar.lerp a b t ≠ b := by
  intro same
  rw [lerp_eq low high] at same
  have open' : 1 - t ≠ 0 := (sub_pos.mpr high).ne'
  have none : (b - a) * (1 - t) = 0 := by linear_combination -same
  rcases mul_eq_zero.mp none with nowhere | closed
  · exact apart (sub_eq_zero.mp nowhere).symm
  · exact open' closed

end Scalar

theorem isPassed_finish (a b : Rat) : IsPassed a b b b := by
  rcases le_total a b with up | down
  · exact Or.inl ⟨up, le_rfl, le_rfl⟩
  · exact Or.inr ⟨le_rfl, le_rfl, down⟩

end TidyTree
