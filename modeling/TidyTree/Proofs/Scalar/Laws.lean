import Mathlib
import TidyTree.Motion.Duration
import TidyTree.Motion.Visual
import TidyTree.Scalar.Binary64
import TidyTree.Scalar.Exact

set_option autoImplicit false
set_option relaxedAutoImplicit false

namespace TidyTree

/-- At the start of every duration a way that is slow at both ends is not begun. -/
class Scalar.LawfulStart (α : Type) [Scalar α] : Prop where
  cubicInOut_start : ∀ d : Duration, 0 < d.nanos →
    Easing.cubicInOut (Scalar.toUnit ((Duration.zero.seconds : α) / d.seconds)) ≤ 0

/-- The test for equality is symmetric and transitive, and one equals itself. -/
class Scalar.LawfulEq (α : Type) [Scalar α] : Prop extends PartialEquivBEq α where
  one_beq_one : ((1 : α) == 1) = true

namespace Scalar

instance : LawfulEq Rat where
  symm h := by
    rw [beq_iff_eq] at h ⊢
    exact h.symm
  trans h k := by
    rw [beq_iff_eq] at h k ⊢
    exact h.trans k
  one_beq_one := by decide +kernel

instance : LawfulStart Rat where
  cubicInOut_start d _ := by
    have start : (Duration.zero.seconds : Rat) = 0 := by decide +kernel
    rw [start, zero_div]
    decide +kernel

open Float.Model in
/-- Two doubles compare as equal when they are the same number or zeros of either sign. -/
theorem compare_eq_iff (a b : UnpackedFloat) :
    a.compare b = some .eq ↔
      (a = b ∧ a ≠ .notANumber) ∨ ∃ s t, a = .zero s ∧ b = .zero t := by
  cases a with
  | infinity s =>
    cases b with
    | infinity t => cases s <;> cases t <;> simp [UnpackedFloat.compare] <;> decide
    | _ => cases s <;> simp [UnpackedFloat.compare]
  | notANumber => simp [UnpackedFloat.compare]
  | zero s =>
    cases b with
    | infinity t => cases t <;> simp [UnpackedFloat.compare]
    | finite t => cases t <;> simp [UnpackedFloat.compare]
    | _ => simp [UnpackedFloat.compare]
  | finite s =>
    cases b with
    | infinity t => cases t <;> simp [UnpackedFloat.compare]
    | finite t =>
      cases s <;> cases t <;> simp [UnpackedFloat.compare, Ordering.then_eq_eq, and_comm]
    | _ => cases s <;> simp [UnpackedFloat.compare]

theorem float_beq_iff (x y : Float) :
    (x == y) = true ↔ x.toModel.unpack.compare y.toModel.unpack = some .eq := by
  show (Float.Model.UnpackedFloat.compare _ _ == some .eq) = true ↔ _
  rw [beq_iff_eq]

instance : LawfulEq Float where
  symm {x y} h := by
    rw [float_beq_iff, compare_eq_iff] at h ⊢
    rcases h with ⟨same, number⟩ | ⟨s, t, hx, hy⟩
    · exact Or.inl ⟨same.symm, same ▸ number⟩
    · exact Or.inr ⟨t, s, hy, hx⟩
  trans {x y z} h k := by
    rw [float_beq_iff, compare_eq_iff] at h k ⊢
    rcases h with ⟨same, number⟩ | ⟨s, t, hx, hy⟩
    · exact same ▸ k
    · rcases k with ⟨same, number⟩ | ⟨_, u, _, hz⟩
      · exact Or.inr ⟨s, t, hx, same ▸ hy⟩
      · exact Or.inr ⟨s, u, hx, hz⟩
  one_beq_one := by decide +kernel

end Scalar

variable {α : Type} [Scalar α]

theorem Point.beq_iff (p q : Point α) :
    (p == q) = true ↔ (p.x == q.x) = true ∧ (p.y == q.y) = true := by
  show (p.x == q.x && p.y == q.y) = true ↔ _
  rw [Bool.and_eq_true]

theorem Spot.beq_iff (s t : Spot α) :
    (s == t) = true ↔ (s.position == t.position) = true ∧ (s.opacity == t.opacity) = true := by
  show (s.position == t.position && s.opacity == t.opacity) = true ↔ _
  rw [Bool.and_eq_true]

private theorem Strand.beq_iff (s t : Strand α) :
    (s == t) = true ↔ ((s.source == t.source) = true ∧ (s.target == t.target) = true) ∧
      (s.opacity == t.opacity) = true := by
  show (s.source == t.source && s.target == t.target && s.opacity == t.opacity) = true ↔ _
  rw [Bool.and_eq_true, Bool.and_eq_true]

/-- A way that is not begun is at its start. -/
class LawfulLerp (α ν : Type) [Scalar α] [Lerp α ν] : Prop where
  lerp_start : ∀ (a b : ν) (t : α), t ≤ 0 → lerp a b t = a

theorem Scalar.lerp_start (a b : α) {t : α} (h : t ≤ 0) : Scalar.lerp a b t = a := if_pos h

instance : LawfulLerp α (Point α) where
  lerp_start p q t h := by
    show (⟨Scalar.lerp p.x q.x t, Scalar.lerp p.y q.y t⟩ : Point α) = p
    rw [Scalar.lerp_start _ _ h, Scalar.lerp_start _ _ h]

instance : LawfulLerp α (Spot α) where
  lerp_start s t time h := by
    show (⟨lerp s.position t.position time, Scalar.lerp s.opacity t.opacity time⟩ : Spot α) = s
    rw [LawfulLerp.lerp_start _ _ _ h, Scalar.lerp_start _ _ h]

instance : LawfulLerp α (Strand α) where
  lerp_start s t time h := by
    show (⟨lerp s.source t.source time, lerp s.target t.target time,
      Scalar.lerp s.opacity t.opacity time⟩ : Strand α) = s
    rw [LawfulLerp.lerp_start _ _ _ h, LawfulLerp.lerp_start _ _ _ h, Scalar.lerp_start _ _ h]

variable [Scalar.LawfulEq α]

instance : PartialEquivBEq (Point α) where
  symm h := by
    rw [Point.beq_iff] at h ⊢
    exact h.imp BEq.symm BEq.symm
  trans h k := by
    rw [Point.beq_iff] at h k ⊢
    exact ⟨BEq.trans h.1 k.1, BEq.trans h.2 k.2⟩

instance : PartialEquivBEq (Spot α) where
  symm h := by
    rw [Spot.beq_iff] at h ⊢
    exact h.imp BEq.symm BEq.symm
  trans h k := by
    rw [Spot.beq_iff] at h k ⊢
    exact ⟨BEq.trans h.1 k.1, BEq.trans h.2 k.2⟩

instance : PartialEquivBEq (Strand α) where
  symm h := by
    rw [Strand.beq_iff] at h ⊢
    exact ⟨h.1.imp BEq.symm BEq.symm, BEq.symm h.2⟩
  trans h k := by
    rw [Strand.beq_iff] at h k ⊢
    exact ⟨⟨BEq.trans h.1.1 k.1.1, BEq.trans h.1.2 k.1.2⟩, BEq.trans h.2 k.2⟩

theorem Spot.shown_beq_self {p : Point α} (h : (p == p) = true) :
    ((shown p : Spot α) == shown p) = true :=
  (Spot.beq_iff _ _).mpr ⟨h, Scalar.LawfulEq.one_beq_one⟩

theorem Strand.shown_beq_self {p q : Point α} (hp : (p == p) = true) (hq : (q == q) = true) :
    ((shown p q : Strand α) == shown p q) = true :=
  (Strand.beq_iff _ _).mpr ⟨⟨hp, hq⟩, Scalar.LawfulEq.one_beq_one⟩

end TidyTree
