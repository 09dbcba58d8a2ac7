import Mathlib
import TidyTree.Proofs.Scalar.Laws

set_option autoImplicit false
set_option relaxedAutoImplicit false

/-!
# Durations in double precision

A positive whole number is positive as a double, and so are its quotient by a billion and a sum:
rounding takes nothing down to zero. So a duration that is not zero lasts a positive number of
seconds, and a way of that duration is not begun at its start.
-/

namespace TidyTree.Binary64

open Float.Model hiding pack unpack ofScientific
open UnpackedFloat

private theorem log2_div_two_pow (m k : Nat) : (m / 2 ^ k).log2 = m.log2 - k := by
  rw [Nat.log2_eq_log_two, Nat.log2_eq_log_two, Nat.log_div_base_pow]

private theorem log2_mono {m n : Nat} (h : m ≤ n) : m.log2 ≤ n.log2 := by
  rw [Nat.log2_eq_log_two, Nat.log2_eq_log_two]
  exact Nat.log_mono_right h

private theorem log2_shiftLeft {m : Nat} (pos : 0 < m) (k : Nat) : (m <<< k).log2 = m.log2 + k := by
  rw [Nat.shiftLeft_eq, Nat.log2_eq_iff (Nat.mul_pos pos (Nat.two_pow_pos k)).ne', Nat.pow_add,
    Nat.add_right_comm, Nat.pow_add]
  exact ⟨Nat.mul_le_mul_right _ (Nat.log2_self_le pos.ne'),
    Nat.mul_lt_mul_of_pos_right Nat.lt_log2_self (Nat.two_pow_pos k)⟩

private theorem targetExponent_eq (m : Nat) (e : Int) :
    Format.binary64.targetExponent (totalExponent m e) = max (m.log2 + e - 52) (-1074) := by
  have least : Format.binary64.minExponent = -1074 := by decide
  have bits : Format.binary64.mantissaBits = 53 := by decide
  rw [Format.targetExponent, totalExponent, least, bits]
  omega

/-- The number is positive and at least `2 ^ k`: infinite, or finite in canonical form. -/
inductive IsAbove (k : Int) : UnpackedFloat → Prop
  | infinity : IsAbove k (.infinity .positive)
  | finite {m : Nat} {e : Int} (pos : 0 < m) (canonical : e = max (m.log2 + e - 52) (-1074))
      (le : k ≤ m.log2 + e) : IsAbove k (.finite .positive m e pos)

private theorem IsAbove.mono {j k : Int} {x : UnpackedFloat} (h : IsAbove k x) (le : j ≤ k) :
    IsAbove j x := by
  cases h with
  | infinity => exact .infinity
  | finite pos canonical large => exact .finite pos canonical (le.trans large)

private theorem mantissa_shift (m : Nat) (accuracy : Accuracy) (k : Nat) :
    (ExtendedMantissa.ofMantissaAndAccuracy m accuracy >>> k).mantissa = m / 2 ^ k := by
  induction k with
  | zero => rcases accuracy with _ | _ | _ | _ <;> exact (Nat.div_one m).symm
  | succ k ih =>
    rw [Nat.pow_succ, ← Nat.div_div_eq_div_mul, ← ih]
    rfl

private theorem le_roundedMantissa (em : ExtendedMantissa) : em.mantissa ≤ em.roundedMantissa := by
  obtain ⟨m, round, sticky⟩ := em
  have even : m ≤ m + m % 2 := Nat.le_add_right m _
  cases round <;> cases sticky
  · exact le_rfl
  · exact le_rfl
  · exact even
  · exact Nat.le_succ m

private theorem shift_bounds {m : Nat} {e : Int} (pos : 0 < m) (large : -1074 ≤ m.log2 + e)
    (le : e ≤ max (m.log2 + e - 52) (-1074)) {s : Nat}
    (hs : s = (max (m.log2 + e - 52) (-1074) - e).toNat) :
    0 < m / 2 ^ s ∧ (m / 2 ^ s).log2 + (e + s) = m.log2 + e ∧
      e + s = max (m.log2 + e - 52) (-1074) := by
  have short : s ≤ m.log2 := by omega
  refine ⟨Nat.div_pos ?_ (Nat.two_pow_pos s), ?_, by omega⟩
  · exact (Nat.pow_le_pow_right (by decide) short).trans (Nat.log2_self_le pos.ne')
  · rw [log2_div_two_pow]
    omega

private theorem isAbove_of_mantissa {k : Int} {m : Nat} {e : Int} (pos : 0 < m)
    (canonical : e = max (m.log2 + e - 52) (-1074)) (le : k ≤ m.log2 + e) :
    IsAbove k (if h : m = 0 then .zero .positive else
      .finite .positive m e (Nat.pos_of_ne_zero h)) := by
  rw [dif_neg pos.ne']
  exact .finite pos canonical le

private theorem roundWithAccuracy_isAbove {m : Nat} {e : Int} (pos : 0 < m)
    (large : -1074 ≤ m.log2 + e)
    (le : e ≤ max (m.log2 + e - 52) (-1074)) (accuracy : Accuracy) :
    IsAbove (m.log2 + e) (roundWithAccuracy .binary64 .positive m e accuracy) := by
  obtain ⟨s, hs⟩ : ∃ s, (max (m.log2 + e - 52) (-1074) - e).toNat = s := ⟨_, rfl⟩
  obtain ⟨shifted, magnitude, target⟩ := shift_bounds pos large le hs.symm
  unfold roundWithAccuracy shiftToTargetExponent shiftToExponent
  simp only [targetExponent_eq, mantissa_shift, hs]
  -- Rounding up may carry into a further bit, which the second shift drops.
  have ge := le_roundedMantissa (ExtendedMantissa.ofMantissaAndAccuracy m accuracy >>> s)
  rw [mantissa_shift] at ge
  have carried := log2_mono ge
  obtain ⟨rest, magnitude', target'⟩ :=
    shift_bounds (e := e + s) (shifted.trans_le ge) (by omega) (by omega) rfl
  exact isAbove_of_mantissa rest (by omega) (by omega)

private theorem round_isAbove {m : Nat} {e : Int} (pos : 0 < m) (large : -1074 ≤ m.log2 + e) :
    IsAbove (m.log2 + e) (UnpackedFloat.round .binary64 .positive m e) := by
  unfold UnpackedFloat.round decreaseExponent
  simp only [targetExponent_eq]
  generalize hk : (e - max (m.log2 + e - 52) (-1074)).toNat = k
  have same : ((m <<< k).log2 : Int) + (e - k) = m.log2 + e := by
    rw [log2_shiftLeft pos]
    omega
  rw [← same]
  exact roundWithAccuracy_isAbove (Nat.shiftLeft_pos_iff.mpr pos) (by omega) (by omega) .exact

private theorem normalize_isAbove {m : Nat} {e : Int} (pos : 0 < m) (large : -1074 ≤ m.log2 + e)
    (sign : Sign) : IsAbove (m.log2 + e) (UnpackedFloat.normalize .binary64 m e sign) := by
  rw [UnpackedFloat.normalize, Int.compare_eq_gt.mpr (Int.natCast_pos.mpr pos)]
  exact round_isAbove pos large

private theorem unpackSign_packComponents {spec : Format} (s : Sign) (e : BitVec spec.exponentBits)
    (m : BitVec spec.mantissaBitsWithoutImplicit) :
    unpackSign (packComponents spec s e m) = s.toBitVec := by
  ext i hi
  obtain rfl : i = 0 := by omega
  simp [unpackSign, packComponents, BitVec.getLsbD_append, BitVec.getElem_append]

private theorem ofBitVec_toBitVec (s : Sign) : Sign.ofBitVec s.toBitVec = s := by
  cases s <;> rfl

private theorem unpack_normal (s : Sign) {b m : Nat} (low : 0 < b) (high : b < 2047) (pos : 0 < m)
    (ge : 2 ^ 52 ≤ m) (lt : m < 2 ^ 53) :
    unpack .binary64 (packComponents .binary64 s (BitVec.ofNat 11 b) (BitVec.ofNat 52 m)) =
      .finite s m (b - 1075) pos := by
  have exponent : (BitVec.ofNat 11 b).toNat = b := by
    rw [BitVec.toNat_ofNat, Nat.mod_eq_of_lt (by omega)]
  have notLeast : BitVec.ofNat 11 b ≠ 0#11 := by
    intro same
    rw [same] at exponent
    exact low.ne exponent
  have notLargest : BitVec.ofNat 11 b ≠ -1#11 := by
    intro same
    rw [same] at exponent
    exact high.ne' exponent
  -- The first bit of the mantissa is not stored.
  have mantissa : (1#1 ++ BitVec.ofNat 52 m).toNat = m := by
    rw [BitVec.toNat_append, ← Nat.shiftLeft_add_eq_or_of_lt (BitVec.isLt _), BitVec.toNat_ofNat,
      BitVec.toNat_ofNat, Nat.shiftLeft_eq]
    omega
  have bias : (Format.binary64.exponentBias : Int) = 1023 := by decide
  unfold unpack
  simp only [unpackMantissa_packComponents, unpackExponent_packComponents,
    unpackSign_packComponents, ofBitVec_toBitVec]
  rw [if_neg notLargest, if_neg notLeast]
  simp only [mantissa, exponent, bias]
  rfl

private theorem unpack_subnormal (s : Sign) {m : Nat} (pos : 0 < m) (lt : m < 2 ^ 52) :
    unpack .binary64 (packComponents .binary64 s 0#11 (BitVec.ofNat 52 m)) =
      .finite s m (-1074) pos := by
  have mantissa : (BitVec.ofNat 52 m).toNat = m := by
    rw [BitVec.toNat_ofNat, Nat.mod_eq_of_lt lt]
  have nonzero : BitVec.ofNat 52 m ≠ 0#52 := by
    intro same
    rw [same] at mantissa
    exact pos.ne mantissa
  have bias : (Format.binary64.exponentBias : Int) = 1023 := by decide
  unfold unpack
  simp only [unpackMantissa_packComponents, unpackExponent_packComponents,
    unpackSign_packComponents, ofBitVec_toBitVec]
  rw [if_neg (by decide), if_pos trivial, dif_neg nonzero]
  simp only [mantissa, bias]
  rfl

private theorem unpack_pack_isAbove {k : Int} {x : UnpackedFloat} (h : IsAbove k x) :
    IsAbove k (unpack .binary64 (pack .binary64 x)) := by
  cases h with
  | infinity => exact .infinity
  | @finite m e pos canonical le =>
    have bias : (Format.binary64.exponentBias : Int) = 1023 := by decide
    have width : Format.binary64.mantissaBits = 53 := by decide
    have lt : m < 2 ^ 53 := (Nat.log2_lt pos.ne').mp (by omega)
    unfold pack
    simp only [bias, width]
    split
    · exact .infinity
    · next room =>
      split
      · next normal =>
        have ge : 2 ^ 52 ≤ m := (Nat.le_log2 pos.ne').mp (by omega)
        rw [unpack_normal .positive (by omega) (by omega) pos ge lt]
        exact .finite pos (by omega) (by omega)
      · next subnormal =>
        have small : m < 2 ^ 52 := (Nat.log2_lt pos.ne').mp (by omega)
        rw [unpack_subnormal .positive pos small]
        exact .finite pos (by omega) (by omega)

private theorem ofNat_isAbove {n : Nat} (pos : 0 < n) :
    IsAbove 0 (unpack .binary64 (pack .binary64 (UnpackedFloat.ofNat .binary64 n))) := by
  have rounded := normalize_isAbove (e := 0) pos (by omega) .positive
  exact unpack_pack_isAbove (rounded.mono (by omega))

private theorem mul_one_isAbove {m p one : Nat} {e low : Int} {pos : 0 < m} {pos' : 0 < one}
    (large : -1074 ≤ m.log2 + e) (le : e ≤ max (m.log2 + e - 52) (-1074)) (hone : one = 2 ^ p)
    (hlow : low = -p) :
    IsAbove (m.log2 + e) (mul .binary64 (.finite .positive m e pos)
      (.finite .positive one low pos')) := by
  subst hone hlow
  have magnitude : (m * 2 ^ p).log2 = m.log2 + p := by
    rw [← Nat.shiftLeft_eq, log2_shiftLeft pos]
  have same : (m.log2 : Int) + e = (m * 2 ^ p).log2 + (e + -p) := by omega
  rw [same]
  exact roundWithAccuracy_isAbove (Nat.mul_pos pos pos') (by omega) (by omega) .exact

private theorem IsAbove.mul_one {k : Int} {x : UnpackedFloat} (h : IsAbove k x) (large : -1074 ≤ k)
    {p one : Nat} {low : Int} {pos : 0 < one} (hone : one = 2 ^ p) (hlow : low = -p) :
    IsAbove k (mul .binary64 x (.finite .positive one low pos)) := by
  cases h with
  | infinity => exact .infinity
  | finite _ canonical le =>
    exact (mul_one_isAbove (large.trans le) canonical.le hone hlow).mono le

private theorem natCast_isAbove {n : Nat} (pos : 0 < n) : IsAbove 0 (n : Float).toModel.unpack := by
  show IsAbove 0 (Float.ofScientific n false 0).toModel.unpack
  unfold Float.ofScientific
  split
  · next small =>
    have fits : n.toUInt64.toNat = n := Nat.mod_eq_of_lt (by omega)
    have unit : (Float.ofBits 0x3FF0000000000000).toModel.unpack =
        .finite .positive (2 ^ 52) (-52) (by decide) := by rfl
    show IsAbove 0 (unpack .binary64 (pack .binary64 (mul .binary64
      (unpack .binary64 (pack .binary64 (UnpackedFloat.ofNat .binary64 n.toUInt64.toNat)))
      (Float.ofBits 0x3FF0000000000000).toModel.unpack)))
    rw [unit, fits]
    exact unpack_pack_isAbove ((ofNat_isAbove pos).mul_one (by decide) rfl rfl)
  · have bits : (2 : Int) ^ Format.binary64.exponentBits = 2048 := by decide
    have magnitude : (n <<< 53).log2 = n.log2 + 53 := log2_shiftLeft pos 53
    have low : ((n <<< 53).log2 : Int) + -53 = n.log2 := by omega
    show IsAbove 0 (unpack .binary64 (pack .binary64 (ofScientific .binary64 n 0)))
    unfold ofScientific
    rw [dif_neg pos.ne', if_neg (by decide), if_neg (by omega), if_pos (by decide)]
    have product : IsAbove _ (mul .binary64
        (.finite .positive (n <<< 53) (-53) (Nat.shiftLeft_pos_iff.mpr pos))
        (.finite .positive (2 ^ 0) (-(0 : Nat)) (by decide))) :=
      mul_one_isAbove (by omega) (by omega) rfl rfl
    exact unpack_pack_isAbove (product.mono (by omega))

private theorem IsAbove.add {x y : UnpackedFloat} (hx : IsAbove (-1074) x) (hy : IsAbove (-1074) y)
    :
    IsAbove (-1074) (add .binary64 x y) := by
  cases hx with
  | infinity => cases hy <;> exact .infinity
  | @finite m e pos canonical le =>
    cases hy with
    | infinity => exact .infinity
    | @finite m' e' pos' canonical' le' =>
      have shifted : 0 < m <<< (e - min e e').toNat := Nat.shiftLeft_pos_iff.mpr pos
      show IsAbove _ (UnpackedFloat.normalize .binary64
        ((m <<< (e - min e e').toNat : Nat) + (m' <<< (e' - min e e').toNat : Nat)) (min e e')
          .positive)
      rw [← Nat.cast_add]
      exact (normalize_isAbove (Nat.add_pos_left shifted _) (by omega) .positive).mono (by omega)

private theorem log2_div {a b : Nat} (pos : 0 < b) (lt : b.log2 < a.log2) :
    0 < a / b ∧ a.log2 ≤ (a / b).log2 + b.log2 + 1 := by
  have nonzero : a ≠ 0 := fun zero => by simp [zero] at lt
  have ge : 2 ^ (a.log2 - b.log2 - 1) ≤ a / b := (Nat.le_div_iff_mul_le pos).mpr (calc
    2 ^ (a.log2 - b.log2 - 1) * b ≤ 2 ^ (a.log2 - b.log2 - 1) * 2 ^ (b.log2 + 1) :=
      Nat.mul_le_mul_left _ Nat.lt_log2_self.le
    _ = 2 ^ a.log2 := by
      rw [← Nat.pow_add]
      congr 1
      omega
    _ ≤ a := Nat.log2_self_le nonzero)
  have quotient : 0 < a / b := (Nat.two_pow_pos _).trans_le ge
  have := (Nat.le_log2 quotient.ne').mpr ge
  exact ⟨quotient, by omega⟩

private theorem IsAbove.div {x : UnpackedFloat} (h : IsAbove 0 x) :
    IsAbove (-1074) (div .binary64 x (((1000000000 : Nat) : Float).toModel.unpack)) := by
  have divisor : (((1000000000 : Nat) : Float).toModel.unpack) =
    .finite .positive (1000000000 <<< 23) (-23) (by decide) := by rfl
  rw [divisor]
  cases h with
  | infinity => exact .infinity
  | @finite m e pos canonical le =>
    have size : (1000000000 <<< 23).log2 = 52 := by decide
    have wide : Format.binary64.targetExponent (totalExponent m e -
        totalExponent (1000000000 <<< 23) (-23)) = m.log2 + e - 82 := by
      have least : Format.binary64.minExponent = -1074 := by decide
      have bits : Format.binary64.mantissaBits = 53 := by decide
      rw [Format.targetExponent, totalExponent, totalExponent, least, bits, size]
      omega
    show IsAbove (-1074) (roundWithAccuracy .binary64 .positive _ _ _)
    rw [wide]
    generalize hs : (e - -23 - min (e - -23) (m.log2 + e - 82)).toNat = s
    have numerator := log2_shiftLeft pos s
    obtain ⟨quotient, large⟩ := log2_div (a := m <<< s) (b := 1000000000 <<< 23) (by decide)
      (by omega)
    exact (roundWithAccuracy_isAbove quotient (by omega) (by omega) _).mono (by omega)

private theorem IsAbove.zero_add {k : Int} {x : UnpackedFloat} (h : IsAbove k x) :
    UnpackedFloat.add .binary64 (.zero .positive) x = x := by
  cases h <;> rfl

private theorem IsAbove.add_zero {k : Int} {x : UnpackedFloat} (h : IsAbove k x) :
    UnpackedFloat.add .binary64 x (.zero .positive) = x := by
  cases h <;> rfl

private theorem seconds_isAbove {d : Duration} (pos : 0 < d.nanos) :
    IsAbove (-1074) (d.seconds : Float).toModel.unpack := by
  have noSeconds : ((0 : Nat) : Float).toModel.unpack = .zero .positive := by rfl
  have noRest : (((0 : Nat) : Float) / ((1000000000 : Nat) : Float)).toModel.unpack =
      .zero .positive := by rfl
  have seconds {n : Nat} (hn : 0 < n) : IsAbove (-1074) (n : Float).toModel.unpack :=
    (natCast_isAbove hn).mono (by decide)
  have rest {n : Nat} (hn : 0 < n) :
      IsAbove (-1074) ((n : Float) / ((1000000000 : Nat) : Float)).toModel.unpack :=
    unpack_pack_isAbove (natCast_isAbove hn).div
  show IsAbove (-1074) (unpack .binary64 (pack .binary64 (add .binary64
    ((d.nanos / 1000000000 : Nat) : Float).toModel.unpack
    (((d.nanos % 1000000000 : Nat) : Float) / ((1000000000 : Nat) : Float)).toModel.unpack)))
  apply unpack_pack_isAbove
  rcases Nat.eq_zero_or_pos (d.nanos / 1000000000) with none | some
  · rw [none, noSeconds, (rest (by omega)).zero_add]
    exact rest (by omega)
  · rcases Nat.eq_zero_or_pos (d.nanos % 1000000000) with whole | broken
    · rw [whole, noRest, (seconds some).add_zero]
      exact seconds some
    · exact (seconds some).add (rest broken)

private theorem zero_div {x : Float} (h : IsAbove (-1074) x.toModel.unpack) : 0.0 / x = 0.0 := by
  have none : div .binary64 (0.0 : Float).toModel.unpack x.toModel.unpack = .zero .positive := by
    generalize x.toModel.unpack = y at h
    cases h <;> rfl
  show Float.ofModel ⟨UInt64.ofBitVec (pack .binary64 _), _⟩ = _
  simp only [none]
  rfl

instance : Scalar.LawfulStart Float where
  cubicInOut_start d pos := by
    have start : (Duration.zero.seconds : Float) = 0.0 := by rfl
    rw [start, zero_div (seconds_isAbove pos)]
    decide +kernel

end TidyTree.Binary64
