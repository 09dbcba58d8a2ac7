import Mathlib.Algebra.Group.Nat.Defs
import TidyTree.Look.Packed

set_option autoImplicit false
set_option relaxedAutoImplicit false

namespace TidyTree.Color

private theorem toNat_shifted (b : UInt8) {way : UInt32} (h : way.toNat ≤ 24) :
    (b.toUInt32 <<< way).toNat = b.toNat <<< way.toNat := by
  have exact : way.toNat % 32 = way.toNat := Nat.mod_eq_of_lt (by omega)
  have small : b.toNat <<< way.toNat < 2 ^ 32 := by
    calc b.toNat <<< way.toNat = b.toNat * 2 ^ way.toNat := Nat.shiftLeft_eq _ _
      _ ≤ b.toNat * 2 ^ 24 := Nat.mul_le_mul_left _ (Nat.pow_le_pow_right (by decide) h)
      _ < 2 ^ 32 := by have := b.toNat_lt; omega
  rw [UInt32.toNat_shiftLeft, UInt8.toNat_toUInt32, exact, Nat.mod_eq_of_lt small]

private theorem toNat_toWord (c : Color) : c.toWord.toNat =
    c.red.toNat * 2 ^ 24 + c.green.toNat * 2 ^ 16 + c.blue.toNat * 2 ^ 8 + c.alpha.toNat := by
  have green := c.green.toNat_lt
  have blue := c.blue.toNat_lt
  have alpha := c.alpha.toNat_lt
  have joined (high : Nat) {low way : Nat} (h : low < 2 ^ way) :
      high <<< way ||| low = high * 2 ^ way + low := by
    rw [← Nat.shiftLeft_add_eq_or_of_lt h, Nat.shiftLeft_eq]
  rw [toWord, UInt32.toNat_or, UInt32.toNat_or, UInt32.toNat_or, toNat_shifted _ (by decide),
    toNat_shifted _ (by decide), toNat_shifted _ (by decide), UInt8.toNat_toUInt32, Nat.or_assoc,
    Nat.or_assoc]
  change c.red.toNat <<< 24 |||
    (c.green.toNat <<< 16 ||| (c.blue.toNat <<< 8 ||| c.alpha.toNat)) = _
  rw [joined c.blue.toNat alpha, joined c.green.toNat (by omega), joined c.red.toNat (by omega)]
  omega

private theorem toNat_channels (w : UInt32) :
    (ofWord w).red.toNat = w.toNat / 2 ^ 24 % 2 ^ 8 ∧
      (ofWord w).green.toNat = w.toNat / 2 ^ 16 % 2 ^ 8 ∧
      (ofWord w).blue.toNat = w.toNat / 2 ^ 8 % 2 ^ 8 ∧
      (ofWord w).alpha.toNat = w.toNat % 2 ^ 8 := by
  simp only [ofWord, UInt32.toNat_toUInt8, UInt32.toNat_shiftRight, Nat.shiftRight_eq_div_pow]
  exact ⟨rfl, rfl, rfl, trivial⟩

private theorem eq_of_channels {c d : Color} (red : c.red.toNat = d.red.toNat)
    (green : c.green.toNat = d.green.toNat) (blue : c.blue.toNat = d.blue.toNat)
    (alpha : c.alpha.toNat = d.alpha.toNat) : c = d := by
  cases c
  cases d
  simp_all [UInt8.toNat_inj]

@[simp] theorem ofWord_toWord (c : Color) : ofWord c.toWord = c := by
  obtain ⟨red, green, blue, alpha⟩ := toNat_channels c.toWord
  rw [toNat_toWord] at red green blue alpha
  have := c.red.toNat_lt
  have := c.green.toNat_lt
  have := c.blue.toNat_lt
  have := c.alpha.toNat_lt
  exact eq_of_channels (by omega) (by omega) (by omega) (by omega)

@[simp] theorem toWord_ofWord (w : UInt32) : (ofWord w).toWord = w := by
  obtain ⟨red, green, blue, alpha⟩ := toNat_channels w
  have small := w.toNat_lt
  rw [← UInt32.toNat_inj, toNat_toWord, red, green, blue, alpha]
  omega

private theorem padded_one {n : Nat} (h : n < 16) : padded 1 n = [hexDigit n] := by
  simp [padded, Nat.toDigits_of_lt_base h, hexDigit, Nat.mod_eq_of_lt h]

private theorem padded_succ {width : Nat} (pos : 0 < width) (n : Nat) :
    padded (width + 1) n = padded width (n / 16) ++ [hexDigit n] := by
  rcases Nat.lt_or_ge n 16 with small | large
  · have zero : n / 16 = 0 := Nat.div_eq_of_lt small
    obtain ⟨more, rfl⟩ := Nat.exists_eq_add_one.mpr pos
    simp [padded, Nat.toDigits_of_lt_base small, zero, hexDigit, Nat.mod_eq_of_lt small,
      List.replicate_succ']
  · simp [padded, Nat.toDigits_of_base_le (by decide) large, hexDigit]

private theorem padded_two (b : UInt8) : padded 2 b.toNat = hexPair b := by
  have high : b.toNat / 16 < 16 := by have := b.toNat_lt; omega
  rw [padded_succ (by decide), padded_one high]
  rfl

private theorem padded_eight (w : UInt32) : padded 8 w.toNat =
    hexPair (ofWord w).red ++ hexPair (ofWord w).green ++ hexPair (ofWord w).blue ++
      hexPair (ofWord w).alpha := by
  obtain ⟨red, green, blue, alpha⟩ := toNat_channels w
  have digit {m n : Nat} (h : m % 16 = n % 16) : hexDigit m = hexDigit n := by
    rw [hexDigit, hexDigit, h]
  have small := w.toNat_lt
  iterate 7 rw [padded_succ (by decide)]
  rw [padded_one (by omega)]
  simp only [hexPair, red, green, blue, alpha, List.cons_append, List.nil_append, List.cons.injEq]
  exact ⟨digit (by omega), digit (by omega), digit (by omega), digit (by omega), digit (by omega),
    digit (by omega), digit (by omega), digit (by omega), trivial⟩

theorem wordText_eq (w : UInt32) : wordText w = (ofWord w).hexText := by
  rw [wordText, hexText]
  split
  · simp [padded_two]
  · rw [padded_eight]

end TidyTree.Color
