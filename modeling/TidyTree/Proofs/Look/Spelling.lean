import Mathlib.Data.List.Basic
import TidyTree.Look.Color
import TidyTree.Proofs.Text.Trimming

set_option autoImplicit false
set_option relaxedAutoImplicit false

namespace TidyTree.Color

/-- A hexadecimal digit and its value. Letters may be small or capital. -/
def IsDigit (c : Char) (value : UInt8) : Prop :=
  value < 16 ∧ c.toLower = Nat.digitChar value.toNat

/-- Two digits and the byte that they spell. -/
def IsPair (high low : Char) (b : UInt8) : Prop :=
  ∃ m n, IsDigit high m ∧ IsDigit low n ∧ b.toNat = 16 * m.toNat + n.toNat

/-- Two characters that are read for a byte: its two digits, or a plus and its only digit. -/
def IsByte (high low : Char) (b : UInt8) : Prop :=
  IsPair high low b ∨ (high = '+' ∧ IsDigit low b)

/-- What stands behind the number sign: a digit for each of three channels, which counts twice, or a
pair of characters for each channel. Alpha is full unless it has a pair of its own. -/
inductive Spells (spellsByte : Char → Char → UInt8 → Prop) : List Char → Color → Prop where
  | digits {r g b : Char} {red green blue : UInt8} :
      IsPair r r red → IsPair g g green → IsPair b b blue →
      Spells spellsByte [r, g, b] (solid red green blue)
  | pairs {r₁ r₀ g₁ g₀ b₁ b₀ : Char} {red green blue : UInt8} :
      spellsByte r₁ r₀ red → spellsByte g₁ g₀ green → spellsByte b₁ b₀ blue →
      Spells spellsByte [r₁, r₀, g₁, g₀, b₁, b₀] (solid red green blue)
  | alpha {r₁ r₀ g₁ g₀ b₁ b₀ a₁ a₀ : Char} {red green blue alpha : UInt8} :
      spellsByte r₁ r₀ red → spellsByte g₁ g₀ green → spellsByte b₁ b₀ blue →
      spellsByte a₁ a₀ alpha →
      Spells spellsByte [r₁, r₀, g₁, g₀, b₁, b₀, a₁, a₀] ⟨red, green, blue, alpha⟩

/-- A number sign and a spelling of the colour, with blanks around them or not. -/
def IsWritten (spellsByte : Char → Char → UInt8 → Prop) (text : List Char) (c : Color) : Prop :=
  ∃ body, Text.IsPadded text ('#' :: body) ∧ Spells spellsByte body c

section Digits

private theorem toNat_digitChar {n : Nat} (h : n < 16) :
    (Nat.digitChar n).toNat = if n < 10 then 48 + n else 87 + n := by
  revert n
  decide

private theorem isDigit_iff {c : Char} {value : UInt8} : IsDigit c value ↔ value.toNat < 16 ∧
    c.toLower.toNat = if value.toNat < 10 then 48 + value.toNat else 87 + value.toNat := by
  rw [IsDigit, UInt8.lt_iff_toNat_lt]
  refine and_congr_right fun h => ?_
  rw [← toNat_digitChar h, Char.toNat_inj]

theorem IsDigit.toNat_mem {c : Char} {value : UInt8} (h : IsDigit c value) :
    48 ≤ c.toNat ∧ c.toNat ≤ 102 := by
  rw [isDigit_iff, Text.toNat_toLower] at h
  split_ifs at h <;> omega

theorem hexValue?_eq_some_iff {c : Char} {value : UInt8} :
    hexValue? c = some value ↔ IsDigit c value := by
  have byte (n : Nat) (h : n < 256) : some n.toUInt8 = some value ↔ n = value.toNat := by
    rw [Option.some_inj, ← UInt8.toNat_inj]
    simp [Nat.mod_eq_of_lt h]
  rw [isDigit_iff, Text.toNat_toLower, hexValue?]
  split
  · rw [byte _ (by omega)]
    split_ifs <;> omega
  · split
    · rw [byte _ (by omega)]
      split_ifs <;> omega
    · split
      · rw [byte _ (by omega)]
        split_ifs <;> omega
      · refine iff_of_false (Option.some_ne_none _).symm ?_
        split_ifs <;> omega

theorem toNat_mul_add {m n : UInt8} (hm : m < 16) (hn : n < 16) :
    (m * 16 + n).toNat = 16 * m.toNat + n.toNat := by
  rw [UInt8.lt_iff_toNat_lt] at hm hn
  have hm : m.toNat < 16 := hm
  have hn : n.toNat < 16 := hn
  rw [UInt8.toNat_add, UInt8.toNat_mul]
  change (m.toNat * 16 % 256 + n.toNat) % 256 = _
  omega

private theorem isPair_iff {high low : Char} {b : UInt8} : IsPair high low b ↔
    ∃ m n, hexValue? high = some m ∧ hexValue? low = some n ∧ m * 16 + n = b := by
  simp only [IsPair, hexValue?_eq_some_iff]
  refine exists_congr fun m => exists_congr fun n => and_congr_right fun hm => and_congr_right ?_
  intro hn
  rw [← UInt8.toNat_inj, toNat_mul_add hm.1 hn.1, eq_comm]

private theorem not_isDigit_plus (value : UInt8) : ¬ IsDigit '+' value := fun h =>
  absurd h.toNat_mem.1 (by decide)

private theorem byte?_eq_some_iff {high low : Char} {b : UInt8} :
    byte? high low = some b ↔ IsByte high low b := by
  rw [IsByte, isPair_iff, ← hexValue?_eq_some_iff, byte?]
  split
  · next plus =>
    have none (m : UInt8) : hexValue? '+' ≠ some m := by
      rw [Ne, hexValue?_eq_some_iff]
      exact not_isDigit_plus m
    subst plus
    simp [none]
  · next other => simp [other, Option.bind_eq_some_iff]

end Digits

section Reading

variable {spellsByte : Char → Char → UInt8 → Prop} {body text : List Char} {c : Color}

private theorem Spells.forall_mem {P : Char → Prop} (h : Spells spellsByte body c)
    (digit : ∀ d value, IsDigit d value → P d)
    (byte : ∀ high low b, spellsByte high low b → P high ∧ P low) : ∀ d ∈ body, P d := by
  have pair (d : Char) (b : UInt8) (hd : IsPair d d b) : P d := by
    obtain ⟨m, -, hm, -⟩ := hd
    exact digit d m hm
  cases h with
  | digits r g b => simp [pair _ _ r, pair _ _ g, pair _ _ b]
  | pairs r g b => simp [byte _ _ _ r, byte _ _ _ g, byte _ _ _ b]
  | alpha r g b a => simp [byte _ _ _ r, byte _ _ _ g, byte _ _ _ b, byte _ _ _ a]

theorem Spells.imp {spellsByte' : Char → Char → UInt8 → Prop} (h : Spells spellsByte body c)
    (byte : ∀ high ∈ body, ∀ low b, spellsByte high low b → spellsByte' high low b) :
    Spells spellsByte' body c := by
  cases h with
  | digits r g b => exact .digits r g b
  | pairs r g b =>
    exact .pairs (byte _ (by simp) _ _ r) (byte _ (by simp) _ _ g) (byte _ (by simp) _ _ b)
  | alpha r g b a =>
    exact .alpha (byte _ (by simp) _ _ r) (byte _ (by simp) _ _ g) (byte _ (by simp) _ _ b)
      (byte _ (by simp) _ _ a)

private theorem IsByte.toNat_mem {high low : Char} {b : UInt8} (h : IsByte high low b) :
    (43 ≤ high.toNat ∧ high.toNat ≤ 102) ∧ 43 ≤ low.toNat ∧ low.toNat ≤ 102 := by
  rcases h with ⟨m, n, hm, hn, -⟩ | ⟨rfl, hn⟩
  · have := hm.toNat_mem
    have := hn.toNat_mem
    omega
  · have := hn.toNat_mem
    refine ⟨by decide, by omega⟩

theorem Spells.toNat_mem (h : Spells IsByte body c) : ∀ d ∈ body, 43 ≤ d.toNat ∧ d.toNat ≤ 102 :=
  h.forall_mem (fun d _ hd => by have := hd.toNat_mem; omega) fun _ _ _ hb => hb.toNat_mem

theorem ofHexBody?_eq_some_iff : ofHexBody? body = some c ↔ Spells IsByte body c := by
  have doubled (d : Char) (b : UInt8) :
      IsPair d d b ↔ ∃ m, hexValue? d = some m ∧ m * 17 = b := by
    have same (m : UInt8) : m * 16 + m = m * 17 := by grind
    rw [isPair_iff]
    constructor
    · rintro ⟨m, n, hm, hn, rfl⟩
      obtain rfl : m = n := Option.some.inj (hm.symm.trans hn)
      exact ⟨m, hm, (same m).symm⟩
    · rintro ⟨m, hm, rfl⟩
      exact ⟨m, m, hm, hm, same m⟩
  constructor
  · intro h
    unfold ofHexBody? at h
    split at h
    · next r g b =>
      simp only [Option.bind_eq_bind, Option.bind_eq_some_iff, Option.pure_def,
        Option.some.injEq] at h
      obtain ⟨m, hr, n, hg, k, hb, rfl⟩ := h
      exact .digits ((doubled _ _).mpr ⟨m, hr, rfl⟩) ((doubled _ _).mpr ⟨n, hg, rfl⟩)
        ((doubled _ _).mpr ⟨k, hb, rfl⟩)
    · simp only [Option.bind_eq_bind, Option.bind_eq_some_iff, byte?_eq_some_iff, Option.pure_def,
        Option.some.injEq] at h
      obtain ⟨red, r, green, g, blue, b, rfl⟩ := h
      exact .pairs r g b
    · simp only [Option.bind_eq_bind, Option.bind_eq_some_iff, byte?_eq_some_iff, Option.pure_def,
        Option.some.injEq] at h
      obtain ⟨red, r, green, g, blue, b, alpha, a, rfl⟩ := h
      exact .alpha r g b a
    · exact absurd h (Option.some_ne_none _).symm
  · intro h
    cases h with
    | digits r g b =>
      obtain ⟨m, hr, rfl⟩ := (doubled _ _).mp r
      obtain ⟨n, hg, rfl⟩ := (doubled _ _).mp g
      obtain ⟨k, hb, rfl⟩ := (doubled _ _).mp b
      simp [ofHexBody?, hr, hg, hb]
    | pairs r g b =>
      simp [ofHexBody?, byte?_eq_some_iff.mpr r, byte?_eq_some_iff.mpr g, byte?_eq_some_iff.mpr b]
    | alpha r g b a =>
      simp [ofHexBody?, byte?_eq_some_iff.mpr r, byte?_eq_some_iff.mpr g, byte?_eq_some_iff.mpr b,
        byte?_eq_some_iff.mpr a]

/-- The texts that the reader accepts. -/
theorem ofHex?_eq_some_iff : ofHex? text = some c ↔ IsWritten IsByte text c := by
  constructor
  · intro h
    unfold ofHex? at h
    split at h
    · next body trimmed =>
      exact ⟨body, trimmed ▸ Text.isPadded_trim text, ofHexBody?_eq_some_iff.mp h⟩
    · exact absurd h (Option.some_ne_none _).symm
  · rintro ⟨body, padded, spells⟩
    have clear : ∀ d ∈ '#' :: body, Text.isBlank d = false := by
      refine List.forall_mem_cons.mpr ⟨rfl, fun d hd => Text.IsGraphic.isBlank_eq ?_⟩
      have := spells.toNat_mem d hd
      omega
    have trimmed : Text.trim text = '#' :: body :=
      (Text.trim_eq_iff (List.cons_ne_nil _ _)).mpr ⟨padded, Text.isTrimmed_of_clear clear⟩
    rw [ofHex?, trimmed]
    exact ofHexBody?_eq_some_iff.mpr spells

/-- Without a plus, the accepted texts are those with two digits for every byte. -/
theorem isWritten_isPair_iff :
    IsWritten IsPair text c ↔ IsWritten IsByte text c ∧ '+' ∉ text := by
  constructor
  · rintro ⟨body, padded, spells⟩
    refine ⟨⟨body, padded, spells.imp fun _ _ _ _ => .inl⟩, ?_⟩
    have clear : ∀ d ∈ body, d ≠ '+' := by
      have digit (d : Char) (value : UInt8) (h : IsDigit d value) : d ≠ '+' :=
        fun plus => not_isDigit_plus value (plus ▸ h)
      refine spells.forall_mem digit fun high low b h => ?_
      obtain ⟨m, n, hm, hn, -⟩ := h
      exact ⟨digit high m hm, digit low n hn⟩
    obtain ⟨before, after, rfl, blankBefore, blankAfter⟩ := padded
    intro plus
    simp only [List.mem_append, List.mem_cons] at plus
    rcases plus with (plus | plus | plus) | plus
    · exact absurd (blankBefore _ plus) (by decide)
    · exact absurd plus (by decide)
    · exact clear _ plus rfl
    · exact absurd (blankAfter _ plus) (by decide)
  · rintro ⟨⟨body, padded, spells⟩, clear⟩
    refine ⟨body, padded, spells.imp fun high inBody low b h => h.resolve_right ?_⟩
    rintro ⟨rfl, -⟩
    obtain ⟨before, after, rfl, -⟩ := padded
    exact clear (by simp [inBody])

end Reading

end TidyTree.Color
