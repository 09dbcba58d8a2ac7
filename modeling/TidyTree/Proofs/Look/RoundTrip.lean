import TidyTree.Proofs.Look.Bytes

set_option autoImplicit false
set_option relaxedAutoImplicit false

namespace TidyTree.Color

private theorem isDigit_of_toLower {d : Char} {n : Nat} {value : UInt8}
    (same : value.toNat = n % 16)
    (h : d.toLower = hexDigit n) : IsDigit d value := by
  rw [IsDigit, UInt8.lt_iff_toNat_lt, same]
  exact ⟨Nat.mod_lt _ (by decide), h⟩

private theorem isPair_of_lower {high low : Char} {b : UInt8}
    (h : Text.lower [high, low] = hexPair b) :
    IsPair high low b := by
  obtain ⟨hhigh, hlow⟩ :
      high.toLower = hexDigit (b.toNat / 16) ∧ low.toLower = hexDigit b.toNat := by
    simpa [Text.lower, hexPair] using h
  have := b.toNat_lt
  have first : (b / 16).toNat = b.toNat / 16 % 16 := by
    rw [UInt8.toNat_div]
    change b.toNat / 16 = b.toNat / 16 % 16
    omega
  have second : (b % 16).toNat = b.toNat % 16 := UInt8.toNat_mod b 16
  refine ⟨b / 16, b % 16, isDigit_of_toLower first hhigh, isDigit_of_toLower second hlow, ?_⟩
  omega

private theorem exists_pair {core rest : List Char} {b : UInt8}
    (h : Text.lower core = hexPair b ++ rest) : ∃ high low core',
      core = high :: low :: core' ∧ IsPair high low b ∧ Text.lower core' = rest := by
  obtain ⟨pair, core', rfl, hpair, hrest⟩ := List.map_eq_append_iff.mp h
  obtain ⟨high, tail, rfl, hhigh, htail⟩ := List.map_eq_cons_iff.mp hpair
  obtain ⟨low, tail, rfl, hlow, hnil⟩ := List.map_eq_cons_iff.mp htail
  obtain rfl := List.map_eq_nil_iff.mp hnil
  exact ⟨high, low, core', rfl, isPair_of_lower hpair, hrest⟩

private theorem eq_sign_of_toLower {d : Char} (h : d.toLower = '#') : d = '#' := by
  have same := congrArg Char.toNat h
  rw [Text.toNat_toLower] at same
  change _ = 35 at same
  rw [← Char.toNat_inj]
  change _ = 35
  split_ifs at same <;> omega

private theorem spells_of_lower {c : Color} {core : List Char} (h : Text.lower core = c.hexText) :
    ∃ body, core = '#' :: body ∧ Spells IsPair body c := by
  rw [hexText] at h
  obtain ⟨sign, body, rfl, hsign, hbody⟩ := List.map_eq_cons_iff.mp h
  obtain rfl := eq_sign_of_toLower hsign
  rw [List.append_assoc, List.append_assoc] at hbody
  obtain ⟨r₁, r₀, body, rfl, red, hbody⟩ := exists_pair hbody
  obtain ⟨g₁, g₀, body, rfl, green, hbody⟩ := exists_pair hbody
  obtain ⟨b₁, b₀, body, rfl, blue, hbody⟩ := exists_pair hbody
  refine ⟨_, rfl, ?_⟩
  obtain ⟨redByte, greenByte, blueByte, alphaByte⟩ := c
  split at hbody
  · next full =>
    obtain rfl := List.map_eq_nil_iff.mp hbody
    obtain rfl : alphaByte = 255 := full
    exact .pairs red green blue
  · rw [← List.append_nil (hexPair _)] at hbody
    obtain ⟨a₁, a₀, body, rfl, alpha, hbody⟩ := exists_pair hbody
    obtain rfl := List.map_eq_nil_iff.mp hbody
    exact .alpha red green blue alpha

private theorem ofHex?_of_lower {c : Color} {text core : List Char}
    (padded : Text.IsPadded text core)
    (h : Text.lower core = c.hexText) : ofHex? text = some c := by
  obtain ⟨body, rfl, spells⟩ := spells_of_lower h
  exact ofHex?_eq_some_iff.mpr ⟨body, padded, spells.imp fun _ _ _ _ => .inl⟩

private theorem lower_hexText (c : Color) : Text.lower c.hexText = c.hexText := by
  have digit (n : Nat) : (hexDigit n).toLower = hexDigit n := by
    have small : ∀ m < 16, (Nat.digitChar m).toLower = Nat.digitChar m := by decide
    exact small _ (Nat.mod_lt _ (by decide))
  have pair (b : UInt8) : Text.lower (hexPair b) = hexPair b := by
    simp [Text.lower, hexPair, digit]
  have joined (front back : List Char) :
      Text.lower (front ++ back) = Text.lower front ++ Text.lower back := List.map_append
  rw [hexText]
  change '#' :: Text.lower _ = _
  split <;> simp only [joined, pair, List.append_nil]

private theorem ofHex?_hexText (c : Color) : ofHex? c.hexText = some c :=
  ofHex?_of_lower (.refl _) (lower_hexText c)

private theorem hexText_injective : Function.Injective hexText := by
  intro c d same
  have read := ofHex?_hexText c
  rw [same, ofHex?_hexText] at read
  exact (Option.some.inj read).symm

/-- The text of a word is that of its colour. It is read as the word, also in any mix of cases and
with blanks around it. Two words with the same text are equal. -/
theorem reads_back_wordText (w : UInt32) :
    wordText w = (ofWord w).hexText ∧ readWord? (wordText w) = some w ∧
      (∀ text core, Text.lower core = wordText w → Text.IsPadded text core →
        readWord? text = some w ∧ ofHex? text = some (ofWord w)) ∧
      ∀ v, wordText v = wordText w → v = w := by
  refine ⟨wordText_eq w, ?_, ?_, ?_⟩
  · rw [readWord?_eq_some_iff, wordText_eq, ofHex?_hexText]
  · intro text core cased padded
    rw [wordText_eq] at cased
    have color := ofHex?_of_lower padded cased
    exact ⟨readWord?_eq_some_iff.mpr color, color⟩
  · intro v same
    rw [wordText_eq, wordText_eq] at same
    rw [← toWord_ofWord v, hexText_injective same, toWord_ofWord]

/-- A half transparent grey between a tab and an ideographic space, with capital and small
letters. -/
theorem reads_back_wordText_cased :
    Text.lower "#aBCdEf80".toList = wordText 0xabcdef80 ∧
      Text.IsPadded "\t#aBCdEf80\u3000".toList "#aBCdEf80".toList ∧
      readWord? "\t#aBCdEf80\u3000".toList = some 0xabcdef80 := by
  have cased : Text.lower "#aBCdEf80".toList = wordText 0xabcdef80 := by decide +kernel
  have padded : Text.IsPadded "\t#aBCdEf80\u3000".toList "#aBCdEf80".toList :=
    ⟨['\t'], ['\u3000'], by decide +kernel, by simp [Text.isBlank], by simp [Text.isBlank]⟩
  exact ⟨cased, padded, ((reads_back_wordText 0xabcdef80).2.2.1 _ _ cased padded).1⟩

end TidyTree.Color
