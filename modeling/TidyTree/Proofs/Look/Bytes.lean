import Mathlib.Data.Option.Basic
import TidyTree.Proofs.Look.Spelling
import TidyTree.Proofs.Look.Words
import TidyTree.Proofs.Text.Utf8

set_option autoImplicit false
set_option relaxedAutoImplicit false

/-!
# Colours read from bytes

Reading a text byte by byte gives the colour that reading it character by character gives. Where all
characters are ASCII, the bytes are the characters. Where one is not, a numeral has a byte that is
no digit, or a numeral would begin or end inside of a character.
-/

namespace TidyTree.Color

private theorem appendDigit?_of_lt {n : UInt8} (h : n < 16) (digit : UInt8) :
    appendDigit? n digit = (hexValue? (Char.ofUInt8 digit)).map (n * 16 + ·) := by
  rw [appendDigit?]
  cases hv : hexValue? (Char.ofUInt8 digit) with
  | none => rfl
  | some value =>
    have hvalue := (hexValue?_eq_some_iff.mp hv).1
    have next := toNat_mul_add h hvalue
    rw [UInt8.lt_iff_toNat_lt] at h hvalue
    have small : n.toNat * 16 + value.toNat < 256 := by
      have hn : n.toNat < 16 := h
      have hv : value.toNat < 16 := hvalue
      omega
    rw [Option.bind_eq_bind, Option.bind_some, Option.map_some, if_pos small, Option.some_inj,
      ← UInt8.toNat_inj, next, Nat.mul_comm]
    exact Nat.mod_eq_of_lt (by omega)

private theorem number?_single (digit : UInt8) : number? [digit] = hexValue? (Char.ofUInt8 digit)
    := by
  have first : number? [digit] = appendDigit? 0 digit := by simp [number?]
  rw [first, appendDigit?_of_lt (by decide)]
  simp

private theorem number?_pair (high low : UInt8) :
    number? [high, low] = byte? (Char.ofUInt8 high) (Char.ofUInt8 low) := by
  have plus : high.toNat = '+'.toNat ↔ Char.ofUInt8 high = '+' := by
    rw [← Char.toNat_inj]
    rfl
  rw [byte?, number?]
  by_cases signed : high.toNat = '+'.toNat
  · rw [if_pos (plus.mp signed), if_pos ⟨signed, List.cons_ne_nil _ _⟩, ← number?_single]
    simp [number?]
  · rw [if_neg (plus.not.mp signed), if_neg fun h => signed h.1, List.foldlM_cons,
      appendDigit?_of_lt (by decide)]
    cases hm : hexValue? (Char.ofUInt8 high) with
    | none => rfl
    | some m =>
      have small := (hexValue?_eq_some_iff.mp hm).1
      simp [appendDigit?_of_lt small, Option.map_eq_bind]

private theorem readBytes?_of_ascii {bytes : List UInt8} (ascii : ∀ b ∈ bytes, b < 128) :
    readBytes? bytes = (ofHexBody? (bytes.map Char.ofUInt8)).map toWord := by
  have numeral (position size : Nat) (h : position + size ≤ bytes.length) :
      (Text.slice? bytes position size).bind number? =
        number? ((bytes.drop position).take size) := by
    rw [Text.slice?_of_ascii ascii h, Option.bind_some]
  rcases bytes with
    _ | ⟨a, _ | ⟨b, _ | ⟨c, _ | ⟨d, _ | ⟨e, _ | ⟨f, _ | ⟨g, _ | ⟨h, _ | ⟨i, bytes⟩⟩⟩⟩⟩⟩⟩⟩⟩
  · rfl
  · rfl
  · rfl
  · simp [readBytes?, ofHexBody?, numeral, number?_single, Option.map_bind]
  · rfl
  · rfl
  · simp [readBytes?, ofHexBody?, numeral, number?_pair, Option.map_bind]
  · rfl
  · simp [readBytes?, ofHexBody?, numeral, number?_pair, Option.map_bind]
  · rfl

private theorem lt_of_foldlM {bytes : List UInt8} {n m : UInt8}
    (h : bytes.foldlM appendDigit? n = some m) : ∀ b ∈ bytes, b < 128 := by
  induction bytes generalizing n with
  | nil => exact List.forall_mem_nil _
  | cons b bytes ih =>
    rw [List.foldlM_cons, Option.bind_eq_bind, Option.bind_eq_some_iff] at h
    obtain ⟨next, first, rest⟩ := h
    rw [appendDigit?, Option.bind_eq_bind, Option.bind_eq_some_iff] at first
    obtain ⟨value, digit, -⟩ := first
    have small : (Char.ofUInt8 b).toNat ≤ 102 := (hexValue?_eq_some_iff.mp digit).toNat_mem.2
    exact List.forall_mem_cons.mpr ⟨Nat.lt_of_le_of_lt small (by decide), ih rest⟩

private theorem lt_of_number? {bytes : List UInt8} {n : UInt8} (h : number? bytes = some n) :
    ∀ b ∈ bytes, b < 128 := by
  cases bytes with
  | nil => exact List.forall_mem_nil _
  | cons b bytes =>
    rw [number?] at h
    split at h
    · next signed =>
      have plus : b < 128 := UInt8.lt_iff_toNat_lt.mpr (signed.1 ▸ by decide)
      exact List.forall_mem_cons.mpr ⟨plus, lt_of_foldlM h⟩
    · exact lt_of_foldlM h

private theorem lt_of_numeral {bytes : List UInt8} {position size : Nat} {n : UInt8}
    (h : (Text.slice? bytes position size).bind number? = some n) {i : Nat} {b : UInt8}
    (inside : position ≤ i ∧ i < position + size) (hb : bytes[i]? = some b) : b < 128 := by
  rw [Text.slice?] at h
  split at h
  · refine lt_of_number? h b (List.mem_of_getElem? (i := i - position) ?_)
    rw [List.getElem?_take_of_lt (by omega), List.getElem?_drop, Nat.add_sub_cancel' inside.1, hb]
  · exact absurd h (Option.some_ne_none n).symm

private theorem lt_of_readBytes? {bytes : List UInt8} {w : UInt32} (h : readBytes? bytes = some w) :
    ∀ b ∈ bytes, b < 128 := by
  intro b hb
  obtain ⟨i, hi⟩ := List.getElem?_of_mem hb
  have inside : i < bytes.length := (List.getElem?_eq_some_iff.mp hi).1
  unfold readBytes? at h
  split at h
  · obtain ⟨r, hr, h⟩ := Option.bind_eq_some_iff.mp h
    obtain ⟨g, hg, h⟩ := Option.bind_eq_some_iff.mp h
    obtain ⟨b, hb, h⟩ := Option.bind_eq_some_iff.mp h
    obtain _ | _ | _ : i < 1 ∨ (1 ≤ i ∧ i < 2) ∨ 2 ≤ i := by omega
    · exact lt_of_numeral hr ⟨by omega, by omega⟩ hi
    · exact lt_of_numeral hg ⟨by omega, by omega⟩ hi
    · exact lt_of_numeral hb ⟨by omega, by omega⟩ hi
  · obtain ⟨r, hr, h⟩ := Option.bind_eq_some_iff.mp h
    obtain ⟨g, hg, h⟩ := Option.bind_eq_some_iff.mp h
    obtain ⟨b, hb, h⟩ := Option.bind_eq_some_iff.mp h
    obtain _ | _ | _ : i < 2 ∨ (2 ≤ i ∧ i < 4) ∨ 4 ≤ i := by omega
    · exact lt_of_numeral hr ⟨by omega, by omega⟩ hi
    · exact lt_of_numeral hg ⟨by omega, by omega⟩ hi
    · exact lt_of_numeral hb ⟨by omega, by omega⟩ hi
  · obtain ⟨r, hr, h⟩ := Option.bind_eq_some_iff.mp h
    obtain ⟨g, hg, h⟩ := Option.bind_eq_some_iff.mp h
    obtain ⟨b, hb, h⟩ := Option.bind_eq_some_iff.mp h
    obtain ⟨a, ha, h⟩ := Option.bind_eq_some_iff.mp h
    obtain _ | _ | _ | _ : i < 2 ∨ (2 ≤ i ∧ i < 4) ∨ (4 ≤ i ∧ i < 6) ∨ 6 ≤ i := by omega
    · exact lt_of_numeral hr ⟨by omega, by omega⟩ hi
    · exact lt_of_numeral hg ⟨by omega, by omega⟩ hi
    · exact lt_of_numeral hb ⟨by omega, by omega⟩ hi
    · exact lt_of_numeral ha ⟨by omega, by omega⟩ hi
  · exact absurd h (Option.some_ne_none w).symm

private theorem readBytes?_utf8 (body : List Char) :
    readBytes? (Text.utf8 body) = (ofHexBody? body).map toWord := by
  by_cases ascii : ∀ c ∈ body, c.toNat < 128
  · obtain ⟨same, small⟩ := Text.map_ofUInt8_utf8 ascii
    rw [readBytes?_of_ascii small, same]
  · push Not at ascii
    obtain ⟨c, hc, large⟩ := ascii
    obtain ⟨b, hb, high⟩ := Text.exists_mem_utf8 hc large
    have noBytes : readBytes? (Text.utf8 body) = none := by
      rw [Option.eq_none_iff_forall_ne_some]
      intro w hw
      exact absurd (lt_of_readBytes? hw b hb) (UInt8.not_lt.mpr high)
    have noBody : ofHexBody? body = none := by
      rw [Option.eq_none_iff_forall_ne_some]
      intro w hw
      have := ((ofHexBody?_eq_some_iff.mp hw).toNat_mem c hc).2
      omega
    rw [noBytes, noBody]
    rfl

private theorem readWord?_eq (text : List Char) : readWord? text = (ofHex? text).map toWord := by
  rw [readWord?, ofHex?]
  rcases Text.trim text with _ | ⟨sign, body⟩
  · rfl
  · by_cases h : sign = '#'
    · rw [h]
      exact readBytes?_utf8 body
    · simp [h]

theorem readWord?_eq_some_iff {text : List Char} {w : UInt32} :
    readWord? text = some w ↔ ofHex? text = some (ofWord w) := by
  rw [readWord?_eq, Option.map_eq_some_iff]
  constructor
  · rintro ⟨c, hc, rfl⟩
    rw [hc, ofWord_toWord]
  · intro h
    exact ⟨ofWord w, h, toWord_ofWord w⟩

/-- The accepted texts are the spellings of colours, and the colour that is read is the one that is
spelled. Spellings with two digits for every byte are accepted as they should be; the other texts
that are accepted are those that have a plus in the place of a first digit. -/
theorem reads_iff_isWritten (text : List Char) (w : UInt32) :
    (readWord? text = some w ↔ ofHex? text = some (ofWord w)) ∧
      (readWord? text = some w ↔ IsWritten IsByte text (ofWord w)) ∧
      (IsWritten IsPair text (ofWord w) ↔ readWord? text = some w ∧ '+' ∉ text) :=
  ⟨readWord?_eq_some_iff, readWord?_eq_some_iff.trans ofHex?_eq_some_iff, by
    rw [isWritten_isPair_iff, readWord?_eq_some_iff, ofHex?_eq_some_iff]⟩

/-- A plus in front of the only digit of each channel. -/
def signedText : List Char := "#+f+f+f".toList

/-- The text with a plus for every channel is no spelling with two digits for every byte, but it is
read as a dark grey. -/
theorem not_isWritten_signedText : readWord? signedText = some 0x0f0f0fff ∧
    ofHex? signedText = some (solid 15 15 15) ∧ ¬ ∃ c, IsWritten IsPair signedText c := by
  refine ⟨by decide +kernel, by decide +kernel, ?_⟩
  rintro ⟨c, written⟩
  exact (isWritten_isPair_iff.mp written).2 (by decide +kernel)

end TidyTree.Color
