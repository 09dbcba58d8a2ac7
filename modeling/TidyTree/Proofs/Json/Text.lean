import Mathlib
import TidyTree.Json.Token

set_option autoImplicit false
set_option relaxedAutoImplicit false

namespace TidyTree.Json

def IsBlank (cs : List Char) : Prop := ∀ c ∈ cs, c ∈ [' ', '\t', '\n', '\r']

/-- What stands before a member of a list or an object: blanks, and behind another member also a
comma. -/
def IsBetween (first : Bool) (cs : List Char) : Prop :=
  if first then IsBlank cs
  else ∃ before after, IsBlank before ∧ IsBlank after ∧ cs = before ++ ',' :: after

def shortEscapes : List (Char × Char) :=
  [('"', '"'), ('\\', '\\'), ('/', '/'), ('b', '\x08'), ('f', '\x0c'), ('n', '\n'), ('r', '\r'),
    ('t', '\t')]

/-- A hexadecimal digit of a value, as a small or a capital letter. -/
def IsHexDigit (d : Char) (value : Nat) : Prop :=
  value < 16 ∧ (d = Nat.digitChar value ∨ d = (Nat.digitChar value).toUpper)

inductive IsHex : List Char → Nat → Prop where
  | digits {a b c d : Char} {h i j k : Nat} (ha : IsHexDigit a h) (hb : IsHexDigit b i)
      (hc : IsHexDigit c j) (hd : IsHexDigit d k) :
      IsHex [a, b, c, d] (16 * (16 * (16 * h + i) + j) + k)

def IsPlain (c : Char) : Prop := 0x20 ≤ c.toNat ∧ c ≠ '"' ∧ c ≠ '\\'

/-- The ways to write the characters of a text between quotation marks. -/
inductive Escaped : List Char → List Char → Prop where
  | nil : Escaped [] []
  | plain {c : Char} {text written : List Char} (plain : IsPlain c) (h : Escaped text written) :
      Escaped (c :: text) (c :: written)
  | short {e c : Char} {text written : List Char} (known : (e, c) ∈ shortEscapes)
      (h : Escaped text written) : Escaped (c :: text) ('\\' :: e :: written)
  | code {c : Char} {digits text written : List Char} (hex : IsHex digits c.toNat)
      (h : Escaped text written) : Escaped (c :: text) ('\\' :: 'u' :: (digits ++ written))
  | pair {c : Char} {high low : Nat} {digits digits' text written : List Char}
      (hex : IsHex digits high) (hex' : IsHex digits' low) (first : 0xD800 ≤ high ∧ high ≤ 0xDBFF)
      (second : 0xDC00 ≤ low ∧ low ≤ 0xDFFF)
      (value : c.toNat = 0x10000 + 0x400 * (high - 0xD800) + (low - 0xDC00))
      (h : Escaped text written) :
      Escaped (c :: text) ('\\' :: 'u' :: (digits ++ '\\' :: 'u' :: (digits' ++ written)))

def Quotes (text written : List Char) : Prop :=
  ∃ inside, Escaped text inside ∧ written = '"' :: (inside ++ ['"'])

theorem isSpace_iff (c : Char) : isSpace c = true ↔ c ∈ [' ', '\t', '\n', '\r'] := by
  simp only [isSpace, Bool.or_eq_true, decide_eq_true_eq, List.mem_cons, List.not_mem_nil, or_false]
  tauto

theorem IsBlank.tail {c : Char} {cs : List Char} (h : IsBlank (c :: cs)) : IsBlank cs :=
  fun d hd => h d (List.mem_cons_of_mem c hd)

theorem isBlank_nil : IsBlank [] := fun _ h => absurd h List.not_mem_nil

theorem isBetween_nil : IsBetween true [] := isBlank_nil

theorem isBetween_comma : IsBetween false [','] := ⟨[], [], isBlank_nil, isBlank_nil, rfl⟩

private theorem skipSpace_of_isSpace {c : Char} {cs : List Char} (h : isSpace c = true) :
    skipSpace (c :: cs) = skipSpace cs := List.dropWhile_cons_of_pos h

theorem skipSpace_of_not_isSpace {c : Char} {cs : List Char} (h : isSpace c = false) :
    skipSpace (c :: cs) = c :: cs := List.dropWhile_cons_of_neg (by simp [h])

theorem IsBlank.skipSpace_append {blank : List Char} (h : IsBlank blank) (rest : List Char) :
    skipSpace (blank ++ rest) = skipSpace rest := by
  induction blank with
  | nil => rfl
  | cons c cs ih =>
    rw [List.cons_append, skipSpace_of_isSpace ((isSpace_iff c).mpr (h c List.mem_cons_self)),
      ih h.tail]

theorem IsBlank.skipSpace_eq {blank : List Char} (h : IsBlank blank) {c : Char} {rest : List Char}
    (other : isSpace c = false) : skipSpace (blank ++ c :: rest) = c :: rest := by
  rw [h.skipSpace_append, skipSpace_of_not_isSpace other]

theorem IsBlank.skipSpace_eq_nil {blank : List Char} (h : IsBlank blank) :
    skipSpace blank = [] := by
  have skipped := h.skipSpace_append []
  rw [List.append_nil] at skipped
  exact skipped

theorem shortMeaning?_of_mem {e c : Char} (h : (e, c) ∈ shortEscapes) :
    shortMeaning? e = some c := by
  simp only [shortEscapes, List.mem_cons, Prod.mk.injEq, List.not_mem_nil, or_false] at h
  rcases h with ⟨rfl, rfl⟩ | ⟨rfl, rfl⟩ | ⟨rfl, rfl⟩ | ⟨rfl, rfl⟩ | ⟨rfl, rfl⟩ | ⟨rfl, rfl⟩ |
    ⟨rfl, rfl⟩ | ⟨rfl, rfl⟩ <;> decide

theorem IsHexDigit.hexValue?_eq {d : Char} {value : Nat} (h : IsHexDigit d value) :
    hexValue? d = some value := by
  obtain ⟨small, spelled⟩ := h
  interval_cases value <;> rcases spelled with rfl | rfl <;> decide

theorem isHexDigit_digitChar {value : Nat} (h : value < 16) :
    IsHexDigit (Nat.digitChar value) value := ⟨h, Or.inl rfl⟩

private theorem IsHex.readQuoted_eq {digits : List Char} {value : Nat} (h : IsHex digits value)
    (high : Option Nat) (rest : List Char) :
    readQuoted (.hex high 0 0) (digits ++ rest) =
      match high with
      | some high =>
        if isLowSurrogate value then
          (readQuoted .plain rest).map fun (text, rest) =>
            (Char.ofNat (pairedCode high value) :: text, rest)
        else .error .malformed
      | none =>
        if isLowSurrogate value then .error .malformed
        else if isHighSurrogate value then readQuoted (.pairBackslash value) rest
        else (readQuoted .plain rest).map fun (text, rest) => (Char.ofNat value :: text, rest) := by
  obtain ⟨ha, hb, hc, hd⟩ := h
  cases high <;>
    simp [readQuoted, ha.hexValue?_eq, hb.hexValue?_eq, hc.hexValue?_eq, hd.hexValue?_eq]

private theorem not_isSurrogate (c : Char) :
    isHighSurrogate c.toNat = false ∧ isLowSurrogate c.toNat = false := by
  have valid : c.toNat < 0xD800 ∨ 0xDFFF < c.toNat ∧ c.toNat < 0x110000 := c.valid
  simp only [isHighSurrogate, isLowSurrogate, Bool.and_eq_false_iff, decide_eq_false_iff_not]
  omega

private theorem Escaped.readQuoted_eq {text written : List Char} (h : Escaped text written)
    (rest : List Char) : readQuoted .plain (written ++ '"' :: rest) = .ok (text, rest) := by
  induction h with
  | nil => rfl
  | @plain c text written plain _ ih =>
    obtain ⟨printable, noQuote, noBackslash⟩ := plain
    rw [List.cons_append, readQuoted]
    dsimp only
    rw [if_neg noQuote, if_neg noBackslash, if_neg (by omega), ih]
    rfl
  | @short e c text written known _ ih =>
    rw [List.cons_append, List.cons_append, readQuoted]
    dsimp only
    rw [if_neg (by decide), if_pos rfl, readQuoted]
    dsimp only
    rw [shortMeaning?_of_mem known, ih]
    rfl
  | @code c digits text written hex _ ih =>
    obtain ⟨noHigh, noLow⟩ := not_isSurrogate c
    have escape : readQuoted .plain ('\\' :: 'u' :: (digits ++ (written ++ '"' :: rest))) =
        readQuoted (.hex none 0 0) (digits ++ (written ++ '"' :: rest)) := rfl
    rw [List.cons_append, List.cons_append, List.append_assoc, escape, hex.readQuoted_eq none]
    dsimp only
    rw [noHigh, noLow, if_neg Bool.false_ne_true, if_neg Bool.false_ne_true, ih, Char.ofNat_toNat]
    rfl
  | @pair c high low digits digits' text written hex hex' first second value _ ih =>
    have isHigh : isHighSurrogate high = true := by simp [isHighSurrogate, first]
    have notLow : isLowSurrogate high = false := by
      simp only [isLowSurrogate, Bool.and_eq_false_iff, decide_eq_false_iff_not]
      omega
    have isLow : isLowSurrogate low = true := by simp [isLowSurrogate, second]
    have code : pairedCode high low = c.toNat := by
      rw [pairedCode, value]
      omega
    have escape (cs : List Char) : readQuoted .plain ('\\' :: 'u' :: cs) =
        readQuoted (.hex none 0 0) cs := rfl
    have escape' (cs : List Char) : readQuoted (.pairBackslash high) ('\\' :: 'u' :: cs) =
        readQuoted (.hex (some high) 0 0) cs := rfl
    rw [List.cons_append, List.cons_append, List.append_assoc, List.cons_append, List.cons_append,
      List.append_assoc, escape, hex.readQuoted_eq none]
    dsimp only
    rw [notLow, isHigh, if_neg Bool.false_ne_true, if_pos rfl, escape', hex'.readQuoted_eq]
    dsimp only
    rw [isLow, if_pos rfl, ih, code, Char.ofNat_toNat]
    rfl

theorem Quotes.readQuoted_eq {text written : List Char} (h : Quotes text written)
    (rest : List Char) :
    ∃ inside, written ++ rest = '"' :: inside ∧ readQuoted .plain inside = .ok (text, rest) := by
  obtain ⟨inside, escaped, rfl⟩ := h
  refine ⟨inside ++ '"' :: rest, ?_, escaped.readQuoted_eq rest⟩
  rw [List.cons_append, List.append_assoc, List.cons_append, List.nil_append]

private theorem mem_shortEscapes {c e : Char} (h : shortEscape? c = some e) : (e, c) ∈ shortEscapes
    := by
  unfold shortEscape? at h
  split_ifs at h <;>
  · obtain rfl := Option.some.inj h
    subst_vars
    decide

private theorem Escaped.encodeChar {text written : List Char} (c : Char) (h : Escaped text written)
    :
    Escaped (c :: text) (encodeChar c ++ written) := by
  unfold Json.encodeChar
  split
  · next e short => exact .short (mem_shortEscapes short) h
  · next noShort =>
    split
    · next control =>
      have zero : IsHexDigit '0' 0 := isHexDigit_digitChar (by decide)
      have hex := IsHex.digits zero zero (isHexDigit_digitChar (by omega : c.toNat / 16 < 16))
        (isHexDigit_digitChar (by omega : c.toNat % 16 < 16))
      have value : 16 * (16 * (16 * 0 + 0) + c.toNat / 16) + c.toNat % 16 = c.toNat := by omega
      rw [value] at hex
      exact .code hex h
    · next printable =>
      refine .plain ⟨by omega, ?_, ?_⟩ h <;>
      · rintro rfl
        exact absurd noShort (by decide)

theorem escaped_flatMap (text : List Char) : Escaped text (text.flatMap encodeChar) := by
  induction text with
  | nil => exact .nil
  | cons c cs ih =>
    rw [List.flatMap_cons]
    exact ih.encodeChar c

theorem quotes_quote (text : List Char) : Quotes text (quote text) :=
  ⟨text.flatMap encodeChar, escaped_flatMap text, rfl⟩

end TidyTree.Json
