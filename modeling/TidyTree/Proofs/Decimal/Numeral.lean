import Mathlib.Data.List.Basic
import Mathlib.Data.List.TakeWhile
import Mathlib.Data.Nat.Digits.Defs
import TidyTree.Decimal.Numeral
import TidyTree.Proofs.Text.Trimming

set_option autoImplicit false
set_option relaxedAutoImplicit false

namespace TidyTree.Decimal

/-- A row of decimal digits and its number. The last digit is worth the least. -/
def IsRow (cs : List Char) (n : Nat) : Prop :=
  ∃ digits : List Nat, (∀ d ∈ digits, d < 10) ∧ cs = digits.map Nat.digitChar ∧
    Nat.ofDigits 10 digits.reverse = n

/-- A sign; `true` stands for minus. Plus can be left out. -/
inductive IsSign : Bool → List Char → Prop where
  | none : IsSign false []
  | plus : IsSign false ['+']
  | minus : IsSign true ['-']

inductive IsExponent : List Char → Int → Prop where
  | none : IsExponent [] 0
  | some {e : Char} {negative : Bool} {sign ds : List Char} {n : Nat} :
      e = 'e' ∨ e = 'E' → IsSign negative sign → ds ≠ [] → IsRow ds n →
      IsExponent (e :: (sign ++ ds)) (if negative then -n else n)

/-- Digits with at most one point before, among or after them, then an exponent. The number is
`n · 10^e`. -/
inductive IsMagnitude : List Char → Nat → Int → Prop where
  | whole {ds tail : List Char} {n : Nat} {e : Int} :
      ds ≠ [] → IsRow ds n → IsExponent tail e → IsMagnitude (ds ++ tail) n e
  | pointed {ds fraction tail : List Char} {n : Nat} {e : Int} :
      ds ++ fraction ≠ [] → IsRow (ds ++ fraction) n → IsExponent tail e →
      IsMagnitude (ds ++ '.' :: (fraction ++ tail)) n (e - fraction.length)

def IsNumeral (cs : List Char) (negative : Bool) (n : Nat) (e : Int) : Prop :=
  ∃ sign body, IsSign negative sign ∧ IsMagnitude body n e ∧ cs = sign ++ body

section Rows

variable {c : Char} {cs : List Char} {n : Nat}

private theorem isDigit_iff : c.isDigit = true ↔ ∃ d < 10, c = Nat.digitChar d := by
  constructor
  · intro h
    obtain ⟨low, high⟩ := Char.isDigit_iff_toNat.mp h
    have low : 48 ≤ c.toNat := low
    have high : c.toNat ≤ 57 := high
    refine ⟨c.toNat - 48, by omega, ?_⟩
    rw [← Char.toNat_inj, Nat.toNat_digitChar_of_lt_ten (by omega)]
    omega
  · rintro ⟨d, small, rfl⟩
    rw [Nat.isDigit_digitChar, decide_eq_true small]

private theorem digitValue_digitChar {d : Nat} (h : d < 10) : digitValue (Nat.digitChar d) = d := by
  rw [digitValue, Nat.toNat_digitChar_of_lt_ten h]
  change 48 + d - 48 = d
  omega

private theorem spelled_eq (cs : List Char) :
    spelled cs = Nat.ofDigits 10 (cs.map digitValue).reverse := by
  rw [Nat.ofDigits_eq_foldr, List.foldr_reverse, List.foldl_map, spelled]
  congr 1
  funext n d
  exact Nat.add_comm _ _

private theorem isRow_iff : IsRow cs n ↔ (∀ c ∈ cs, c.isDigit = true) ∧ spelled cs = n := by
  constructor
  · rintro ⟨digits, small, rfl, rfl⟩
    have values : (digits.map Nat.digitChar).map digitValue = digits := by
      rw [List.map_map]
      refine (List.map_congr_left fun d hd => ?_).trans (List.map_id digits)
      exact digitValue_digitChar (small d hd)
    refine ⟨?_, by rw [spelled_eq, values]⟩
    intro c hc
    obtain ⟨d, hd, rfl⟩ := List.mem_map.mp hc
    exact isDigit_iff.mpr ⟨d, small d hd, rfl⟩
  · rintro ⟨all, rfl⟩
    have value {c : Char} (hc : c ∈ cs) :
        digitValue c < 10 ∧ Nat.digitChar (digitValue c) = c := by
      obtain ⟨d, small, rfl⟩ := isDigit_iff.mp (all c hc)
      rw [digitValue_digitChar small]
      exact ⟨small, rfl⟩
    refine ⟨cs.map digitValue, ?_, ?_, (spelled_eq cs).symm⟩
    · intro d hd
      obtain ⟨c, hc, rfl⟩ := List.mem_map.mp hd
      exact (value hc).1
    · rw [List.map_map]
      exact ((List.map_congr_left fun c hc => (value hc).2).trans (List.map_id cs)).symm

private theorem digits?_eq_some_iff : digits? cs = some n ↔ cs ≠ [] ∧ IsRow cs n := by
  rw [isRow_iff, digits?, Option.ite_none_left_eq_some, Option.some_inj]
  simp [and_assoc]

end Rows

section Signs

variable {negative : Bool} {sign body cs : List Char}

private theorem exists_sign (cs : List Char) :
    ∃ sign, IsSign (splitSign cs).1 sign ∧ cs = sign ++ (splitSign cs).2 := by
  unfold splitSign
  split
  · exact ⟨['-'], .minus, rfl⟩
  · exact ⟨['+'], .plus, rfl⟩
  · exact ⟨[], .none, rfl⟩

private theorem splitSign_append (h : IsSign negative sign)
    (unsigned : ∀ c ∈ body.head?, c ≠ '+' ∧ c ≠ '-') :
    splitSign (sign ++ body) = (negative, body) := by
  cases h with
  | none =>
    cases body with
    | nil => rfl
    | cons c body =>
      obtain ⟨plus, minus⟩ := unsigned c rfl
      unfold splitSign
      split
      · next same => exact absurd (List.cons.inj same).1 minus
      · next same => exact absurd (List.cons.inj same).1 plus
      · rfl
  | plus => rfl
  | minus => rfl

end Signs

section Magnitudes

variable {cs : List Char} {negative : Bool} {n : Nat} {e : Int}

private theorem ne_sign_of_isDigit {c : Char} (h : c.isDigit = true) : c ≠ '+' ∧ c ≠ '-' := by
  constructor <;> (rintro rfl; revert h; decide)

private theorem exponent?_cons (c : Char) (cs : List Char) : exponent? (c :: cs) =
    if c = 'e' ∨ c = 'E' then
      (digits? (splitSign cs).2).map fun n : Nat => if (splitSign cs).1 then (-n : Int) else n
    else none := by
  simp only [exponent?, Bool.or_eq_true, decide_eq_true_eq]
  cases digits? (splitSign cs).2 <;> rfl

private theorem exponent?_eq_some_iff : exponent? cs = some e ↔ IsExponent cs e := by
  constructor
  · intro h
    cases cs with
    | nil =>
      obtain rfl := Option.some.inj h
      exact .none
    | cons c cs =>
      obtain ⟨sign, isSign, whole⟩ := exists_sign cs
      rw [exponent?_cons, Option.ite_none_right_eq_some] at h
      obtain ⟨letter, h⟩ := h
      obtain ⟨n, digits, rfl⟩ := Option.map_eq_some_iff.mp h
      obtain ⟨ne, row⟩ := digits?_eq_some_iff.mp digits
      have exponent := IsExponent.some letter isSign ne row
      rwa [← whole] at exponent
  · intro h
    cases h with
    | none => rfl
    | @some letter negative sign ds n isLetter isSign ne row =>
      have unsigned : ∀ c ∈ ds.head?, c ≠ '+' ∧ c ≠ '-' := fun c hc =>
        ne_sign_of_isDigit ((isRow_iff.mp row).1 c (List.mem_of_mem_head? hc))
      rw [exponent?_cons, if_pos isLetter, splitSign_append isSign unsigned,
        digits?_eq_some_iff.mpr ⟨ne, row⟩]
      rfl

private theorem IsExponent.head (h : IsExponent cs e) : ∀ c ∈ cs.head?, c = 'e' ∨ c = 'E' := by
  cases h with
  | none => exact fun c hc => absurd hc (Option.not_mem_none c)
  | some letter =>
    intro c hc
    rwa [← Option.some.inj hc]

private theorem takeWhile_append {ds tail : List Char} (digits : ∀ c ∈ ds, c.isDigit = true)
    (stop : ∀ c ∈ tail.head?, c.isDigit = false) :
    (ds ++ tail).takeWhile Char.isDigit = ds ∧ (ds ++ tail).dropWhile Char.isDigit = tail := by
  rw [List.takeWhile_append_of_pos digits, List.dropWhile_append_of_pos digits]
  cases tail with
  | nil => exact ⟨List.append_nil ds, rfl⟩
  | cons c tail =>
    have stop : ¬ c.isDigit = true := by simp [stop c rfl]
    rw [List.takeWhile_cons_of_neg stop, List.dropWhile_cons_of_neg stop]
    exact ⟨List.append_nil ds, rfl⟩

private theorem IsExponent.stop (h : IsExponent cs e) : ∀ c ∈ cs.head?, c.isDigit = false := by
  intro c hc
  rcases h.head c hc with rfl | rfl <;> rfl

private theorem finite?_of_pointed {more : List Char}
    (point : cs.dropWhile Char.isDigit = '.' :: more) : finite? negative cs =
      if cs.takeWhile Char.isDigit ++ more.takeWhile Char.isDigit = [] then none
      else (exponent? (more.dropWhile Char.isDigit)).map fun e =>
        .finite negative (spelled (cs.takeWhile Char.isDigit ++ more.takeWhile Char.isDigit))
          (e - (more.takeWhile Char.isDigit).length) := by
  simp only [finite?, point, List.append_eq_nil_iff, Bool.and_eq_true, List.isEmpty_iff]

private theorem finite?_of_whole (point : ∀ c ∈ (cs.dropWhile Char.isDigit).head?, c ≠ '.') :
    finite? negative cs =
      if cs.takeWhile Char.isDigit = [] then none
      else (exponent? (cs.dropWhile Char.isDigit)).map fun e =>
        .finite negative (spelled (cs.takeWhile Char.isDigit)) e := by
  unfold finite?
  split
  next parts =>
    split at parts
    · next left => exact absurd rfl (point '.' (left ▸ rfl))
    · obtain ⟨rfl, rfl⟩ := Prod.mk.inj parts
      simp

private theorem exists_isMagnitude {numeral : Numeral} (h : finite? negative cs = some numeral) :
    ∃ n e, IsMagnitude cs n e ∧ numeral = .finite negative n e := by
  have digits (ds : List Char) : ∀ c ∈ ds.takeWhile Char.isDigit, c.isDigit = true :=
    fun _ => List.mem_takeWhile_imp
  have whole : cs.takeWhile Char.isDigit ++ cs.dropWhile Char.isDigit = cs :=
    List.takeWhile_append_dropWhile
  by_cases point : ∃ more, cs.dropWhile Char.isDigit = '.' :: more
  · obtain ⟨more, point⟩ := point
    have behind : more.takeWhile Char.isDigit ++ more.dropWhile Char.isDigit = more :=
      List.takeWhile_append_dropWhile
    rw [finite?_of_pointed point, Option.ite_none_left_eq_some] at h
    obtain ⟨ne, h⟩ := h
    obtain ⟨e, exponent, rfl⟩ := Option.map_eq_some_iff.mp h
    have row : IsRow (cs.takeWhile Char.isDigit ++ more.takeWhile Char.isDigit) _ :=
      isRow_iff.mpr ⟨List.forall_mem_append.mpr ⟨digits _, digits _⟩, rfl⟩
    have magnitude := IsMagnitude.pointed ne row (exponent?_eq_some_iff.mp exponent)
    rw [behind, ← point, whole] at magnitude
    exact ⟨_, _, magnitude, rfl⟩
  · have point : ∀ c ∈ (cs.dropWhile Char.isDigit).head?, c ≠ '.' := by
      rintro c hc rfl
      obtain ⟨more, left⟩ := List.head?_eq_some_iff.mp hc
      exact point ⟨more, left⟩
    rw [finite?_of_whole point, Option.ite_none_left_eq_some] at h
    obtain ⟨ne, h⟩ := h
    obtain ⟨e, exponent, rfl⟩ := Option.map_eq_some_iff.mp h
    have magnitude := IsMagnitude.whole ne (isRow_iff.mpr ⟨digits _, rfl⟩)
      (exponent?_eq_some_iff.mp exponent)
    rw [whole] at magnitude
    exact ⟨_, _, magnitude, rfl⟩

private theorem IsMagnitude.finite?_eq (h : IsMagnitude cs n e) (negative : Bool) :
    finite? negative cs = some (.finite negative n e) := by
  cases h with
  | @whole ds tail n e ne row exponent =>
    obtain ⟨all, rfl⟩ := isRow_iff.mp row
    obtain ⟨taken, left⟩ := takeWhile_append all exponent.stop
    have point : ∀ c ∈ ((ds ++ tail).dropWhile Char.isDigit).head?, c ≠ '.' := by
      rw [left]
      intro c hc
      rcases exponent.head c hc with rfl | rfl <;> decide
    rw [finite?_of_whole point, taken, left, if_neg ne, exponent?_eq_some_iff.mpr exponent]
    rfl
  | @pointed ds fraction tail n e ne row exponent =>
    obtain ⟨all, rfl⟩ := isRow_iff.mp row
    obtain ⟨before, after⟩ := List.forall_mem_append.mp all
    have point : ∀ c ∈ ('.' :: (fraction ++ tail)).head?, c.isDigit = false := by
      intro c hc
      obtain rfl := Option.some.inj hc
      rfl
    obtain ⟨taken, left⟩ := takeWhile_append before point
    obtain ⟨takenAfter, leftAfter⟩ := takeWhile_append after exponent.stop
    rw [finite?_of_pointed left, taken, takenAfter, leftAfter, if_neg ne,
      exponent?_eq_some_iff.mpr exponent]
    rfl

private theorem IsMagnitude.head (h : IsMagnitude cs n e) :
    ∀ c ∈ cs.head?, c.isDigit = true ∨ c = '.' := by
  cases h with
  | whole ne row =>
    intro c hc
    rw [List.head?_append_of_ne_nil _ ne] at hc
    exact Or.inl ((isRow_iff.mp row).1 c (List.mem_of_mem_head? hc))
  | @pointed ds fraction _ _ _ ne row =>
    intro c hc
    cases ds with
    | nil => exact Or.inr (Option.some.inj hc).symm
    | cons d ds =>
      obtain rfl := Option.some.inj hc
      exact Or.inl ((isRow_iff.mp row).1 d List.mem_cons_self)

private theorem IsMagnitude.read?_append {sign : List Char} (h : IsMagnitude cs n e)
    (isSign : IsSign negative sign) :
    Numeral.read? (sign ++ cs) = some (.finite negative n e) := by
  have unsigned : ∀ c ∈ cs.head?, c ≠ '+' ∧ c ≠ '-' := by
    intro c hc
    rcases h.head c hc with digit | rfl
    · exact ne_sign_of_isDigit digit
    · decide
  have unnamed (first : Char) (rest : List Char) (letter : first = 'n' ∨ first = 'i') :
      cs.map Char.toLower ≠ first :: rest := by
    intro named
    obtain ⟨c, cs, rfl, rfl, -⟩ := List.map_eq_cons_iff.mp named
    rcases h.head c rfl with digit | rfl
    · have other : ∀ d < 10, (Nat.digitChar d).toLower ≠ 'n' ∧ (Nat.digitChar d).toLower ≠ 'i' := by
        decide
      obtain ⟨d, small, rfl⟩ := isDigit_iff.mp digit
      exact letter.elim (other d small).1 (other d small).2
    · exact absurd letter (by decide)
  rw [Numeral.read?, splitSign_append isSign unsigned]
  dsimp only
  rw [if_neg (unnamed _ _ (Or.inl rfl)), if_neg, h.finite?_eq]
  simp [unnamed]

/-- Apart from the names, the texts that the reader accepts are the numerals. -/
theorem read?_eq_finite_iff :
    Numeral.read? cs = some (.finite negative n e) ↔ IsNumeral cs negative n e := by
  constructor
  · intro h
    obtain ⟨sign, isSign, whole⟩ := exists_sign cs
    unfold Numeral.read? at h
    dsimp only at h
    split at h
    · exact absurd h (by simp)
    · split at h
      · exact absurd h (by simp)
      · obtain ⟨_, _, magnitude, same⟩ := exists_isMagnitude h
        obtain ⟨rfl, rfl, rfl⟩ := Numeral.finite.inj same
        exact ⟨sign, _, isSign, magnitude, whole⟩
  · rintro ⟨sign, body, isSign, magnitude, rfl⟩
    exact magnitude.read?_append isSign

/-- The whole numerals below a bound are rows of digits behind a plus or nothing. -/
theorem whole?_eq_some_iff {bound : Nat} : whole? bound cs = some n ↔
    (∃ sign ds, IsSign false sign ∧ ds ≠ [] ∧ IsRow ds n ∧ cs = sign ++ ds) ∧ n < bound := by
  unfold whole?
  simp only [Option.filter_eq_some_iff, digits?_eq_some_iff, decide_eq_true_eq]
  refine and_congr_left fun _ => ?_
  split
  · next more =>
    constructor
    · rintro ⟨ne, row⟩
      exact ⟨['+'], more, .plus, ne, row, rfl⟩
    · rintro ⟨sign, ds, isSign, ne, row, same⟩
      cases isSign with
      | none =>
        obtain rfl : '+' :: more = ds := same
        exact absurd rfl (ne_sign_of_isDigit ((isRow_iff.mp row).1 '+' List.mem_cons_self)).1
      | plus =>
        obtain rfl : more = ds := (List.cons.inj same).2
        exact ⟨ne, row⟩
  · next unsigned =>
    constructor
    · rintro ⟨ne, row⟩
      exact ⟨[], cs, .none, ne, row, rfl⟩
    · rintro ⟨sign, ds, isSign, ne, row, rfl⟩
      cases isSign with
      | none => exact ⟨ne, row⟩
      | plus => exact absurd rfl (unsigned ds)

end Magnitudes

section Characters

variable {cs : List Char} {negative : Bool} {n : Nat} {e : Int}

theorem IsRow.graphic (h : IsRow cs n) : ∀ c ∈ cs, Text.IsGraphic c := by
  intro c hc
  have range : 48 ≤ c.toNat ∧ c.toNat ≤ 57 := Char.isDigit_iff_toNat.mp ((isRow_iff.mp h).1 c hc)
  omega

theorem IsSign.graphic (h : IsSign negative cs) : ∀ c ∈ cs, Text.IsGraphic c := by
  cases h with
  | none => exact List.forall_mem_nil _
  | plus => exact List.forall_mem_singleton.mpr (by decide)
  | minus => exact List.forall_mem_singleton.mpr (by decide)

private theorem IsExponent.graphic (h : IsExponent cs e) : ∀ c ∈ cs, Text.IsGraphic c := by
  cases h with
  | none => exact List.forall_mem_nil _
  | some letter isSign _ row =>
    refine List.forall_mem_cons.mpr ⟨?_, List.forall_mem_append.mpr ⟨isSign.graphic, row.graphic⟩⟩
    rcases letter with rfl | rfl <;> decide

theorem IsNumeral.graphic (h : IsNumeral cs negative n e) : ∀ c ∈ cs, Text.IsGraphic c := by
  obtain ⟨sign, body, isSign, magnitude, rfl⟩ := h
  refine List.forall_mem_append.mpr ⟨isSign.graphic, ?_⟩
  cases magnitude with
  | whole _ row exponent => exact List.forall_mem_append.mpr ⟨row.graphic, exponent.graphic⟩
  | pointed _ row exponent =>
    obtain ⟨before, after⟩ := List.forall_mem_append.mp row.graphic
    refine List.forall_mem_append.mpr ⟨before, List.forall_mem_cons.mpr ⟨by decide, ?_⟩⟩
    exact List.forall_mem_append.mpr ⟨after, exponent.graphic⟩

theorem IsNumeral.ne_nil (h : IsNumeral cs negative n e) : cs ≠ [] := by
  obtain ⟨sign, body, -, magnitude, rfl⟩ := h
  refine List.append_ne_nil_of_right_ne_nil _ ?_
  cases magnitude with
  | whole ne => exact List.append_ne_nil_of_left_ne_nil ne _
  | pointed => exact List.append_ne_nil_of_right_ne_nil _ (List.cons_ne_nil _ _)

end Characters

end TidyTree.Decimal
