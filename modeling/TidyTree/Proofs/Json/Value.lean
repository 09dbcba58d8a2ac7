import TidyTree.Json.Skip
import TidyTree.Proofs.Json.Text

set_option autoImplicit false
set_option relaxedAutoImplicit false

/-!
# Values that are skipped

The JSON values are given by a grammar of their own. A value of any kind and depth is skipped to its
end and no farther: reading goes on behind it, inside the brackets that were open before.
-/

namespace TidyTree.Json

def IsDigits (cs : List Char) : Prop := cs ≠ [] ∧ ∀ c ∈ cs, c.isDigit = true

/-- The whole part of a number: a zero, or digits that do not begin with one. -/
def IsWhole (cs : List Char) : Prop := cs = ['0'] ∨ IsDigits cs ∧ cs.head? ≠ some '0'

def IsFraction (cs : List Char) : Prop := cs = [] ∨ ∃ digits, IsDigits digits ∧ cs = '.' :: digits

def IsExponent (cs : List Char) : Prop :=
  cs = [] ∨ ∃ e sign digits, e ∈ ['e', 'E'] ∧ sign ∈ [[], ['+'], ['-']] ∧ IsDigits digits ∧
    cs = e :: (sign ++ digits)

def IsNumber (cs : List Char) : Prop :=
  ∃ sign whole fraction exponent, sign ∈ [[], ['-']] ∧ IsWhole whole ∧ IsFraction fraction ∧
    IsExponent exponent ∧ cs = sign ++ (whole ++ (fraction ++ exponent))

/-- What may stand between quotation marks. Surrogates need not come in pairs. -/
inductive IsScript : List Char → Prop where
  | nil : IsScript []
  | plain {c : Char} {cs : List Char} (plain : IsPlain c) (h : IsScript cs) : IsScript (c :: cs)
  | short {e c : Char} {cs : List Char} (known : (e, c) ∈ shortEscapes) (h : IsScript cs) :
      IsScript ('\\' :: e :: cs)
  | code {digits cs : List Char} {value : Nat} (hex : IsHex digits value) (h : IsScript cs) :
      IsScript ('\\' :: 'u' :: (digits ++ cs))

/-- The parts of a JSON text. The rest of a list or an object begins behind the opening bracket, or
behind a member, and ends with the closing bracket. -/
inductive Part where
  | value
  | list (first : Bool)
  | object (first : Bool)

/-- The grammar of JSON values. -/
inductive IsWritten : Part → List Char → Prop where
  | null : IsWritten .value ['n', 'u', 'l', 'l']
  | yes : IsWritten .value ['t', 'r', 'u', 'e']
  | no : IsWritten .value ['f', 'a', 'l', 's', 'e']
  | number {cs : List Char} (number : IsNumber cs) : IsWritten .value cs
  | text {cs : List Char} (script : IsScript cs) : IsWritten .value ('"' :: (cs ++ ['"']))
  | list {cs : List Char} (h : IsWritten (.list true) cs) : IsWritten .value ('[' :: cs)
  | object {cs : List Char} (h : IsWritten (.object true) cs) : IsWritten .value ('\x7b' :: cs)
  | endList {first : Bool} {blank : List Char} (blanks : IsBlank blank) :
      IsWritten (.list first) (blank ++ [']'])
  | inList {first : Bool} {between member rest : List Char} (apart : IsBetween first between)
      (value : IsWritten .value member) (h : IsWritten (.list false) rest) :
      IsWritten (.list first) (between ++ (member ++ rest))
  | endObject {first : Bool} {blank : List Char} (blanks : IsBlank blank) :
      IsWritten (.object first) (blank ++ ['\x7d'])
  | inObject {first : Bool} {between key blank blank' member rest : List Char}
      (apart : IsBetween first between) (script : IsScript key) (blanks : IsBlank blank)
      (blanks' : IsBlank blank') (value : IsWritten .value member)
      (h : IsWritten (.object false) rest) :
      IsWritten (.object first)
        (between ++ '"' :: (key ++ '"' :: (blank ++ ':' :: (blank' ++ (member ++ rest)))))

/-- A number cannot go on with the text. -/
def Ends (cs : List Char) : Prop := ∀ c ∈ cs.head?, c.isDigit = false ∧ c ∉ ['.', 'e', 'E']

theorem ends_cons {c : Char} {cs : List Char} (h : c.isDigit = false ∧ c ∉ ['.', 'e', 'E']) :
    Ends (c :: cs) := by
  intro d hd
  obtain rfl := Option.some.inj hd
  exact h

private theorem ends_of_isSpace {c : Char} {cs : List Char} (h : c ∈ [' ', '\t', '\n', '\r']) :
    Ends (c :: cs) := by
  refine ends_cons ?_
  simp only [List.mem_cons, List.not_mem_nil, or_false] at h
  rcases h with rfl | rfl | rfl | rfl <;> decide

theorem IsBlank.ends {blank rest : List Char} (h : IsBlank blank) (ends : Ends rest) :
    Ends (blank ++ rest) := by
  cases blank with
  | nil => exact ends
  | cons c cs => exact ends_of_isSpace (h c List.mem_cons_self)

theorem IsBetween.ends {between : List Char} (h : IsBetween false between) (rest : List Char) :
    Ends (between ++ rest) := by
  obtain ⟨before, after, blank, _, rfl⟩ := h
  rw [List.append_assoc]
  exact blank.ends (ends_cons (by decide))

private theorem IsWritten.ends {part : Part} {cs : List Char} (h : IsWritten part cs)
    (rest : List Char)
    (behind : part = .list false ∨ part = .object false) : Ends (cs ++ rest) := by
  cases h with
  | endList blanks =>
    rw [List.append_assoc]
    exact blanks.ends (ends_cons (by decide))
  | endObject blanks =>
    rw [List.append_assoc]
    exact blanks.ends (ends_cons (by decide))
  | @inList first _ _ _ apart _ _ =>
    obtain rfl : first = false := by simpa using behind
    rw [List.append_assoc]
    exact apart.ends _
  | @inObject first _ _ _ _ _ _ apart _ _ _ _ _ =>
    obtain rfl : first = false := by simpa using behind
    rw [List.append_assoc]
    exact apart.ends _
  | _ => simp at behind

private def resume (brackets : List Bracket) (cs : List Char) : Except Fault (List Char) :=
  if brackets.isEmpty then .ok cs else skip .member brackets cs

section

variable {mode mode' : Skipping} {brackets brackets' : List Bracket} {c : Char} {cs : List Char}

private theorem skip_of_go (h : Skip.step mode brackets c cs = .go mode' brackets') :
    skip mode brackets (c :: cs) = skip mode' brackets' cs := by
  rw [skip, h]

private theorem skip_of_finish (h : Skip.step mode brackets c cs = Skip.finish brackets') :
    skip mode brackets (c :: cs) = resume brackets' cs := by
  rw [skip, h, Skip.finish, resume]
  cases brackets' <;> rfl

private theorem IsBlank.skip_append {blank : List Char} (h : IsBlank blank) (rest : List Char)
    (passes : ∀ c cs, isSpace c = true → Skip.step mode brackets c cs = .go mode brackets) :
    skip mode brackets (blank ++ rest) = skip mode brackets rest := by
  induction blank with
  | nil => rfl
  | cons c cs ih =>
    rw [List.cons_append, skip_of_go (passes c _ ((isSpace_iff c).mpr (h c List.mem_cons_self))),
      ih h.tail]

theorem IsBlank.skip_value {blank : List Char} (h : IsBlank blank) (rest : List Char) :
    skip .value brackets (blank ++ rest) = skip .value brackets rest :=
  h.skip_append rest fun c cs space => by simp [Skip.step, space]

private theorem IsBlank.skip_opened {blank : List Char} (h : IsBlank blank) (rest : List Char) :
    skip .opened brackets (blank ++ rest) = skip .opened brackets rest :=
  h.skip_append rest fun c cs space => by simp [Skip.step, space]

private theorem IsBlank.skip_key {blank : List Char} (h : IsBlank blank) (rest : List Char) :
    skip .key brackets (blank ++ rest) = skip .key brackets rest :=
  h.skip_append rest fun c cs space => by simp [Skip.step, space]

private theorem IsBlank.skip_colon {blank : List Char} (h : IsBlank blank) (rest : List Char) :
    skip .colon brackets (blank ++ rest) = skip .colon brackets rest :=
  h.skip_append rest fun c cs space => by simp [Skip.step, space]

private theorem IsBlank.skip_member {blank : List Char} (h : IsBlank blank) (b : Bracket)
    (rest : List Char) :
    skip .member (b :: brackets) (blank ++ rest) = skip .member (b :: brackets) rest :=
  h.skip_append rest fun c cs space => by simp [Skip.step, Skip.follow, space]

end

/-! Numbers. -/

private def Digits.after? (place : Digits) (cs : List Char) : Option Digits :=
  cs.foldlM Digits.next? place

private theorem Digits.after?_cons (place : Digits) (c : Char) (cs : List Char) :
    place.after? (c :: cs) = (place.next? c).bind (·.after? cs) := List.foldlM_cons

private theorem Digits.after?_append (place : Digits) (cs ds : List Char) :
    place.after? (cs ++ ds) = (place.after? cs).bind (·.after? ds) := List.foldlM_append

private theorem skip_number {place place' : Digits} {cs : List Char}
    (h : place.after? cs = some place')
    (brackets : List Bracket) (rest : List Char) :
    skip (.number place) brackets (cs ++ rest) = skip (.number place') brackets rest := by
  induction cs generalizing place with
  | nil =>
    obtain rfl := Option.some.inj h
    rfl
  | cons c cs ih =>
    rw [Digits.after?_cons, Option.bind_eq_some_iff] at h
    obtain ⟨middle, next, h⟩ := h
    have goes : Skip.step (.number place) brackets c (cs ++ rest) =
        .go (.number middle) brackets := by
      rw [Skip.step, next]
    rw [List.cons_append, skip_of_go goes, ih h]

private theorem skip_number_of_canEnd {place : Digits} (whole : place.canEnd = true)
    (brackets : List Bracket) {rest : List Char} (ends : Ends rest) :
    skip (.number place) brackets rest = resume brackets rest := by
  cases rest with
  | nil => cases brackets <;> simp [skip, Skip.atEnd, whole, resume]
  | cons c cs =>
    obtain ⟨noDigit, other⟩ := ends c rfl
    simp only [List.mem_cons, List.not_mem_nil, or_false, not_or] at other
    have stops : place.next? c = none := by
      cases place <;> simp_all [Digits.next?, Digits.canEnd]
    have follows : Skip.step (.number place) brackets c cs = Skip.follow brackets c := by
      simp [Skip.step, stops, whole, noDigit]
    cases brackets with
    | nil => rw [skip, follows, resume, Skip.follow, List.isEmpty_nil, if_pos rfl]
    | cons b outer => rw [skip, follows, resume, List.isEmpty_cons, if_neg Bool.false_ne_true, skip,
        Skip.step]

private theorem IsDigits.after?_eq {place : Digits} {cs : List Char}
    (h : ∀ c ∈ cs, c.isDigit = true)
    (loops : ∀ c, c.isDigit = true → place.next? c = some place) : place.after? cs = some place := by
  induction cs with
  | nil => rfl
  | cons c cs ih =>
    rw [Digits.after?_cons, loops c (h c List.mem_cons_self)]
    exact ih fun d hd => h d (List.mem_cons_of_mem c hd)

private theorem IsDigits.exists_cons {cs : List Char} (h : IsDigits cs) :
    ∃ d ds, cs = d :: ds ∧ d.isDigit = true ∧ ∀ c ∈ ds, c.isDigit = true := by
  obtain ⟨some, digits⟩ := h
  obtain ⟨d, ds, rfl⟩ := List.exists_cons_of_ne_nil some
  exact ⟨d, ds, rfl, digits d List.mem_cons_self, fun c hc => digits c (List.mem_cons_of_mem d hc)⟩

private theorem IsWhole.after?_eq {cs : List Char} (h : IsWhole cs) :
    ∃ place, Digits.sign.after? cs = some place ∧ (place = .zero ∨ place = .whole) := by
  rcases h with rfl | ⟨digits, noZero⟩
  · exact ⟨.zero, rfl, Or.inl rfl⟩
  · obtain ⟨d, ds, rfl, digit, digits⟩ := digits.exists_cons
    have other : d ≠ '0' := fun same => noZero (congrArg some same)
    have loops : Digits.whole.after? ds = some .whole :=
      IsDigits.after?_eq digits fun c hc => by simp [Digits.next?, hc]
    refine ⟨.whole, ?_, Or.inr rfl⟩
    rw [Digits.after?_cons]
    simpa [Digits.next?, other, digit] using loops

private theorem IsFraction.after?_eq {cs : List Char} (h : IsFraction cs) {place : Digits}
    (before : place = .zero ∨ place = .whole) :
    ∃ place', place.after? cs = some place' ∧
      (place' = .zero ∨ place' = .whole ∨ place' = .fraction) := by
  rcases h with rfl | ⟨digits, h, rfl⟩
  · exact ⟨place, rfl, by tauto⟩
  · obtain ⟨d, ds, rfl, digit, digits⟩ := h.exists_cons
    have loops : Digits.fraction.after? ds = some .fraction :=
      IsDigits.after?_eq digits fun c hc => by simp [Digits.next?, hc]
    have point : place.next? '.' = some .point := by
      rcases before with rfl | rfl <;> rfl
    refine ⟨.fraction, ?_, by tauto⟩
    rw [Digits.after?_cons, point, Option.bind_some, Digits.after?_cons]
    simpa [Digits.next?, digit] using loops

private theorem IsExponent.after?_eq {cs : List Char} (h : IsExponent cs) {place : Digits}
    (before : place = .zero ∨ place = .whole ∨ place = .fraction) :
    ∃ place', place.after? cs = some place' ∧ place'.canEnd = true := by
  rcases h with rfl | ⟨e, sign, digits, letter, sign?, h, rfl⟩
  · exact ⟨place, rfl, by rcases before with rfl | rfl | rfl <;> rfl⟩
  · obtain ⟨d, ds, rfl, digit, digits⟩ := h.exists_cons
    have loops : Digits.power.after? ds = some .power :=
      IsDigits.after?_eq digits fun c hc => by simp [Digits.next?, hc]
    have exponent : place.next? e = some .exponent := by
      simp only [List.mem_cons, List.not_mem_nil, or_false] at letter
      rcases before with rfl | rfl | rfl <;> rcases letter with rfl | rfl <;> rfl
    refine ⟨.power, ?_, rfl⟩
    rw [Digits.after?_cons, exponent, Option.bind_some]
    simp only [List.mem_cons, List.not_mem_nil, or_false] at sign?
    rcases sign? with rfl | rfl | rfl <;>
      simpa [Digits.after?_cons, Digits.next?, digit] using loops

private theorem Digits.start?_of_next? {c : Char} {place : Digits}
    (h : Digits.sign.next? c = some place) :
    Skipping.start? c = some (.number place, []) := by
  by_cases zero : c = '0'
  · subst zero
    obtain rfl := Option.some.inj h
    rfl
  · rw [Digits.next?, if_neg zero] at h
    by_cases digit : c.isDigit = true
    · rw [if_pos digit] at h
      obtain rfl := Option.some.inj h
      have other (l : Char) (letter : l.isDigit = false) : c ≠ l := by
        rintro rfl
        exact absurd digit (by simp [letter])
      rw [Skipping.start?, if_neg (other _ (by decide)), if_neg (other _ (by decide)),
        if_neg (other _ (by decide)), if_neg (other _ (by decide)), if_neg zero, if_pos digit]
    · rw [if_neg digit] at h
      exact absurd h (by simp)

private theorem IsNumber.exists_places {cs : List Char} (h : IsNumber cs) :
    ∃ c rest place place', cs = c :: rest ∧ Skipping.start? c = some (.number place, []) ∧
      place.after? rest = some place' ∧ place'.canEnd = true := by
  obtain ⟨sign, whole, fraction, exponent, sign?, hwhole, hfraction, hexponent, rfl⟩ := h
  obtain ⟨place₁, first, kind₁⟩ := hwhole.after?_eq
  obtain ⟨place₂, second, kind₂⟩ := hfraction.after?_eq kind₁
  obtain ⟨place₃, third, canEnd⟩ := hexponent.after?_eq kind₂
  have all : Digits.sign.after? (whole ++ (fraction ++ exponent)) = some place₃ := by
    rw [Digits.after?_append, first, Option.bind_some, Digits.after?_append, second,
      Option.bind_some, third]
  simp only [List.mem_cons, List.not_mem_nil, or_false] at sign?
  rcases sign? with rfl | rfl
  · cases unsigned : whole ++ (fraction ++ exponent) with
    | nil =>
      rw [unsigned] at all
      obtain rfl := Option.some.inj all
      exact absurd canEnd (by decide)
    | cons c rest =>
      rw [unsigned, Digits.after?_cons, Option.bind_eq_some_iff] at all
      obtain ⟨place, next, later⟩ := all
      exact ⟨c, rest, place, place₃, rfl, Digits.start?_of_next? next, later, canEnd⟩
  · exact ⟨'-', _, .sign, place₃, rfl, rfl, all, canEnd⟩

/-! Quoted text. -/

private theorem IsHex.skip_eq {digits : List Char} {value : Nat} (h : IsHex digits value)
    (isKey : Bool)
    (brackets : List Bracket) (rest : List Char) :
    skip (.hex isKey 0) brackets (digits ++ rest) = skip (.quoted isKey) brackets rest := by
  obtain ⟨ha, hb, hc, hd⟩ := h
  simp [skip, Skip.step, ha.hexValue?_eq, hb.hexValue?_eq, hc.hexValue?_eq, hd.hexValue?_eq]

private theorem IsScript.skip_eq {script : List Char} (h : IsScript script) (isKey : Bool)
    (brackets : List Bracket) (rest : List Char) :
    skip (.quoted isKey) brackets (script ++ '"' :: rest) =
      if isKey then skip .colon brackets rest else resume brackets rest := by
  have escape (cs : List Char) : skip (.quoted isKey) brackets ('\\' :: cs) =
      skip (.escape isKey) brackets cs := skip_of_go rfl
  induction h with
  | nil =>
    cases isKey with
    | true => exact skip_of_go rfl
    | false => exact skip_of_finish rfl
  | @plain c cs plain _ ih =>
    obtain ⟨printable, noQuote, noBackslash⟩ := plain
    have goes : Skip.step (.quoted isKey) brackets c (cs ++ '"' :: rest) =
        .go (.quoted isKey) brackets := by
      rw [Skip.step, if_neg noQuote, if_neg noBackslash, if_neg (by omega)]
    rw [List.cons_append, skip_of_go goes, ih]
  | @short e c cs known _ ih =>
    have goes : Skip.step (.escape isKey) brackets e (cs ++ '"' :: rest) =
        .go (.quoted isKey) brackets := by
      rw [Skip.step, shortMeaning?_of_mem known, Option.isSome_some, if_pos rfl]
    rw [List.cons_append, List.cons_append, escape, skip_of_go goes, ih]
  | @code digits cs value hex _ ih =>
    have code (cs : List Char) : skip (.escape isKey) brackets ('u' :: cs) =
        skip (.hex isKey 0) brackets cs := skip_of_go rfl
    rw [List.cons_append, List.cons_append, List.append_assoc, escape, code, hex.skip_eq, ih]

/-! Values. -/

private theorem start?_isSome {c : Char} (h : (Skipping.start? c).isSome = true) :
    isSpace c = false ∧ c ≠ ']' ∧ c ≠ '\x7d' := by
  refine ⟨?_, ?_, ?_⟩
  · by_contra space
    rw [Bool.not_eq_false, isSpace_iff] at space
    simp only [List.mem_cons, List.not_mem_nil, or_false] at space
    rcases space with rfl | rfl | rfl | rfl <;> exact absurd h (by decide)
  · rintro rfl
    exact absurd h (by decide)
  · rintro rfl
    exact absurd h (by decide)

private theorem IsWritten.exists_start {cs : List Char} (h : IsWritten .value cs) :
    ∃ c rest, cs = c :: rest ∧ (Skipping.start? c).isSome = true := by
  cases h with
  | number number =>
    obtain ⟨c, rest, _, _, rfl, start, _⟩ := number.exists_places
    exact ⟨c, rest, rfl, by rw [start, Option.isSome_some]⟩
  | _ => exact ⟨_, _, rfl, by decide⟩

private theorem skip_value_start {c : Char} {mode : Skipping} {opened : List Bracket}
    (start : Skipping.start? c = some (mode, opened)) (brackets : List Bracket) (cs : List Char) :
    skip .value brackets (c :: cs) = skip mode (opened ++ brackets) cs := by
  have starts : (Skipping.start? c).isSome = true := by rw [start, Option.isSome_some]
  have noSpace := (start?_isSome starts).1
  exact skip_of_go (by simp [Skip.step, noSpace, Skip.begin, start])

private theorem skip_name (brackets : List Bracket) (name rest : List Char) {c : Char} :
    skip (.name (c :: name)) brackets (c :: name ++ rest) = resume brackets rest := by
  induction name generalizing c with
  | nil => exact skip_of_finish (by simp [Skip.step])
  | cons d name ih =>
    have goes : Skip.step (.name (c :: d :: name)) brackets c (d :: name ++ rest) =
        .go (.name (d :: name)) brackets := by
      simp [Skip.step]
    rw [List.cons_append, skip_of_go goes, ih]

private def Skipping.rest (first : Bool) : Skipping := if first then .opened else .member

private theorem skip_close {first : Bool} {blank : List Char} (h : IsBlank blank) (b : Bracket)
    (brackets : List Bracket) (rest : List Char) :
    skip (.rest first) (b :: brackets) (blank ++ b.close :: rest) = resume brackets rest := by
  have noSpace : isSpace b.close = false := by cases b <;> decide
  cases first with
  | true =>
    refine (h.skip_opened _).trans (skip_of_finish ?_)
    simp [Skip.step, noSpace]
  | false =>
    refine (h.skip_member b _).trans (skip_of_finish ?_)
    simp [Skip.step, Skip.follow, noSpace]

private theorem IsBetween.skip_list {first : Bool} {between : List Char}
    (h : IsBetween first between)
    (brackets : List Bracket) {c : Char} (start : (Skipping.start? c).isSome = true)
    (rest : List Char) :
    skip (.rest first) (.list :: brackets) (between ++ c :: rest) =
      skip .value (.list :: brackets) (c :: rest) := by
  obtain ⟨noSpace, noClose, _⟩ := start?_isSome start
  cases first with
  | true =>
    refine (IsBlank.skip_opened h _).trans ?_
    rw [skip, skip]
    simp [Skip.step, noSpace, noClose, Bracket.close]
  | false =>
    obtain ⟨before, after, blank, blank', rfl⟩ := h
    have comma : skip .member (.list :: brackets) (',' :: (after ++ c :: rest)) =
        skip .value (.list :: brackets) (after ++ c :: rest) := skip_of_go rfl
    rw [List.append_assoc, List.cons_append]
    exact (blank.skip_member _ _).trans (comma.trans (blank'.skip_value _))

private theorem IsBetween.skip_object {first : Bool} {between : List Char}
    (h : IsBetween first between)
    (brackets : List Bracket) (rest : List Char) :
    skip (.rest first) (.object :: brackets) (between ++ '"' :: rest) =
      skip (.quoted true) (.object :: brackets) rest := by
  cases first with
  | true => exact (IsBlank.skip_opened h _).trans (skip_of_go rfl)
  | false =>
    obtain ⟨before, after, blank, blank', rfl⟩ := h
    have comma : skip .member (.object :: brackets) (',' :: (after ++ '"' :: rest)) =
        skip .key (.object :: brackets) (after ++ '"' :: rest) := skip_of_go rfl
    rw [List.append_assoc, List.cons_append]
    exact (blank.skip_member _ _).trans (comma.trans ((blank'.skip_key _).trans (skip_of_go rfl)))

private def Part.IsSkipped (cs : List Char) : Part → Prop
  | value => ∀ brackets rest, Ends rest → skip .value brackets (cs ++ rest) = resume brackets rest
  | list first => ∀ brackets rest,
      skip (.rest first) (.list :: brackets) (cs ++ rest) = resume brackets rest
  | object first => ∀ brackets rest,
      skip (.rest first) (.object :: brackets) (cs ++ rest) = resume brackets rest

private theorem IsWritten.isSkipped {part : Part} {cs : List Char} (h : IsWritten part cs) :
    part.IsSkipped cs := by
  induction h with
  | null => exact fun brackets rest _ => (skip_value_start rfl _ _).trans (skip_name _ _ _)
  | yes => exact fun brackets rest _ => (skip_value_start rfl _ _).trans (skip_name _ _ _)
  | no => exact fun brackets rest _ => (skip_value_start rfl _ _).trans (skip_name _ _ _)
  | number number =>
    intro brackets rest ends
    obtain ⟨c, cs, place, place', rfl, start, after, canEnd⟩ := number.exists_places
    rw [List.cons_append, skip_value_start start, List.nil_append, skip_number after]
    exact skip_number_of_canEnd canEnd brackets ends
  | text script =>
    intro brackets rest _
    have start : Skipping.start? '"' = some (.quoted false, []) := rfl
    rw [List.cons_append, List.append_assoc, skip_value_start start]
    exact script.skip_eq false brackets rest
  | list _ ih => exact fun brackets rest _ => (skip_value_start rfl _ _).trans (ih brackets rest)
  | object _ ih => exact fun brackets rest _ => (skip_value_start rfl _ _).trans (ih brackets rest)
  | endList blanks =>
    intro brackets rest
    rw [List.append_assoc]
    exact skip_close blanks .list brackets rest
  | endObject blanks =>
    intro brackets rest
    rw [List.append_assoc]
    exact skip_close blanks .object brackets rest
  | @inList first between member more apart value h ihMember ihRest =>
    intro brackets rest
    obtain ⟨c, cs, rfl, start⟩ := value.exists_start
    rw [List.append_assoc, List.append_assoc, List.cons_append, apart.skip_list _ start,
      ← List.cons_append, ihMember _ _ (h.ends rest (Or.inl rfl))]
    exact ihRest brackets rest
  | @inObject first between key blank blank' member more apart script blanks blanks' value h ihMember
      ihRest =>
    intro brackets rest
    have colon (cs : List Char) : skip .colon (.object :: brackets) (':' :: cs) =
        skip .value (.object :: brackets) cs := skip_of_go rfl
    simp only [List.append_assoc, List.cons_append]
    rw [apart.skip_object, script.skip_eq, if_pos rfl, blanks.skip_colon, colon, blanks'.skip_value,
      ihMember _ _ (h.ends rest (Or.inr rfl))]
    exact ihRest brackets rest

/-- A value is skipped to its end, whatever stands behind it, unless a number goes on. -/
theorem IsWritten.skipValue_eq {cs : List Char} (h : IsWritten .value cs) {rest : List Char}
    (ends : Ends rest) : skipValue (cs ++ rest) = .ok rest := h.isSkipped [] rest ends

end TidyTree.Json
