import TidyTree.Proofs.Decimal.Numeral
import TidyTree.Proofs.Settings.Overrides
import TidyTree.Proofs.Text.Trimming
import TidyTree.Scalar.Exact

set_option autoImplicit false
set_option relaxedAutoImplicit false

namespace TidyTree

/-- A whole numeral with a plus or without a sign, for a number of 64 bits. -/
def Text.SaysCount (text : List Char) (n : Nat) : Prop :=
  ∃ sign ds, Decimal.IsSign false sign ∧ ds ≠ [] ∧ Decimal.IsRow ds n ∧ n < 2 ^ 64 ∧
    IsPadded text (sign ++ ds)

/-- A numeral whose value is finite as a scalar. -/
def Text.SaysScalar {α : Type} [Scalar α] (text : List Char) (x : α) : Prop :=
  ∃ core negative n e, Decimal.IsNumeral core negative n e ∧ Decimal.scalarOf negative n e = x ∧
    Scalar.isFinite x = true ∧ IsPadded text core

/-- One of the words, in any mix of cases. -/
def Text.SaysWord (text : List Char) (words : List String) : Prop :=
  ∃ core, ∃ word ∈ words, lower core = word.toList ∧ IsPadded text core

/-- What is between the blanks, if anything is. -/
def Text.SaysName (text : List Char) (name : String) : Prop :=
  name.toList ≠ [] ∧ IsTrimmed name.toList ∧ IsPadded text name.toList

def Environment.flagWords : Bool → List String
  | true => ["1", "true", "yes", "on"]
  | false => ["0", "false", "no", "off"]

variable {α : Type} [Scalar α] {text : String}

/-- The text says the value for the variable. -/
def Variable.Says : (v : Variable) → String → v.Value α → Prop
  | animation => fun text (d : Duration) => ∃ n, Text.SaysCount text.toList n ∧ .ofMillis n = d
  | fontFamily => fun text (name : String) => Text.SaysName text.toList name
  | zoomRequiresCtrl => fun text (b : Bool) =>
    Text.SaysWord text.toList (Environment.flagWords b)
  | theme => fun text (t : Theme) => Text.SaysWord text.toList [t.name]
  | minScale => fun text (x : α) => Text.SaysScalar text.toList x
  | maxScale => fun text (x : α) => Text.SaysScalar text.toList x
  | fontSize => fun text (x : α) => Text.SaysScalar text.toList x
  | rowSpacing => fun text (x : α) => Text.SaysScalar text.toList x
  | minColumnWidth => fun text (x : α) => Text.SaysScalar text.toList x

private theorem Text.trim_eq_of_graphic {text core : List Char} (ne : core ≠ [])
    (graphic : ∀ c ∈ core, IsGraphic c) : trim text = core ↔ IsPadded text core := by
  rw [trim_eq_iff ne]
  exact and_iff_left (isTrimmed_of_clear fun c hc => (graphic c hc).isBlank_eq)

private theorem Text.saysWord_iff {text : List Char} {words : List String}
    (graphic : ∀ word ∈ words, word.toList ≠ [] ∧ ∀ c ∈ word.toList, IsGraphic c) :
    SaysWord text words ↔ String.ofList (lower (trim text)) ∈ words := by
  constructor
  · rintro ⟨core, word, mem, lowered, padded⟩
    obtain ⟨ne, range⟩ := graphic word mem
    rw [← lowered] at ne range
    have trimmed : trim text = core := by
      refine (trim_eq_of_graphic (fun empty => ne (by rw [empty]; rfl)) fun c hc => ?_).mpr padded
      exact .of_toLower (range _ (List.mem_map_of_mem hc))
    rwa [trimmed, lowered, String.ofList_toList]
  · intro mem
    exact ⟨trim text, _, mem, String.toList_ofList.symm, isPadded_trim text⟩

namespace Environment

theorem duration?_eq_some_iff {d : Duration} :
    duration? text = some d ↔ ∃ n, Text.SaysCount text.toList n ∧ .ofMillis n = d := by
  rw [duration?, Option.map_eq_some_iff]
  refine exists_congr fun n => and_congr_left fun _ => ?_
  rw [Decimal.whole?_eq_some_iff]
  constructor
  · rintro ⟨⟨sign, ds, isSign, ne, row, trimmed⟩, small⟩
    exact ⟨sign, ds, isSign, ne, row, small, trimmed ▸ Text.isPadded_trim _⟩
  · rintro ⟨sign, ds, isSign, ne, row, small, padded⟩
    refine ⟨⟨sign, ds, isSign, ne, row, ?_⟩, small⟩
    refine (Text.trim_eq_of_graphic (List.append_ne_nil_of_right_ne_nil _ ne) ?_).mpr padded
    exact List.forall_mem_append.mpr ⟨isSign.graphic, row.graphic⟩

theorem number?_eq_some_iff {x : α} : number? text = some x ↔ Text.SaysScalar text.toList x := by
  rw [number?, Option.bind_eq_some_iff]
  constructor
  · rintro ⟨numeral, read, finite⟩
    cases numeral with
    | undefined => exact absurd finite (Option.some_ne_none _).symm
    | infinite => exact absurd finite (Option.some_ne_none _).symm
    | finite negative n e =>
      rw [Decimal.Numeral.toFinite?] at finite
      obtain ⟨inRange, same⟩ := Option.ite_none_right_eq_some.mp finite
      obtain rfl := Option.some.inj same
      exact ⟨_, negative, n, e, Decimal.read?_eq_finite_iff.mp read, rfl, inRange,
        Text.isPadded_trim _⟩
  · rintro ⟨core, negative, n, e, numeral, rfl, finite, padded⟩
    have trimmed : Text.trim text.toList = core :=
      (Text.trim_eq_of_graphic numeral.ne_nil numeral.graphic).mpr padded
    refine ⟨.finite negative n e, ?_, if_pos finite⟩
    rw [trimmed, Decimal.read?_eq_finite_iff]
    exact numeral

example : Text.SaysScalar " +.5E1\t".toList (5 : Rat) :=
  number?_eq_some_iff.mp (by decide +kernel)

theorem family?_eq_some_iff {name : String} :
    family? text = some name ↔ Text.SaysName text.toList name := by
  rw [family?, Option.ite_none_left_eq_some, List.isEmpty_iff, Option.some_inj]
  constructor
  · rintro ⟨ne, rfl⟩
    rw [Text.SaysName, String.toList_ofList]
    exact ⟨ne, Text.isTrimmed_trim _, Text.isPadded_trim _⟩
  · rintro ⟨ne, trimmed, padded⟩
    have between : Text.trim text.toList = name.toList := (Text.trim_eq_iff ne).mpr ⟨padded, trimmed⟩
    rw [between]
    exact ⟨ne, String.ofList_toList⟩

theorem flag?_eq_some_iff {b : Bool} :
    flag? text = some b ↔ Text.SaysWord text.toList (flagWords b) := by
  have graphic : ∀ word ∈ flagWords b, word.toList ≠ [] ∧
      ∀ c ∈ word.toList, Text.IsGraphic c := by
    cases b <;> simp [flagWords, Text.IsGraphic]
  have apart : ∀ word ∈ flagWords false, word ∉ flagWords true := by decide
  rw [Text.saysWord_iff graphic, flag?]
  generalize String.ofList (Text.lower (Text.trim text.toList)) = word
  have listedYes : ["1", "true", "yes", "on"].contains word = true ↔ word ∈ flagWords true :=
    List.contains_iff_mem
  have listedNo : ["0", "false", "no", "off"].contains word = true ↔ word ∈ flagWords false :=
    List.contains_iff_mem
  simp only [listedYes, listedNo]
  cases b with
  | true => by_cases yes : word ∈ flagWords true <;> simp [yes]
  | false =>
    by_cases no : word ∈ flagWords false
    · simp [no, apart word no]
    · simp [no]

end Environment

theorem Theme.ofName?_eq_some_iff {t : Theme} :
    Theme.ofName? text = some t ↔ Text.SaysWord text.toList [t.name] := by
  have graphic : ∀ word ∈ [t.name], word.toList ≠ [] ∧
      ∀ c ∈ word.toList, Text.IsGraphic c := by
    cases t <;> simp [name, Text.IsGraphic]
  rw [Text.saysWord_iff graphic, List.mem_singleton, Theme.ofName?]
  generalize String.ofList (Text.lower (Text.trim text.toList)) = word
  cases t with
  | light => simp
  | dark =>
    by_cases dark : word = name .dark
    · subst dark
      simp [name]
    · simp [dark]

/-- The texts that can be read for a variable. -/
theorem Variable.read?_eq_some_iff {v : Variable} {x : v.Value α} :
    v.read? text = some x ↔ v.Says text x := by
  cases v with
  | animation => exact Environment.duration?_eq_some_iff
  | fontFamily => exact Environment.family?_eq_some_iff
  | zoomRequiresCtrl => exact Environment.flag?_eq_some_iff
  | theme => exact Theme.ofName?_eq_some_iff
  | minScale => exact Environment.number?_eq_some_iff
  | maxScale => exact Environment.number?_eq_some_iff
  | fontSize => exact Environment.number?_eq_some_iff
  | rowSpacing => exact Environment.number?_eq_some_iff
  | minColumnWidth => exact Environment.number?_eq_some_iff

/-- A text says at most one value for a variable. -/
theorem Variable.Says.unique {v : Variable} {x y : v.Value α} (hx : v.Says text x)
    (hy : v.Says text y) : x = y :=
  Option.some.inj ((read?_eq_some_iff.mpr hx).symm.trans (read?_eq_some_iff.mpr hy))

theorem Environment.isReadable_iff {env : Environment} :
    env.IsReadable α ↔ ∀ v text, env v = some text → ∃ x : v.Value α, v.Says text x := by
  simp only [IsReadable, Option.isSome_iff_exists, Variable.read?_eq_some_iff]

end TidyTree
