import TidyTree.Outline.Reader
import TidyTree.Proofs.Json.Value

set_option autoImplicit false
set_option relaxedAutoImplicit false

namespace TidyTree.Record

open Json (IsBlank IsBetween Quotes)

mutual

/-- The number of records on the longest way down, hidden ones included. -/
def levels : Record → Nat
  | ⟨_, _, _, visible, hidden⟩ => 1 + max (levelsAll visible) (levelsAll hidden)

def levelsAll : List Record → Nat
  | [] => 0
  | r :: rs => max r.levels (levelsAll rs)

end

def Field.names : Field → List String
  | label => ["label", "name"]
  | kind => ["kind", "type"]
  | comment => ["comment"]
  | visible => ["visibleChildren", "children"]
  | hidden => ["hiddenChildren", "_children"]

def Field.all : List Field := [label, kind, comment, visible, hidden]

def text? (r : Record) : Field → Option String
  | .label => some r.label
  | .kind => r.kind
  | .comment => r.comment
  | .visible => none
  | .hidden => none

def children? (r : Record) : Field → Option (List Record)
  | .visible => some r.visible
  | .hidden => some r.hidden
  | _ => none

def Lacks (r : Record) : Field → Prop
  | .label => r.label = ""
  | .kind => r.kind = none
  | .comment => r.comment = none
  | .visible => r.visible = []
  | .hidden => r.hidden = []

/-- The parts of a written record. The rest of a list of records, and the rest of a record with the
fields that are still to come, begins behind the opening bracket, or behind a member, and ends with
the closing bracket. -/
inductive Phrase where
  | record (r : Record)
  | value (r : Record) (field : Field)
  | members (first : Bool) (rs : List Record)
  | entries (first : Bool) (r : Record) (fields : List Field)
  | elements (first : Bool) (r : Record) (fields : List Field)

/-- The ways to write a part of a record, each with the number of brackets of records and their
lists that are open at its deepest place. -/
inductive Spelled : Phrase → Nat → List Char → Prop where
  | object {r : Record} {fields : List Field} {nesting : Nat} {text : List Char}
      (once : fields.Nodup) (others : ∀ field, field ∉ fields → r.Lacks field)
      (h : Spelled (.entries true r fields) nesting text) :
      Spelled (.record r) (nesting + 1) ('\x7b' :: text)
  | array {r : Record} {fields omitted : List Field} {nesting : Nat} {text : List Char}
      (order : fields ++ omitted = Field.all) (others : ∀ field ∈ omitted, r.Lacks field)
      (h : Spelled (.elements true r fields) nesting text) :
      Spelled (.record r) (nesting + 1) ('[' :: text)
  | null {r : Record} {field : Field} (lacks : r.Lacks field) :
      Spelled (.value r field) 0 ['n', 'u', 'l', 'l']
  | text {r : Record} {field : Field} {s : String} {text : List Char} (held : r.text? field = some s)
      (quotes : Quotes s.toList text) : Spelled (.value r field) 0 text
  | list {r : Record} {field : Field} {rs : List Record} {nesting : Nat} {text : List Char}
      (held : r.children? field = some rs) (h : Spelled (.members true rs) nesting text) :
      Spelled (.value r field) (nesting + 1) ('[' :: text)
  | endMembers {first : Bool} {blank : List Char} (blanks : IsBlank blank) :
      Spelled (.members first []) 0 (blank ++ [']'])
  | member {first : Bool} {r : Record} {rs : List Record} {nesting nesting' : Nat}
      {between text rest : List Char} (apart : IsBetween first between)
      (h : Spelled (.record r) nesting text) (more : Spelled (.members false rs) nesting' rest) :
      Spelled (.members first (r :: rs)) (max nesting nesting') (between ++ (text ++ rest))
  | endEntries {first : Bool} {r : Record} {blank : List Char} (blanks : IsBlank blank) :
      Spelled (.entries first r []) 0 (blank ++ ['\x7d'])
  | entry {first : Bool} {r : Record} {field : Field} {fields : List Field} {name : String}
      {nesting nesting' : Nat} {between key blank blank' text rest : List Char}
      (apart : IsBetween first between) (named : name ∈ field.names)
      (quotes : Quotes name.toList key) (blanks : IsBlank blank) (blanks' : IsBlank blank')
      (h : Spelled (.value r field) nesting text)
      (more : Spelled (.entries false r fields) nesting' rest) :
      Spelled (.entries first r (field :: fields)) (max nesting nesting')
        (between ++ (key ++ (blank ++ ':' :: (blank' ++ (text ++ rest)))))
  | foreign {first : Bool} {r : Record} {fields : List Field} {name : String} {nesting : Nat}
      {between key blank blank' text rest : List Char} (apart : IsBetween first between)
      (unknown : ∀ field : Field, name ∉ field.names) (quotes : Quotes name.toList key)
      (blanks : IsBlank blank) (blanks' : IsBlank blank') (value : Json.IsWritten .value text)
      (more : Spelled (.entries false r fields) nesting rest) :
      Spelled (.entries first r fields) nesting
        (between ++ (key ++ (blank ++ ':' :: (blank' ++ (text ++ rest)))))
  | endElements {first : Bool} {r : Record} {blank : List Char} (blanks : IsBlank blank) :
      Spelled (.elements first r []) 0 (blank ++ [']'])
  | element {first : Bool} {r : Record} {field : Field} {fields : List Field}
      {nesting nesting' : Nat} {between text rest : List Char} (apart : IsBetween first between)
      (h : Spelled (.value r field) nesting text)
      (more : Spelled (.elements false r fields) nesting' rest) :
      Spelled (.elements first r (field :: fields)) (max nesting nesting')
        (between ++ (text ++ rest))

/-- The text writes the record and nothing else, with so many brackets of records and their lists
open at its deepest place. -/
def Spells (r : Record) (nesting : Nat) (text : List Char) : Prop :=
  ∃ before inside after, IsBlank before ∧ IsBlank after ∧ Spelled (.record r) nesting inside ∧
    text = before ++ (inside ++ after)

def fieldLevels (r : Record) (field : Field) : Nat := levelsAll ((r.children? field).getD [])

private theorem fieldLevels_of_lacks {r : Record} {field : Field} (h : r.Lacks field) :
    r.fieldLevels field = 0 := by
  cases field with
  | visible =>
    have none : r.visible = [] := h
    rw [fieldLevels, children?, none]
    rfl
  | hidden =>
    have none : r.hidden = [] := h
    rw [fieldLevels, children?, none]
    rfl
  | _ => rfl

private theorem fieldLevels_of_text {r : Record} {field : Field} {s : String}
    (h : r.text? field = some s) : r.fieldLevels field = 0 := by
  cases field with
  | visible => exact absurd h (by simp [text?])
  | hidden => exact absurd h (by simp [text?])
  | _ => rfl

private theorem levels_eq (r : Record) :
    r.levels = 1 + max (r.fieldLevels .visible) (r.fieldLevels .hidden) := by
  cases r
  rw [levels]
  rfl

private theorem fieldLevels_le (r : Record) (field : Field) : r.fieldLevels field + 1 ≤ r.levels
    := by
  rw [levels_eq]
  cases field with
  | visible => omega
  | hidden => omega
  | _ => exact (Nat.le_add_right 1 _)

private theorem levels_le {r : Record} {bound : Nat} (h : ∀ field, r.fieldLevels field ≤ bound) :
    r.levels ≤ bound + 1 := by
  have visible := h .visible
  have hidden := h .hidden
  rw [levels_eq]
  omega

/-- How many brackets a part of a record opens, by the levels of the records in it. -/
private def Phrase.IsDeep (nesting : Nat) : Phrase → Prop
  | record r => 2 * r.levels ≤ nesting + 1 ∧ nesting ≤ 2 * r.levels
  | value r field => 2 * r.fieldLevels field ≤ nesting ∧ nesting ≤ 2 * r.fieldLevels field + 1
  | members _ rs => 2 * levelsAll rs ≤ nesting + 1 ∧ nesting ≤ 2 * levelsAll rs
  | entries _ r fields => (∀ field ∈ fields, 2 * r.fieldLevels field ≤ nesting) ∧
      nesting + 1 ≤ 2 * r.levels
  | elements _ r fields => (∀ field ∈ fields, 2 * r.fieldLevels field ≤ nesting) ∧
      nesting + 1 ≤ 2 * r.levels

theorem two_le_two_mul_levels (r : Record) : 2 ≤ 2 * r.levels := by
  rw [levels_eq]
  omega

private theorem isDeep_record {r : Record} {nesting : Nat}
    (low : ∀ field, 2 * r.fieldLevels field ≤ nesting) (high : nesting + 1 ≤ 2 * r.levels) :
    (Phrase.record r).IsDeep (nesting + 1) := by
  have levels : r.levels ≤ nesting / 2 + 1 := levels_le fun field => by
    have := low field
    omega
  exact ⟨by omega, high⟩

private theorem isDeep_cons {r : Record} {field : Field} {fields : List Field}
    {nesting nesting' : Nat}
    (h : (Phrase.value r field).IsDeep nesting)
    (more : (∀ other ∈ fields, 2 * r.fieldLevels other ≤ nesting') ∧ nesting' + 1 ≤ 2 * r.levels) :
    (∀ other ∈ field :: fields, 2 * r.fieldLevels other ≤ max nesting nesting') ∧
      max nesting nesting' + 1 ≤ 2 * r.levels := by
  obtain ⟨low, high⟩ := h
  have below := r.fieldLevels_le field
  refine ⟨List.forall_mem_cons.mpr ⟨by omega, fun other mem => ?_⟩, by omega⟩
  have := more.1 other mem
  omega

private theorem Spelled.isDeep {phrase : Phrase} {nesting : Nat} {text : List Char}
    (h : Spelled phrase nesting text) : phrase.IsDeep nesting := by
  induction h with
  | @object r fields nesting text once others h ih =>
    refine isDeep_record (fun field => ?_) ih.2
    by_cases written : field ∈ fields
    · exact ih.1 field written
    · rw [fieldLevels_of_lacks (others field written)]
      exact Nat.zero_le _
  | @array r fields omitted nesting text order others h ih =>
    refine isDeep_record (fun field => ?_) ih.2
    have known : field ∈ fields ++ omitted := by
      rw [order]
      cases field <;> decide
    rcases List.mem_append.mp known with written | left
    · exact ih.1 field written
    · rw [fieldLevels_of_lacks (others field left)]
      exact Nat.zero_le _
  | null lacks => simp [Phrase.IsDeep, fieldLevels_of_lacks lacks]
  | text held _ => simp [Phrase.IsDeep, fieldLevels_of_text held]
  | @list r field rs nesting text held h ih =>
    have same : r.fieldLevels field = levelsAll rs := by rw [fieldLevels, held, Option.getD_some]
    obtain ⟨low, high⟩ := ih
    exact ⟨by omega, by omega⟩
  | endMembers => exact ⟨Nat.zero_le _, Nat.zero_le _⟩
  | @member first r rs nesting nesting' _ _ _ _ _ _ ih ihMore =>
    obtain ⟨low, high⟩ := ih
    obtain ⟨low', high'⟩ := ihMore
    have cons : levelsAll (r :: rs) = max r.levels (levelsAll rs) := by rw [levelsAll]
    constructor <;> (rw [cons]; omega)
  | @endEntries _ r =>
    have := r.two_le_two_mul_levels
    exact ⟨fun _ mem => absurd mem List.not_mem_nil, by omega⟩
  | entry _ _ _ _ _ _ _ ih ihMore => exact isDeep_cons ih ihMore
  | foreign _ _ _ _ _ _ _ ih => exact ih
  | @endElements _ r =>
    have := r.two_le_two_mul_levels
    exact ⟨fun _ mem => absurd mem List.not_mem_nil, by omega⟩
  | element _ _ _ ih ihMore => exact isDeep_cons ih ihMore

theorem Spells.levels {r : Record} {nesting : Nat} {text : List Char} (h : r.Spells nesting text) :
    2 * r.levels ≤ nesting + 1 ∧ nesting ≤ 2 * r.levels := by
  obtain ⟨_, _, _, _, _, spelled, _⟩ := h
  exact spelled.isDeep

end TidyTree.Record
