import TidyTree.Proofs.Outline.Spelling

set_option autoImplicit false
set_option relaxedAutoImplicit false

/-!
# Reading what is written

However a record is written, it is read back as long as no more brackets of records and their lists
are open at a time than may be; where there are more, the text is refused as malformed. So the
spelling does not matter below sixty-four levels, and on the sixty-fourth only an empty list that is
written out does.
-/

namespace TidyTree.Record

open Json (Fault IsBlank IsBetween Quotes skipSpace skipValue readQuoted)

/-- What is read where so many brackets have to be open at a time and so many may be. -/
def within {β : Type} (nesting depth : Nat) (b : β) : Except Fault β :=
  if nesting ≤ depth then .ok b else .error .malformed

section

variable {β γ : Type} {nesting nesting' depth : Nat}

@[simp] theorem within_zero (depth : Nat) (b : β) : within 0 depth b = .ok b := if_pos depth.zero_le

@[simp] theorem within_succ_zero (nesting : Nat) (b : β) :
    within (nesting + 1) 0 b = .error .malformed := if_neg (Nat.not_succ_le_zero nesting)

@[simp] theorem within_succ_succ (nesting depth : Nat) (b : β) :
    within (nesting + 1) (depth + 1) b = within nesting depth b := by
  simp [within]

private theorem map_within (f : β → γ) (b : β) :
    (within nesting depth b).map f = within nesting depth (f b) := by
  unfold within
  split <;> rfl

private theorem within_bind (b : β) (c : γ) {f : β → Except Fault γ}
    (h : f b = within nesting' depth c) :
    (within nesting depth b).bind f = within (max nesting nesting') depth c := by
  by_cases room : nesting ≤ depth
  · have same : max nesting nesting' ≤ depth ↔ nesting' ≤ depth := by omega
    rw [within, if_pos room, Except.bind, h, within, within]
    simp only [same]
  · have none : ¬ max nesting nesting' ≤ depth := by omega
    rw [within, if_neg room, Except.bind, within, if_neg none]

end

def readChildren (bound : Nat) : Nat → Reader (List Record)
  | 0 => readList bound none
  | depth + 1 => readList bound (some (readNested bound depth))

private theorem readNested_succ (bound depth : Nat) :
    readNested bound (depth + 1) = readRecord bound (some (readChildren bound depth)) := by
  cases depth <;> rfl

namespace Partial

private def take (p : Partial) (r : Record) : Field → Partial
  | .label => { p with label := some r.label }
  | .kind => { p with kind := some r.kind }
  | .comment => { p with comment := some r.comment }
  | .visible => { p with visible := some r.visible }
  | .hidden => { p with hidden := some r.hidden }

private theorem has_take (p : Partial) (r : Record) (field other : Field) :
    (p.take r field).has other = (decide (other = field) || p.has other) := by
  cases field <;> cases other <;> simp [take, has]

private def takeAll (p : Partial) (r : Record) (fields : List Field) : Partial :=
  fields.foldl (fun p field => p.take r field) p

/-- What is read agrees with a record: each field that was met has the value in the record. -/
structure Agrees (p : Partial) (r : Record) : Prop where
  label : ∀ v ∈ p.label, v = r.label
  kind : ∀ v ∈ p.kind, v = r.kind
  comment : ∀ v ∈ p.comment, v = r.comment
  visible : ∀ v ∈ p.visible, v = r.visible
  hidden : ∀ v ∈ p.hidden, v = r.hidden

private theorem agrees_empty (r : Record) : ({} : Partial).Agrees r := by
  constructor <;> exact fun _ h => absurd h (by simp)

private theorem Agrees.take {p : Partial} {r : Record} (h : p.Agrees r) (field : Field) :
    (p.take r field).Agrees r := by
  obtain ⟨label, kind, comment, visible, hidden⟩ := h
  cases field <;> constructor <;> simp_all [Partial.take]

private theorem Agrees.takeAll {p : Partial} {r : Record} (h : p.Agrees r) (fields : List Field) :
    (p.takeAll r fields).Agrees r := by
  induction fields generalizing p with
  | nil => exact h
  | cons field fields ih => exact ih (h.take field)

private theorem has_takeAll (p : Partial) (r : Record) (fields : List Field) (other : Field) :
    (p.takeAll r fields).has other = (decide (other ∈ fields) || p.has other) := by
  induction fields generalizing p with
  | nil => simp [takeAll]
  | cons field fields ih =>
    have step : p.takeAll r (field :: fields) = (p.take r field).takeAll r fields := rfl
    rw [step, ih, has_take]
    by_cases here : other = field <;> simp [here, List.mem_cons]

private theorem getD_eq {β : Type} {o : Option β} {b standard : β} (agrees : ∀ v ∈ o, v = b)
    (lacks : o.isSome = false → b = standard) : o.getD standard = b := by
  cases o with
  | none => exact (lacks rfl).symm
  | some v => exact agrees v rfl

private theorem Agrees.toRecord_eq {p : Partial} {r : Record} (h : p.Agrees r)
    (others : ∀ field, p.has field = false → r.Lacks field) : p.toRecord = r := by
  obtain ⟨label, kind, comment, visible, hidden⟩ := r
  rw [toRecord, getD_eq h.label (others .label), getD_eq h.kind (others .kind),
    getD_eq h.comment (others .comment), getD_eq h.visible (others .visible),
    getD_eq h.hidden (others .hidden)]

private theorem toRecord_takeAll {r : Record} {fields : List Field}
    (others : ∀ field, field ∉ fields → r.Lacks field) :
    (({} : Partial).takeAll r fields).toRecord = r := by
  refine ((agrees_empty r).takeAll fields).toRecord_eq fun field missing => others field fun met => ?_
  rw [has_takeAll] at missing
  simp [met] at missing

end Partial

private theorem Field.ofName?_eq_some {name : String} {field : Field} (h : name ∈ field.names) :
    ofName? name = some field := by
  cases field <;>
  · simp only [names, List.mem_cons, List.not_mem_nil, or_false] at h
    rcases h with rfl | rfl <;> decide

private theorem Field.ofName?_eq_none {name : String} (h : ∀ field : Field, name ∉ field.names) :
    ofName? name = none := by
  have label := h .label
  have kind := h .kind
  have comment := h .comment
  have visible := h .visible
  have hidden := h .hidden
  simp only [names, List.mem_cons, List.not_mem_nil, or_false, not_or] at *
  simp [ofName?, label, kind, comment, visible, hidden]

section

variable {β : Type} {read : Reader β} {list : Reader (List Record)} {fuel : Nat} {first : Bool}
  {blank between rest : List Char} {p : Partial}

private theorem readMembers_close (h : IsBlank blank) (rest : List Char) :
    readMembers read (fuel + 1) first (blank ++ ']' :: rest) = .ok ([], rest) := by
  rw [readMembers, h.skipSpace_eq (by decide)]
  rfl

private theorem readMembers_member (h : IsBetween first between) {c : Char}
    (noSpace : Json.isSpace c = false)
    (noClose : c ≠ ']') (rest : List Char) :
    readMembers read (fuel + 1) first (between ++ c :: rest) =
      (read (c :: rest)).bind fun (value, rest) =>
        (readMembers read fuel false rest).bind fun (values, rest) => .ok (value :: values, rest) := by
  cases first with
  | true =>
    rw [readMembers, IsBlank.skipSpace_eq h noSpace]
    simp only [↓reduceIte, bind_pure_comp]
    rfl
  | false =>
    obtain ⟨before, after, blank, blank', rfl⟩ := h
    rw [readMembers, List.append_assoc, List.cons_append, blank.skipSpace_eq (by decide)]
    simp only [Char.reduceEq, imp_self, Bool.false_eq_true, ↓reduceIte, blank'.skipSpace_eq noSpace,
      List.cons.injEq, noClose, false_and, implies_true, bind_pure_comp]
    rfl

private theorem readElements_close (h : IsBlank blank) (fields : List Field) (rest : List Char) :
    readElements list first p fields (blank ++ ']' :: rest) = .ok (p, rest) := by
  cases fields <;>
  · rw [readElements, h.skipSpace_eq (by decide)]
    rfl

private theorem readElements_element (h : IsBetween first between) {c : Char}
    (noSpace : Json.isSpace c = false) (noClose : c ≠ ']') (field : Field) (fields : List Field)
    (rest : List Char) :
    readElements list first p (field :: fields) (between ++ c :: rest) =
      (readField list p field (c :: rest)).bind fun (p, rest) =>
        readElements list false p fields rest := by
  cases first with
  | true =>
    rw [readElements, IsBlank.skipSpace_eq h noSpace]
    simp only [↓reduceIte]
    rfl
  | false =>
    obtain ⟨before, after, blank, blank', rfl⟩ := h
    rw [readElements, List.append_assoc, List.cons_append, blank.skipSpace_eq (by decide)]
    simp only [Char.reduceEq, imp_self, Bool.false_eq_true, ↓reduceIte, blank'.skipSpace_eq noSpace,
      List.cons.injEq, noClose, false_and, implies_true]
    rfl

private theorem readFields_close (h : IsBlank blank) (rest : List Char) :
    readFields list (fuel + 1) first p (blank ++ '\x7d' :: rest) = .ok (p, rest) := by
  rw [readFields, h.skipSpace_eq (by decide)]
  rfl

private theorem readFields_member (h : IsBetween first between) (rest : List Char) :
    readFields list (fuel + 1) first p (between ++ '"' :: rest) =
      (readQuoted .plain rest).bind fun (name, rest) =>
        match Field.ofName? (String.ofList name) with
        | some field =>
          if p.has field then .error .mismatched
          else
            (readColon rest).bind fun rest =>
              (readField list p field rest).bind fun (p, rest) => readFields list fuel false p rest
        | none =>
          (readColon rest).bind fun rest =>
            (skipValue rest).bind fun rest => readFields list fuel false p rest := by
  cases first with
  | true =>
    rw [readFields, IsBlank.skipSpace_eq h (by decide)]
    simp only [Char.reduceEq, imp_self, ↓reduceIte]
    rfl
  | false =>
    obtain ⟨before, after, blank, blank', rfl⟩ := h
    have inside : skipSpace (after ++ '"' :: rest) = '"' :: rest := blank'.skipSpace_eq (by decide)
    rw [readFields, List.append_assoc, List.cons_append, blank.skipSpace_eq (by decide)]
    simp only [Char.reduceEq, imp_self, Bool.false_eq_true, ↓reduceIte, inside]
    rfl

private theorem readColon_eq (h : IsBlank blank) (rest : List Char) :
    readColon (blank ++ ':' :: rest) = .ok rest := by
  rw [readColon, h.skipSpace_eq (by decide)]
  rfl

private theorem skipValue_blank (h : IsBlank blank) (rest : List Char) :
    skipValue (blank ++ rest) = skipValue rest := h.skip_value rest

private theorem readField_blank (h : IsBlank blank) (field : Field) (rest : List Char) :
    readField list p field (blank ++ rest) = readField list p field rest := by
  have same {β : Type} (read : Reader β) : nullable read (blank ++ rest) = nullable read rest := by
    rw [nullable, nullable, h.skipSpace_append]
  cases field <;> simp only [readField, same]

private theorem readField_null {r : Record} {field : Field} (lacks : r.Lacks field)
    (rest : List Char) :
    readField list p field ('n' :: 'u' :: 'l' :: 'l' :: rest) = .ok (p.take r field, rest) := by
  have none {β : Type} (read : Reader β) :
      nullable read ('n' :: 'u' :: 'l' :: 'l' :: rest) = .ok (none, rest) := rfl
  cases field <;>
  · simp only [Lacks] at lacks
    simp only [readField, none, Partial.take, lacks]
    rfl

private theorem nullable_of_ne {β : Type} {read : Reader β} {c : Char}
    (noSpace : Json.isSpace c = false)
    (other : c ≠ 'n') (rest : List Char) :
    nullable read (c :: rest) = (read (c :: rest)).map fun (value, rest) => (some value, rest) := by
  rw [nullable, Json.skipSpace_of_not_isSpace noSpace]
  split
  · next same =>
    obtain ⟨rfl, _⟩ := List.cons.inj same
    exact absurd rfl other
  · rfl

private theorem readField_text {r : Record} {field : Field} {s : String}
    (held : r.text? field = some s)
    {text : List Char} (quotes : Quotes s.toList text) (rest : List Char) :
    readField list p field (text ++ rest) = .ok (p.take r field, rest) := by
  obtain ⟨inside, written, read⟩ := quotes.readQuoted_eq rest
  have value : nullable readText (text ++ rest) = .ok (some s, rest) := by
    rw [written, nullable_of_ne (by decide) (by decide), readText,
      Json.skipSpace_of_not_isSpace (by decide)]
    simp only [read, Except.map, String.ofList_toList]
  cases field with
  | label =>
    obtain rfl : r.label = s := Option.some.inj held
    simp only [readField, value]
    rfl
  | kind =>
    have kind : r.kind = some s := held
    simp only [readField, value, Partial.take, kind]
    rfl
  | comment =>
    have comment : r.comment = some s := held
    simp only [readField, value, Partial.take, comment]
    rfl
  | visible => exact absurd held (by simp [text?])
  | hidden => exact absurd held (by simp [text?])

private theorem readField_list {r : Record} {field : Field} {rs : List Record} {nesting depth : Nat}
    (held : r.children? field = some rs) {text rest : List Char}
    (read : list ('[' :: text) = within nesting depth (rs, rest)) :
    readField list p field ('[' :: text) = within nesting depth (p.take r field, rest) := by
  have value : nullable list ('[' :: text) = within nesting depth (some rs, rest) := by
    rw [nullable_of_ne (by decide) (by decide), read, map_within]
  cases field with
  | visible =>
    obtain rfl : r.visible = rs := Option.some.inj held
    rw [readField, value, map_within]
    rfl
  | hidden =>
    obtain rfl : r.hidden = rs := Option.some.inj held
    rw [readField, value, map_within]
    rfl
  | _ => exact absurd held (by simp [children?])

end

private theorem finish_eq {r : Record} {fields : List Field} {nesting depth : Nat}
    {rest : List Char}
    {read : Except Fault (Partial × List Char)}
    (h : read = within nesting depth (({} : Partial).takeAll r fields, rest))
    (others : ∀ field, field ∉ fields → r.Lacks field) :
    (read.map fun (p, rest) => (p.toRecord, rest)) = within nesting depth (r, rest) := by
  rw [h, map_within]
  dsimp only
  rw [Partial.toRecord_takeAll others]

private theorem readNested_blank (bound depth : Nat) {blank : List Char} (h : IsBlank blank)
    (rest : List Char) : readNested bound depth (blank ++ rest) = readNested bound depth rest := by
  have same (list : Option (Reader (List Record))) :
      readRecord bound list (blank ++ rest) = readRecord bound list rest := by
    rw [readRecord, readRecord, h.skipSpace_append]
  cases depth with
  | zero => exact same none
  | succ depth =>
    rw [readNested_succ]
    exact same _

private theorem readChildren_bracket (bound depth : Nat) (text : List Char) :
    readChildren bound depth ('[' :: text) =
      match depth with
      | 0 => .error .malformed
      | depth + 1 => readMembers (readNested bound depth) bound true text := by
  cases depth <;> rfl

private theorem Spelled.exists_start {phrase : Phrase} {nesting : Nat} {text : List Char}
    (h : Spelled phrase nesting text)
    (kind : (∃ r, phrase = .record r) ∨ ∃ r field, phrase = .value r field) :
    ∃ c rest, text = c :: rest ∧ Json.isSpace c = false ∧ c ≠ ']' := by
  cases h with
  | text held quotes =>
    obtain ⟨inside, _, rfl⟩ := quotes
    exact ⟨_, _, rfl, by decide, by decide⟩
  | object | array | null | list => exact ⟨_, _, rfl, by decide, by decide⟩
  | _ => simp at kind

private theorem Spelled.ends {r : Record} {fields : List Field} {nesting : Nat} {text : List Char}
    (h : Spelled (.entries false r fields) nesting text) (rest : List Char) :
    Json.Ends (text ++ rest) := by
  cases h with
  | endEntries blanks =>
    rw [List.append_assoc]
    exact blanks.ends (Json.ends_cons (by decide))
  | entry apart =>
    rw [List.append_assoc]
    exact apart.ends _
  | foreign apart =>
    rw [List.append_assoc]
    exact apart.ends _

/-- A part of a record is read from its text, whatever stands behind, with so many brackets open as
its deepest place needs. -/
def Phrase.IsRead (bound nesting : Nat) (text : List Char) : Phrase → Prop
  | record r => ∀ depth rest,
      readNested bound depth (text ++ rest) = within nesting depth (r, rest)
  | value r field => ∀ depth p rest,
      readField (readChildren bound depth) p field (text ++ rest) =
        within nesting depth (p.take r field, rest)
  | members first rs => ∀ depth fuel rest, text.length ≤ fuel →
      readMembers (readNested bound depth) fuel first (text ++ rest) =
        within nesting depth (rs, rest)
  | entries first r fields => ∀ depth fuel p rest, text.length ≤ fuel → fields.Nodup →
      (∀ field ∈ fields, p.has field = false) →
      readFields (readChildren bound depth) fuel first p (text ++ rest) =
        within nesting depth (p.takeAll r fields, rest)
  | elements first r fields => ∀ depth p omitted rest,
      readElements (readChildren bound depth) first p (fields ++ omitted) (text ++ rest) =
        within nesting depth (p.takeAll r fields, rest)

private theorem readFields_entry {list : Reader (List Record)} {fuel : Nat} {first : Bool}
    {p : Partial}
    {between key blank blank' : List Char} {name : String} {field : Field}
    (apart : IsBetween first between) (named : name ∈ field.names)
    (quotes : Quotes name.toList key) (blanks : IsBlank blank) (blanks' : IsBlank blank')
    (missing : p.has field = false) (rest : List Char) :
    readFields list (fuel + 1) first p
        (between ++ (key ++ (blank ++ ':' :: (blank' ++ rest)))) =
      (readField list p field rest).bind fun (p, rest) => readFields list fuel false p rest := by
  obtain ⟨inside, written, read⟩ := quotes.readQuoted_eq (blank ++ ':' :: (blank' ++ rest))
  rw [written, readFields_member apart, read, Except.bind]
  dsimp only
  rw [String.ofList_toList, Field.ofName?_eq_some named]
  dsimp only
  rw [if_neg (by simp [missing]), readColon_eq blanks, Except.bind, readField_blank blanks']

private theorem readFields_foreign {list : Reader (List Record)} {fuel : Nat} {first : Bool}
    {p : Partial}
    {between key blank blank' value : List Char} {name : String}
    (apart : IsBetween first between) (unknown : ∀ field : Field, name ∉ field.names)
    (quotes : Quotes name.toList key) (blanks : IsBlank blank) (blanks' : IsBlank blank')
    (written : Json.IsWritten .value value) {rest : List Char} (ends : Json.Ends rest) :
    readFields list (fuel + 1) first p
        (between ++ (key ++ (blank ++ ':' :: (blank' ++ (value ++ rest))))) =
      readFields list fuel false p rest := by
  obtain ⟨inside, same, read⟩ := quotes.readQuoted_eq (blank ++ ':' :: (blank' ++ (value ++ rest)))
  rw [same, readFields_member apart, read, Except.bind]
  dsimp only
  rw [String.ofList_toList, Field.ofName?_eq_none unknown]
  dsimp only
  rw [readColon_eq blanks, Except.bind, skipValue_blank blanks', written.skipValue_eq ends,
    Except.bind]

/-- Every part is read back from its spelling. The fuel is the length of the whole text, and each
member takes a character of it, so it never runs out. -/
theorem Spelled.isRead {bound : Nat} {phrase : Phrase} {nesting : Nat} {text : List Char}
    (h : Spelled phrase nesting text) (room : text.length ≤ bound) :
    phrase.IsRead bound nesting text := by
  induction h with
  | @object r fields nesting text once others h ih =>
    -- An opening bracket takes one of those that may be open; without any left nothing is read.
    intro depth rest
    rw [List.length_cons] at room
    cases depth with
    | zero => exact (within_succ_zero _ _).symm
    | succ depth =>
      have read := ih (by omega) depth bound {} rest (by omega) once fun field _ => by
        cases field <;> rfl
      have start : readNested bound (depth + 1) ('\x7b' :: (text ++ rest)) =
          (readFields (readChildren bound depth) bound true {} (text ++ rest)).map
            fun (p, rest) => (p.toRecord, rest) := by
        rw [readNested_succ]
        rfl
      rw [List.cons_append, start, within_succ_succ]
      exact finish_eq read others
  | @array r fields omitted nesting text order others h ih =>
    -- The fields that are omitted are left to be read when the closing bracket comes.
    intro depth rest
    rw [List.length_cons] at room
    cases depth with
    | zero => exact (within_succ_zero _ _).symm
    | succ depth =>
      have read := ih (by omega) depth {} omitted rest
      have start : readNested bound (depth + 1) ('[' :: (text ++ rest)) =
          (readElements (readChildren bound depth) true {} Field.all (text ++ rest)).map
            fun (p, rest) => (p.toRecord, rest) := by
        rw [readNested_succ]
        rfl
      have known (field : Field) : field ∈ fields ++ omitted := by
        rw [order]
        cases field <;> decide
      have others (field : Field) (missing : field ∉ fields) : r.Lacks field :=
        others field ((List.mem_append.mp (known field)).resolve_left missing)
      rw [List.cons_append, start, ← order, within_succ_succ]
      exact finish_eq read others
  | null lacks => exact fun depth p rest => (readField_null lacks rest).trans (within_zero _ _).symm
  | text held quotes =>
    exact fun depth p rest => (readField_text held quotes rest).trans (within_zero _ _).symm
  | @list r field rs nesting text held h ih =>
    intro depth p rest
    rw [List.length_cons] at room
    refine readField_list held ?_
    rw [readChildren_bracket]
    cases depth with
    | zero => rfl
    | succ depth =>
      rw [within_succ_succ]
      exact ih (by omega) depth bound rest (by omega)
  | endMembers blanks =>
    intro depth fuel rest enough
    rw [List.length_append, List.length_singleton] at enough
    obtain ⟨fuel, rfl⟩ : ∃ n, fuel = n + 1 := ⟨fuel - 1, by omega⟩
    rw [List.append_assoc, within_zero]
    exact readMembers_close blanks rest
  | @member first r rs nesting nesting' between text more apart h moreH ih ihMore =>
    intro depth fuel rest enough
    obtain ⟨c, text, rfl, noSpace, noClose⟩ := h.exists_start (Or.inl ⟨r, rfl⟩)
    simp only [List.length_append, List.length_cons] at room enough
    obtain ⟨fuel, rfl⟩ : ∃ n, fuel = n + 1 := ⟨fuel - 1, by omega⟩
    have read := ih (by rw [List.length_cons]; omega) depth (more ++ rest)
    have readMore := ihMore (by omega) depth fuel rest (by omega)
    rw [List.append_assoc, List.append_assoc, List.cons_append,
      readMembers_member apart noSpace noClose, ← List.cons_append, read]
    refine within_bind _ _ ?_
    dsimp only
    rw [readMore]
    exact map_within _ _
  | endEntries blanks =>
    intro depth fuel p rest enough _ _
    rw [List.length_append, List.length_singleton] at enough
    obtain ⟨fuel, rfl⟩ : ∃ n, fuel = n + 1 := ⟨fuel - 1, by omega⟩
    rw [List.append_assoc, within_zero]
    exact readFields_close blanks rest
  | @entry first r field fields name nesting nesting' between key blank blank' text more apart named
      quotes blanks blanks' h moreH ih ihMore =>
    intro depth fuel p rest enough once missing
    simp only [List.length_append, List.length_cons] at room enough
    obtain ⟨fuel, rfl⟩ : ∃ n, fuel = n + 1 := ⟨fuel - 1, by omega⟩
    obtain ⟨fresh, once⟩ := List.nodup_cons.mp once
    obtain ⟨here, missing⟩ := List.forall_mem_cons.mp missing
    have read := ih (by omega) depth p (more ++ rest)
    have readMore := ihMore (by omega) depth fuel (p.take r field) rest (by omega) once
      fun other mem => by
        rw [Partial.has_take, missing other mem, Bool.or_false, decide_eq_false_iff_not]
        rintro rfl
        exact fresh mem
    simp only [List.append_assoc, List.cons_append]
    rw [readFields_entry apart named quotes blanks blanks' here, read]
    exact within_bind _ _ readMore
  | @foreign first r fields name nesting between key blank blank' text more apart unknown quotes
      blanks blanks' value moreH ih =>
    intro depth fuel p rest enough once missing
    simp only [List.length_append, List.length_cons] at room enough
    obtain ⟨fuel, rfl⟩ : ∃ n, fuel = n + 1 := ⟨fuel - 1, by omega⟩
    simp only [List.append_assoc, List.cons_append]
    rw [readFields_foreign apart unknown quotes blanks blanks' value (moreH.ends rest)]
    exact ih (by omega) depth fuel p rest (by omega) once missing
  | endElements blanks =>
    intro depth p omitted rest
    rw [List.append_assoc, within_zero]
    exact readElements_close blanks omitted rest
  | @element first r field fields nesting nesting' between text more apart h moreH ih ihMore =>
    intro depth p omitted rest
    obtain ⟨c, text, rfl, noSpace, noClose⟩ := h.exists_start (Or.inr ⟨r, field, rfl⟩)
    simp only [List.length_append, List.length_cons] at room
    have read := ih (by rw [List.length_cons]; omega) depth p (more ++ rest)
    have readMore := ihMore (by omega) depth (p.take r field) omitted rest
    rw [List.append_assoc, List.append_assoc, List.cons_append, List.cons_append,
      readElements_element apart noSpace noClose, ← List.cons_append, read]
    exact within_bind _ _ readMore

private theorem ofText_eq_within {r : Record} {nesting : Nat} {text : List Char}
    (h : r.Spells nesting text) : ofText text = within nesting maxNesting r := by
  obtain ⟨before, inside, after, blank, blank', spelled, rfl⟩ := h
  have room : inside.length ≤ (before ++ (inside ++ after)).length + 1 := by
    simp only [List.length_append]
    omega
  have read := spelled.isRead room maxNesting after
  rw [ofText, readNested_blank _ _ blank, read]
  by_cases enough : nesting ≤ maxNesting
  · simp only [within, if_pos enough, blank'.skipSpace_eq_nil, List.isEmpty_nil, if_true]
  · simp only [within, if_neg enough]

end TidyTree.Record

namespace TidyTree.Tree

open Json (isBlank_nil isBetween_nil isBetween_comma quotes_quote)
open Record (Spells Spelled)

theorem ofText_of_room {r : Record} {nesting : Nat} {text : List Char} (h : r.Spells nesting text)
    (room : nesting ≤ 127) : ofText text = .ok (ofRecord r) ∧
      (Record.ofText text).map droppedOf = .ok (droppedOf r) := by
  have read := Record.ofText_eq_within h
  rw [Record.within, Record.maxNesting, if_pos room] at read
  rw [ofText, read]
  exact ⟨rfl, rfl⟩

theorem ofText_of_crowd {r : Record} {nesting : Nat} {text : List Char} (h : r.Spells nesting text)
    (crowd : 127 < nesting) : ofText text = .error .malformed := by
  have read := Record.ofText_eq_within h
  rw [Record.within, Record.maxNesting, if_neg (Nat.not_le.mpr crowd)] at read
  rw [ofText, read]
  rfl

/-- However a record of fewer than sixty-four levels is written, its text gives its tree, with the
same left out; and so it is with every record as long as no more than 127 brackets of records and
their lists are open at a time. With more of them the text is refused. -/
theorem ofText_of_spells {r : Record} {nesting : Nat} {text : List Char}
    (h : r.Spells nesting text) :
    (r.levels < 64 ∨ nesting ≤ 127 → ofText text = .ok (ofRecord r) ∧
      (Record.ofText text).map droppedOf = .ok (droppedOf r)) ∧
    (127 < nesting → ofText text = .error .malformed) := by
  have deep := h.levels
  exact ⟨fun few => ofText_of_room h (by omega), ofText_of_crowd h⟩

theorem ofText_of_spells_mixed :
    ∃ (r : Record) (text : List Char), r.levels = 2 ∧ r.Spells 3 text ∧
      text = " \x7b\"x\": 1,\"\\u0074ype\":null,\"children\":[[\"a\",null],\x7b\x7d], \"name\":\"r\"\x7d".toList ∧
      ofText text = .ok (ofRecord r) ∧
      (Record.ofText text).map droppedOf = .ok (droppedOf r) := by
  let a : Record := { label := "a" }
  let r : Record := { label := "r", visible := [a, {}] }
  have blank : Json.IsBlank [' '] := fun c hc => by simp_all
  have commaBlank : Json.IsBetween false [',', ' '] := ⟨[], [' '], isBlank_nil, blank, rfl⟩
  have aLabel : a.text? .label = some "a" := rfl
  have labelled : Spelled (.value a .label) 0 _ := .text aLabel (quotes_quote ['a'])
  have aLacks : ∀ field ∈ [Record.Field.comment, .visible, .hidden], a.Lacks field := by
    intro field mem
    fin_cases mem <;> rfl
  have aKind : Spelled (.value a .kind) 0 ['n', 'u', 'l', 'l'] := .null rfl
  have first : Spelled (.record a) 1 _ :=
    .array rfl aLacks (.element isBetween_nil labelled
      (.element isBetween_comma aKind (.endElements isBlank_nil)))
  have lacking : ∀ field ∉ ([] : List Record.Field), Record.Lacks {} field := by
    intro field _
    cases field <;> rfl
  have second : Spelled (.record {}) 1 _ :=
    .object List.nodup_nil lacking (.endEntries isBlank_nil)
  have children : Spelled (.value r .visible) 2 _ :=
    .list rfl (.member isBetween_nil first
      (.member isBetween_comma second (.endMembers isBlank_nil)))
  have rLabel : r.text? .label = some "r" := rfl
  have name : Spelled (.value r .label) 0 _ := .text rLabel (quotes_quote ['r'])
  have zero : Json.IsHexDigit '0' 0 := Json.isHexDigit_digitChar (by decide)
  have letter : Json.IsHex ['0', '0', '7', '4'] 't'.toNat :=
    .digits zero zero (Json.isHexDigit_digitChar (by decide : 7 < 16))
      (Json.isHexDigit_digitChar (by decide : 4 < 16))
  have kind : Json.Quotes "type".toList _ :=
    ⟨_, .code letter (Json.escaped_flatMap ['y', 'p', 'e']), rfl⟩
  have number : Json.IsNumber ['1'] :=
    ⟨[], ['1'], [], [], by simp, Or.inr ⟨⟨by simp, by simp⟩, by simp⟩, Or.inl rfl, Or.inl rfl, rfl⟩
  have unknown : ∀ field : Record.Field, "x" ∉ field.names := fun field => by cases field <;> decide
  have rKind : Spelled (.value r .kind) 0 ['n', 'u', 'l', 'l'] := .null rfl
  have labelEntry : Spelled (.entries false r [.label]) 0 _ :=
    .entry commaBlank (by decide : "name" ∈ Record.Field.label.names) (quotes_quote _) isBlank_nil
      isBlank_nil name (.endEntries isBlank_nil)
  have visibleEntry : Spelled (.entries false r [.visible, .label]) 2 _ :=
    .entry isBetween_comma (by decide : "children" ∈ Record.Field.visible.names) (quotes_quote _)
      isBlank_nil isBlank_nil children labelEntry
  have kindEntry : Spelled (.entries false r [.kind, .visible, .label]) 2 _ :=
    .entry isBetween_comma (by decide) kind isBlank_nil isBlank_nil rKind visibleEntry
  have entries : Spelled (.entries true r [.kind, .visible, .label]) 2 _ :=
    .foreign isBetween_nil unknown (quotes_quote ['x']) isBlank_nil blank (.number number) kindEntry
  have object : Spelled (.record r) 3 _ :=
    .object (by decide) (fun field other => by cases field <;> first | rfl | simp at other) entries
  have spells : r.Spells 3 _ := ⟨[' '], _, [], blank, isBlank_nil, object, rfl⟩
  have read := (ofText_of_spells spells).1 (Or.inr (by decide))
  exact ⟨r, _, by decide, spells, by decide, read⟩

end TidyTree.Tree

namespace TidyTree.Record

open Json (isBlank_nil isBetween_nil isBetween_comma quotes_quote)

/-- A record with so many levels below it, one record on each. -/
def chain : Nat → Record
  | 0 => {}
  | n + 1 => { visible := [chain n] }

def chainText : Nat → List Char
  | 0 => "[\"\",null,null,[],[]]".toList
  | n + 1 => "[\"\",null,null,[".toList ++ (chainText n ++ "],[]]".toList)

private theorem levels_chain (n : Nat) : (chain n).levels = n + 1 := by
  induction n with
  | zero => rfl
  | succ n ih =>
    have step : (chain (n + 1)).levels = 1 + max (max (chain n).levels 0) 0 := by
      rw [chain, levels, levelsAll, levelsAll, levelsAll]
    rw [step, ih]
    omega

private theorem spelled_row {r : Record} {nesting : Nat} {text : List Char} (label : r.label = "")
    (kind : r.kind = none) (comment : r.comment = none) (hidden : r.hidden = [])
    (h : Spelled (.members true r.visible) nesting text) :
    Spelled (.record r) (nesting + 2)
      ("[\"\",null,null,[".toList ++ (text ++ ",[]]".toList)) := by
  have empty : Spelled (.members true []) 0 [']'] := .endMembers isBlank_nil
  have none : r.children? .hidden = some [] := by rw [children?, hidden]
  have named : r.text? .label = some "" := by rw [text?, label]
  have ending : Spelled (.elements false r []) 0 [']'] := .endElements isBlank_nil
  have fifth := Spelled.element isBetween_comma (.list none empty) ending
  have shown : Spelled (.value r .visible) (nesting + 1) ('[' :: text) := .list rfl h
  have fourth := Spelled.element isBetween_comma shown fifth
  have noComment : Spelled (.value r .comment) 0 ['n', 'u', 'l', 'l'] := .null comment
  have third := Spelled.element isBetween_comma noComment fourth
  have noKind : Spelled (.value r .kind) 0 ['n', 'u', 'l', 'l'] := .null kind
  have second := Spelled.element isBetween_comma noKind third
  have first := Spelled.element isBetween_nil (.text named (quotes_quote [])) second
  have lacking : ∀ field ∈ ([] : List Field), r.Lacks field :=
    fun _ mem => absurd mem List.not_mem_nil
  have row := Spelled.array rfl lacking first
  have deepest : max 0 (max 0 (max 0 (max (nesting + 1) (max (0 + 1) 0)))) + 1 = nesting + 2 := by
    omega
  rw [deepest] at row
  exact row

private theorem spelled_chain (n : Nat) : Spelled (.record (chain n)) (2 * n + 2) (chainText n)
    := by
  induction n with
  | zero =>
    have none : Spelled (.members true (chain 0).visible) 0 [']'] := .endMembers isBlank_nil
    exact spelled_row rfl rfl rfl rfl none
  | succ n ih =>
    have members : Spelled (.members true [chain n]) (max (2 * n + 2) 0) (chainText n ++ [']']) :=
      .member isBetween_nil ih (.endMembers isBlank_nil)
    have row : Spelled (.record (chain (n + 1))) _ _ := spelled_row rfl rfl rfl rfl members
    rw [List.append_assoc] at row
    exact row

end TidyTree.Record

namespace TidyTree.Tree

open Record (Spells chain chainText)

/-- On the sixty-fourth level there is no room for an empty list, which is a bracket of its own. -/
theorem not_ofText_of_spells :
    (chain 63).levels = 64 ∧ (chain 63).Spells 128 (chainText 63) ∧
      ofText (chainText 63) = .error .malformed ∧
      ofText (chainText 63) ≠ .ok (ofRecord (chain 63)) := by
  have spells : (chain 63).Spells 128 (chainText 63) :=
    ⟨[], chainText 63, [], Json.isBlank_nil, Json.isBlank_nil, Record.spelled_chain 63,
      (List.append_nil _).symm⟩
  have refused : ofText (chainText 63) = .error .malformed := ofText_of_crowd spells (by decide)
  refine ⟨Record.levels_chain 63, spells, refused, ?_⟩
  rw [refused]
  simp

end TidyTree.Tree
