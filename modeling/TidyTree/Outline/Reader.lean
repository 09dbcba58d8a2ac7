import TidyTree.Json.Skip
import TidyTree.Outline.Tree

set_option autoImplicit false
set_option relaxedAutoImplicit false

/-!
# Reading records

A record is read from JSON in one pass, so the first problem met decides. It may be an object, whose
fields have two names each, come in any order and may be missing or null, or a list of up to five
values in the order of the fields. Fields with other names are skipped. Records and child lists nest
up to a limit.
-/

namespace TidyTree.Record

open Json (Fault skipSpace expect mismatch readQuoted skipValue)

abbrev Reader (β : Type) := List Char → Except Fault (β × List Char)

inductive Field where
  | label
  | kind
  | comment
  | visible
  | hidden
  deriving DecidableEq, Repr

def Field.ofName? (name : String) : Option Field :=
  if name = "label" || name = "name" then some label
  else if name = "kind" || name = "type" then some kind
  else if name = "comment" then some comment
  else if name = "visibleChildren" || name = "children" then some visible
  else if name = "hiddenChildren" || name = "_children" then some hidden
  else none

def nullable {β : Type} (read : Reader β) : Reader (Option β) := fun cs =>
  match skipSpace cs with
  | 'n' :: rest => (expect ['u', 'l', 'l'] rest).map fun rest => (none, rest)
  | cs => (read cs).map fun (value, rest) => (some value, rest)

def readText : Reader String := fun cs =>
  match skipSpace cs with
  | '"' :: rest => (readQuoted .plain rest).map fun (text, rest) => (String.ofList text, rest)
  | cs => .error (mismatch cs)

/-- The members of a list from behind its opening bracket, each read by `read`, at most `fuel` of
them; `first` tells that none was read yet. -/
def readMembers {β : Type} (read : Reader β) (fuel : Nat) (first : Bool) : Reader (List β) := fun cs =>
  match fuel with
  | 0 => .error .truncated
  | fuel + 1 =>
    let member (cs : List Char) : Except Fault (List β × List Char) := do
      let (value, rest) ← read cs
      let (values, rest) ← readMembers read fuel false rest
      return (value :: values, rest)
    match skipSpace cs with
    | [] => .error .truncated
    | ']' :: rest => .ok ([], rest)
    | c :: rest =>
      if first then member (c :: rest)
      else if c = ',' then
        match skipSpace rest with
        | [] => .error .truncated
        | ']' :: _ => .error .malformed
        | rest => member rest
      else .error .malformed

/-- A list of at most `bound` records, each read by `record`; without a reader the nesting has reached
its limit. -/
def readList (bound : Nat) (record : Option (Reader Record)) : Reader (List Record) := fun cs =>
  match skipSpace cs with
  | '[' :: rest =>
    match record with
    | none => .error .malformed
    | some record => readMembers record bound true rest
  | cs => .error (mismatch cs)

structure Partial where
  label : Option String := none
  kind : Option (Option String) := none
  comment : Option (Option String) := none
  visible : Option (List Record) := none
  hidden : Option (List Record) := none

def Partial.toRecord (p : Partial) : Record :=
  ⟨p.label.getD "", p.kind.getD none, p.comment.getD none, p.visible.getD [], p.hidden.getD []⟩

def Partial.has (p : Partial) : Field → Bool
  | .label => p.label.isSome
  | .kind => p.kind.isSome
  | .comment => p.comment.isSome
  | .visible => p.visible.isSome
  | .hidden => p.hidden.isSome

def readField (list : Reader (List Record)) (p : Partial) (field : Field) : Reader Partial := fun cs =>
  match field with
  | .label => (nullable readText cs).map fun (v, rest) => ({ p with label := some (v.getD "") }, rest)
  | .kind => (nullable readText cs).map fun (v, rest) => ({ p with kind := some v }, rest)
  | .comment => (nullable readText cs).map fun (v, rest) => ({ p with comment := some v }, rest)
  | .visible => (nullable list cs).map fun (v, rest) => ({ p with visible := some (v.getD []) }, rest)
  | .hidden => (nullable list cs).map fun (v, rest) => ({ p with hidden := some (v.getD []) }, rest)

def readColon (cs : List Char) : Except Fault (List Char) :=
  match skipSpace cs with
  | [] => .error .truncated
  | ':' :: rest => .ok rest
  | _ => .error .malformed

/-- The members of an object from behind its opening bracket, at most `fuel` of them. A field may be
met once. -/
def readFields (list : Reader (List Record)) (fuel : Nat) (first : Bool) (p : Partial) :
    Reader Partial := fun cs =>
  match fuel with
  | 0 => .error .truncated
  | fuel + 1 =>
    let member (cs : List Char) : Except Fault (Partial × List Char) := do
      let (name, rest) ← readQuoted .plain cs
      match Field.ofName? (String.ofList name) with
      | some field =>
        if p.has field then throw .mismatched
        let rest ← readColon rest
        let (p, rest) ← readField list p field rest
        readFields list fuel false p rest
      | none =>
        let rest ← readColon rest
        let rest ← skipValue rest
        readFields list fuel false p rest
    match skipSpace cs with
    | [] => .error .truncated
    | '\x7d' :: rest => .ok (p, rest)
    | c :: rest =>
      if first then if c = '"' then member rest else .error .malformed
      else if c = ',' then
        match skipSpace rest with
        | [] => .error .truncated
        | '"' :: rest => member rest
        | _ => .error .malformed
      else .error .malformed

/-- The elements of a record written as a list, from behind its opening bracket: one for each field
of the list of fields, of which the last ones may be missing. -/
def readElements (list : Reader (List Record)) (first : Bool) (p : Partial) (fields : List Field) :
    Reader Partial := fun cs =>
  match fields with
  | [] =>
    match skipSpace cs with
    | [] => .error .truncated
    | ']' :: rest => .ok (p, rest)
    | _ => .error .malformed
  | field :: fields =>
    let element (cs : List Char) : Except Fault (Partial × List Char) := do
      let (p, rest) ← readField list p field cs
      readElements list false p fields rest
    match skipSpace cs with
    | [] => .error .truncated
    | ']' :: rest => .ok (p, rest)
    | c :: rest =>
      if first then element (c :: rest)
      else if c = ',' then
        match skipSpace rest with
        | [] => .error .truncated
        | ']' :: _ => .error .malformed
        | rest => element rest
      else .error .malformed

/-- A record with at most `bound` members, its child lists read by `list`; without a reader the
nesting has reached its limit. -/
def readRecord (bound : Nat) (list : Option (Reader (List Record))) : Reader Record := fun cs =>
  let finish (r : Except Fault (Partial × List Char)) : Except Fault (Record × List Char) :=
    r.map fun (p, rest) => (p.toRecord, rest)
  match skipSpace cs with
  | '\x7b' :: rest =>
    match list with
    | none => .error .malformed
    | some list => finish (readFields list bound true {} rest)
  | '[' :: rest =>
    match list with
    | none => .error .malformed
    | some list =>
      finish (readElements list true {} [.label, .kind, .comment, .visible, .hidden] rest)
  | cs => .error (mismatch cs)

/-- A record in which at most `depth` brackets of records and child lists may be open at a time. No
list or object in it has more than `bound` members. -/
def readNested (bound : Nat) : Nat → Reader Record
  | 0 => readRecord bound none
  | 1 => readRecord bound (some (readList bound none))
  | depth + 2 => readRecord bound (some (readList bound (some (readNested bound depth))))

/-- The number of brackets of records and child lists that may be open at a time. -/
def maxNesting : Nat := 127

/-- The record of a JSON text, which it has to fill but for spaces. Every member takes up a
character, so none has more members than the text is long. -/
def ofText (text : List Char) : Except Fault Record :=
  match readNested (text.length + 1) maxNesting text with
  | .error e => .error e
  | .ok (record, rest) => if (skipSpace rest).isEmpty then .ok record else .error .malformed

end TidyTree.Record

namespace TidyTree.Tree

def ofText (text : List Char) : Except Json.Fault Tree := (Record.ofText text).map ofRecord

end TidyTree.Tree
