import TidyTree.Json.Token

set_option autoImplicit false
set_option relaxedAutoImplicit false

/-!
# Skipping a value

A value that nobody asked for is passed over one character at a time. Brackets are kept on a stack,
so it may nest to any depth, and numbers and quoted text are only followed to their ends.
-/

namespace TidyTree.Json

inductive Bracket where
  | list
  | object
  deriving DecidableEq, Repr

def Bracket.close : Bracket → Char
  | list => ']'
  | object => '\x7d'

inductive Digits where
  /-- Behind a minus. -/
  | sign
  /-- Behind a zero that starts the number. -/
  | zero
  | whole
  /-- Behind the point. -/
  | point
  | fraction
  /-- Behind the letter of the exponent. -/
  | exponent
  /-- Behind the sign of the exponent. -/
  | exponentSign
  | power
  deriving DecidableEq, Repr

def Digits.canEnd : Digits → Bool
  | zero | whole | fraction | power => true
  | sign | point | exponent | exponentSign => false

/-- The place behind one more character of the number, unless the number does not go on with it. -/
def Digits.next? : Digits → Char → Option Digits
  | sign, c => if c = '0' then some zero else if c.isDigit then some whole else none
  | zero, c => if c = '.' then some point else if c = 'e' || c = 'E' then some exponent else none
  | whole, c =>
    if c.isDigit then some whole else if c = '.' then some point
    else if c = 'e' || c = 'E' then some exponent else none
  | point, c => if c.isDigit then some fraction else none
  | fraction, c =>
    if c.isDigit then some fraction else if c = 'e' || c = 'E' then some exponent else none
  | exponent, c =>
    if c.isDigit then some power else if c = '+' || c = '-' then some exponentSign else none
  | exponentSign, c => if c.isDigit then some power else none
  | power, c => if c.isDigit then some power else none

/-- Where a reader stands inside a value that it skips. -/
inductive Skipping where
  /-- A value has to follow. -/
  | value
  /-- Behind an opening bracket. -/
  | opened
  /-- Behind a member of a list or an object. -/
  | member
  /-- A key has to follow. -/
  | key
  /-- A colon has to follow. -/
  | colon
  /-- The rest of a name has to follow. -/
  | name (rest : List Char)
  | number (digits : Digits)
  /-- Inside quoted text, which is a key or a value. -/
  | quoted (isKey : Bool)
  /-- Behind a backslash in quoted text. -/
  | escape (isKey : Bool)
  /-- Behind some of the four hexadecimal digits of an escape. -/
  | hex (isKey : Bool) (count : Nat)
  deriving DecidableEq, Repr

/-- The place behind the first character of a value, and the bracket that it opens. -/
def Skipping.start? (c : Char) : Option (Skipping × List Bracket) :=
  if c = 'n' then some (.name ['u', 'l', 'l'], [])
  else if c = 't' then some (.name ['r', 'u', 'e'], [])
  else if c = 'f' then some (.name ['a', 'l', 's', 'e'], [])
  else if c = '-' then some (.number .sign, [])
  else if c = '0' then some (.number .zero, [])
  else if c.isDigit then some (.number .whole, [])
  else if c = '"' then some (.quoted false, [])
  else if c = '[' then some (.opened, [.list])
  else if c = '\x7b' then some (.opened, [.object])
  else none

inductive Skip where
  /-- The reader goes on behind the character. -/
  | go (mode : Skipping) (brackets : List Bracket)
  /-- The value ends with the character. -/
  | last
  /-- The value has ended before the character. -/
  | behind
  | fail (fault : Fault)
  deriving DecidableEq, Repr

def Skip.begin (brackets : List Bracket) (c : Char) : Skip :=
  match Skipping.start? c with
  | some (mode, opened) => go mode (opened ++ brackets)
  | none => fail .malformed

def Skip.finish (brackets : List Bracket) : Skip :=
  if brackets.isEmpty then last else go .member brackets

def Skip.follow (brackets : List Bracket) (c : Char) : Skip :=
  match brackets with
  | [] => behind
  | b :: outer =>
    if isSpace c then go .member brackets
    else if c = b.close then finish outer
    else if c = ',' then
      match b with
      | .list => go .value brackets
      | .object => go .key brackets
    else fail .malformed

def Skip.step (mode : Skipping) (brackets : List Bracket) (c : Char) (cs : List Char) : Skip :=
  match mode with
  | .value => if isSpace c then go .value brackets else begin brackets c
  | .opened =>
    if isSpace c then go .opened brackets
    else
      match brackets with
      | [] => fail .malformed
      | b :: outer =>
        if c = b.close then finish outer
        else
          match b with
          | .list => begin brackets c
          | .object => if c = '"' then go (.quoted true) brackets else fail .malformed
  | .member => follow brackets c
  | .key =>
    if isSpace c then go .key brackets
    else if c = '"' then go (.quoted true) brackets
    else fail .malformed
  | .colon =>
    if isSpace c then go .colon brackets
    else if c = ':' then go .value brackets
    else fail .malformed
  | .name rest =>
    match rest with
    | [] => fail .malformed
    | n :: ns =>
      if n ≠ c then fail .malformed
      else if ns.isEmpty then finish brackets
      else go (.name ns) brackets
  | .number digits =>
    match digits.next? c with
    | some digits => go (.number digits) brackets
    | none =>
      if !digits.canEnd || (digits = .zero && c.isDigit) then fail .malformed else follow brackets c
  | .quoted isKey =>
    if c = '"' then if isKey then go .colon brackets else finish brackets
    else if c = '\\' then go (.escape isKey) brackets
    else if c.toNat < 32 then fail .malformed
    else go (.quoted isKey) brackets
  | .escape isKey =>
    if (shortMeaning? c).isSome then go (.quoted isKey) brackets
    else if c = 'u' then go (.hex isKey 0) brackets
    else fail .malformed
  | .hex isKey count =>
    match hexValue? c with
    | none => fail (hexFault count (c :: cs))
    | some _ => if count < 3 then go (.hex isKey (count + 1)) brackets else go (.quoted isKey) brackets

/-- What the end of the text does: it may only end a number outside all brackets. -/
def Skip.atEnd (mode : Skipping) (brackets : List Bracket) : Except Fault (List Char) :=
  match mode with
  | .number digits =>
    if !digits.canEnd then .error .malformed
    else if brackets.isEmpty then .ok [] else .error .truncated
  | _ => .error .truncated

/-- Skip the rest of a value that stands inside open brackets: what is behind it. -/
def skip (mode : Skipping) (brackets : List Bracket) : List Char → Except Fault (List Char)
  | [] => Skip.atEnd mode brackets
  | c :: cs =>
    match Skip.step mode brackets c cs with
    | .go mode brackets => skip mode brackets cs
    | .last => .ok cs
    | .behind => .ok (c :: cs)
    | .fail fault => .error fault

/-- Skip the value at the front of a text: what is behind it. -/
def skipValue (cs : List Char) : Except Fault (List Char) := skip .value [] cs

end TidyTree.Json
