set_option autoImplicit false
set_option relaxedAutoImplicit false

namespace TidyTree.Json

inductive Fault where
  /-- The text ends too early. -/
  | truncated
  /-- The text is not JSON, goes on behind the value, or nests too deeply. -/
  | malformed
  /-- The text is JSON of another shape than the one asked for. -/
  | mismatched
  deriving DecidableEq, Repr

def shortEscape? (c : Char) : Option Char :=
  if c = '"' then some '"'
  else if c = '\\' then some '\\'
  else if c = '\x08' then some 'b'
  else if c = '\x09' then some 't'
  else if c = '\x0a' then some 'n'
  else if c = '\x0c' then some 'f'
  else if c = '\x0d' then some 'r'
  else none

/-- The character that one behind a backslash stands for, if there is one. -/
def shortMeaning? (c : Char) : Option Char :=
  if c = '"' then some '"'
  else if c = '\\' then some '\\'
  else if c = '/' then some '/'
  else if c = 'b' then some '\x08'
  else if c = 't' then some '\x09'
  else if c = 'n' then some '\x0a'
  else if c = 'f' then some '\x0c'
  else if c = 'r' then some '\x0d'
  else none

def encodeChar (c : Char) : List Char :=
  match shortEscape? c with
  | some e => ['\\', e]
  | none =>
    if c.toNat < 32 then ['\\', 'u', '0', '0', Nat.digitChar (c.toNat / 16), Nat.digitChar (c.toNat % 16)]
    else [c]

def quote (text : List Char) : List Char := '"' :: (text.flatMap encodeChar ++ ['"'])

def hexValue? (c : Char) : Option Nat :=
  let n := c.toNat
  if 48 ≤ n ∧ n ≤ 57 then some (n - 48)
  else if 97 ≤ n ∧ n ≤ 102 then some (n - 87)
  else if 65 ≤ n ∧ n ≤ 70 then some (n - 55)
  else none

inductive Quoting where
  | plain
  /-- Behind a backslash. -/
  | escape
  /-- Behind some of the four hexadecimal digits of an escape, which spell `value` so far; `high` is
  the first surrogate of the pair that the escape has to complete. -/
  | hex (high : Option Nat) (count value : Nat)
  /-- Behind a first surrogate, before the backslash of the second. -/
  | pairBackslash (high : Nat)
  /-- Behind a first surrogate and a backslash, before the letter of the second. -/
  | pairLetter (high : Nat)
  deriving DecidableEq, Repr

def isHighSurrogate (n : Nat) : Bool := 0xD800 ≤ n && n ≤ 0xDBFF

def isLowSurrogate (n : Nat) : Bool := 0xDC00 ≤ n && n ≤ 0xDFFF

def pairedCode (high low : Nat) : Nat := (high - 0xD800) * 0x400 + (low - 0xDC00) + 0x10000

def hasBytes (n : Nat) (cs : List Char) : Bool := n ≤ (String.ofList (cs.take n)).utf8ByteSize

/-- The fault of a character that is no hexadecimal digit: four bytes belong to an escape, and a
text that has fewer left is truncated. -/
def hexFault (count : Nat) (cs : List Char) : Fault :=
  if hasBytes (4 - count) cs then .malformed else .truncated

/-- Read quoted text from inside: the text up to the closing quotation mark, and what is behind. -/
def readQuoted (mode : Quoting) : List Char → Except Fault (List Char × List Char)
  | [] => .error .truncated
  | c :: cs =>
    let push (d : Char) := (readQuoted .plain cs).map fun (text, rest) => (d :: text, rest)
    match mode with
    | .plain =>
      if c = '"' then .ok ([], cs)
      else if c = '\\' then readQuoted .escape cs
      else if c.toNat < 32 then .error .malformed
      else push c
    | .escape =>
      match shortMeaning? c with
      | some d => push d
      | none => if c = 'u' then readQuoted (.hex none 0 0) cs else .error .malformed
    | .hex high count value =>
      match hexValue? c with
      | none => .error (hexFault count (c :: cs))
      | some digit =>
        let value := 16 * value + digit
        if count < 3 then readQuoted (.hex high (count + 1) value) cs
        else
          match high with
          | some high =>
            if isLowSurrogate value then push (Char.ofNat (pairedCode high value))
            else .error .malformed
          | none =>
            if isLowSurrogate value then .error .malformed
            else if isHighSurrogate value then readQuoted (.pairBackslash value) cs
            else push (Char.ofNat value)
    | .pairBackslash high => if c = '\\' then readQuoted (.pairLetter high) cs else .error .malformed
    | .pairLetter high => if c = 'u' then readQuoted (.hex (some high) 0 0) cs else .error .malformed

end TidyTree.Json
