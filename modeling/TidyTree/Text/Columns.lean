import TidyTree.Text.ColumnTables

set_option autoImplicit false
set_option relaxedAutoImplicit false

/-!
# Columns of a text

The number of columns that a text takes in a grid of equal cells. A character takes none, one or two
columns by itself, but some join with what follows: pictures are put together of several
characters, selectors choose between a picture and a narrow character or make a quotation mark
broad, and letters of some scripts share a cell. So a text is measured from its end, and what has
been seen of it to the right is kept as far as it can join with what stands to the left.
-/

namespace TidyTree.Text

open ColumnTables

/-- What stands behind a joiner at the right, read towards the left: a picture, or the end of one. -/
inductive Joined where
  | picture
  /-- The frame of a key. -/
  | keycap
  /-- A single letter of a flag, then an even and an odd number of them. -/
  | flagOne
  | flagEven
  | flagOdd
  /-- The end of a tag sequence, then its last letters or digits. -/
  | tagEnd
  | tagLetters (count : Nat)
  | tagDigits (count : Nat)
  deriving DecidableEq, Repr

/-- What stands at the right, as far as it can join with what stands at the left. `joined` tells
that a joiner stands between. -/
inductive Follower where
  | none
  | lineFeed
  | skinTone
  | flagLetter
  | flagLetters
  | picture
  | behindJoiner (joined : Joined)
  | alef
  | lamed (joined : Bool)
  | ya (joined : Bool)
  | signIJoinedYa
  | tifinagh (joined : Bool)
  | tifinaghJoined
  | lisuTone
  | orkhonI (joined : Bool)
  | coengLetter
  | kiratE
  | kiratAI
  deriving DecidableEq, Repr

/-- What is known of the text at the right: what can join, and the selectors that stand between. -/
structure Context where
  follower : Follower
  /-- A selector asks for a picture. -/
  emoji : Bool
  /-- A selector asks for a narrow character in place of a picture. -/
  text : Bool
  /-- A selector asks for a broad quotation mark. -/
  broad : Bool
  deriving DecidableEq, Repr

namespace Context

def of (follower : Follower) : Context := ⟨follower, false, false, false⟩

def none : Context := of .none

def isScript (c : Context) : Bool :=
  match c.follower with
  | .alef | .lamed _ | .ya _ | .signIJoinedYa | .tifinagh _ | .tifinaghJoined | .lisuTone
  | .orkhonI _ | .coengLetter => true
  | _ => false

def isJoinedPicture (c : Context) : Bool :=
  c.follower = .behindJoiner .picture || c.follower = .behindJoiner .keycap

/-- The context as far as selectors do not part it from what stands at the left. -/
def acrossSelector (c : Context) : Context := if c.isScript then c else none

def selectEmoji (c : Context) : Context :=
  { (if c.isJoinedPicture then c else c.acrossSelector) with emoji := true }

def selectText (c : Context) : Context := { c.acrossSelector with text := true }

def selectBroad (c : Context) : Context := { c.acrossSelector with broad := true }

/-- The context when an emoji selector, if there is one, selects nothing. -/
def dropEmoji (c : Context) : Context :=
  if c.emoji then { c.acrossSelector with emoji := false } else c

def dropText (c : Context) : Context :=
  if c.text then { c.acrossSelector with text := false } else c

def dropBroad (c : Context) : Context :=
  if c.broad then { c.acrossSelector with broad := false } else c

end Context

def isTagLetter (n : Nat) : Bool := 0xE0061 ≤ n && n ≤ 0xE007A

def isTagDigit (n : Nat) : Bool := 0xE0030 ≤ n && n ≤ 0xE0039

/-- The columns of a character by itself and the context that it makes. -/
def ownColumns (n : Nat) : Int × Context :=
  if has skinTone n then (2, .of .skinTone)
  else if has regional n then (1, .of .flagLetter)
  else if has emoji n then (2, .of .picture)
  else if has alef n then (1, .of .alef)
  else if n = 0x5DC then (1, .of (.lamed false))
  else if n = 0x1A10 then (1, .of (.ya false))
  else if has tifinaghConsonant n then (1, .of (.tifinagh false))
  else if n = 0xA4FC || n = 0xA4FD then (1, .of .lisuTone)
  else if n = 0x10C03 then (1, .of (.orkhonI false))
  else if has coengLetter n then (1, .of .coengLetter)
  else if n = 0x16D67 then (1, .of .kiratE)
  else if n = 0x16D68 then (1, .of .kiratAI)
  else if n = 0x17D8 then (3, .none)
  else if has zero n then (0, .none)
  else if has wide n then (2, .none)
  else (1, .none)

/-- The columns of a character that joins with what follows, and the context that both make; none
if it does not join. -/
def joinedColumns? (follower : Follower) (n : Nat) : Option (Int × Context) :=
  match follower with
  | .alef =>
    if has lam n then some (0, .none)
    else if has zero n && !has nonJoining n then some (0, .of .alef)
    else none
  | .lamed true => if n = 0x5D0 then some (0, .none) else none
  | .coengLetter => if n = 0x17D2 then some (-1, .none) else none
  | .ya true => if n = 0x1A17 then some (0, .of .signIJoinedYa) else none
  | .signIJoinedYa => if n = 0x1A15 then some (0, .none) else none
  | .tifinagh joined =>
    if n = 0x2D7F then some (1, .of .tifinaghJoined)
    else if joined && has tifinaghConsonant n then some (0, .none)
    else none
  | .tifinaghJoined => if has tifinaghConsonant n then some (-1, .none) else none
  | .lisuTone => if 0xA4F8 ≤ n && n ≤ 0xA4FB then some (0, .none) else none
  | .orkhonI true => if n = 0x10C32 then some (0, .none) else none
  | .skinTone =>
    if has modifierBase n then some (0, .of .picture)
    else if n = 0x200D then some (0, .of (.behindJoiner .picture))
    else none
  | .flagLetter => if has regional n then some (1, .of .flagLetters) else none
  | .flagLetters =>
    if has regional n then some (1, .of .flagLetters)
    else if n = 0x200D then some (0, .of (.behindJoiner .picture))
    else none
  | .picture => if n = 0x200D then some (0, .of (.behindJoiner .picture)) else none
  | .behindJoiner .picture =>
    if n = 0x20E3 then some (0, .of (.behindJoiner .keycap))
    else if has regional n then some (1, .of (.behindJoiner .flagOne))
    else if has skinTone n then some (0, .of .skinTone)
    else if n = 0xE007F then some (0, .of (.behindJoiner .tagEnd))
    else if (ownColumns n).2 = .of .picture then some (0, .of .picture)
    else none
  | .behindJoiner .flagOne =>
    if has regional n then some (-1, .of (.behindJoiner .flagEven)) else none
  | .behindJoiner .flagEven =>
    if has regional n then some (3, .of (.behindJoiner .flagOdd))
    else if n = 0x200D then some (0, .of (.behindJoiner .picture))
    else none
  | .behindJoiner .flagOdd =>
    if has regional n then some (-1, .of (.behindJoiner .flagEven))
    else if n = 0x200D then some (0, .of (.behindJoiner .picture))
    else none
  | .behindJoiner .tagEnd =>
    if isTagLetter n then some (0, .of (.behindJoiner (.tagLetters 1)))
    else if isTagDigit n then some (0, .of (.behindJoiner (.tagDigits 1)))
    else none
  | .behindJoiner (.tagLetters count) =>
    if isTagLetter n && count < 6 then some (0, .of (.behindJoiner (.tagLetters (count + 1))))
    else if isTagDigit n && count < 5 then some (0, .of (.behindJoiner (.tagDigits 1)))
    else if n = 0x1F3F4 && 3 ≤ count then some (0, .of .picture)
    else none
  | .behindJoiner (.tagDigits count) =>
    if isTagDigit n && count < 3 then some (0, .of (.behindJoiner (.tagDigits (count + 1))))
    else if n = 0x1F3F4 && count = 3 then some (0, .of .picture)
    else none
  | .kiratE =>
    if n = 0x16D63 || n = 0x16D69 then some (0, .none)
    else if n = 0x16D67 then some (0, .of .kiratAI)
    else if n = 0x16D68 then some (1, .of .kiratE)
    else none
  | .kiratAI => if n = 0x16D63 then some (0, .none) else none
  | _ => none

def Context.afterJoiner (c : Context) : Context :=
  match c.follower with
  | .lamed _ => { c with follower := .lamed true }
  | .ya _ => { c with follower := .ya true }
  | .tifinagh _ => { c with follower := .tifinagh true }
  | .orkhonI _ => { c with follower := .orkhonI true }
  | _ => c

def Follower.isTransparent : Follower → Bool
  | lamed _ | ya _ | signIJoinedYa | tifinagh _ | tifinaghJoined | lisuTone | orkhonI _
  | coengLetter => true
  | _ => false

def columnsBefore (context : Context) (n : Nat) : Int × Context :=
  if n = 0xFE0F then (0, context.selectEmoji)
  else if n = 0xFE0E then (0, context.selectText)
  else if n = 0xFE01 then (0, context.selectBroad)
  else if context.text && has textBase n then (1, .none)
  else if context.broad && has quotationMark n then (2, .none)
  else
    let context := context.dropText.dropBroad
    if context.follower.isTransparent && n = 0x200D then (0, context.afterJoiner)
    else if context.follower.isTransparent && has ignorableMark n then (0, context)
    else (joinedColumns? context.follower n).getD (ownColumns n)

/-- The columns of a character before a context, and the context of both. Characters of the first
block take a column each, but a carriage return before a line feed takes none. -/
def charColumns (c : Char) (context : Context) : Int × Context :=
  let n := c.toNat
  if context.emoji && has emojiBase n then (if context.isJoinedPicture then 0 else 2, .of .picture)
  else
    let context := context.dropEmoji
    if n ≤ 0xA0 then
      if c = '\x0a' then (1, .of .lineFeed)
      else if c = '\x0d' && context = .of .lineFeed then (0, .none)
      else (1, .none)
    else columnsBefore context n

/-- The columns of a text and the context that it makes for what stands before it. -/
def measure : List Char → Int × Context
  | [] => (0, .none)
  | c :: cs =>
    let (columns, context) := measure cs
    let (own, context) := charColumns c context
    (columns + own, context)

def columns (cs : List Char) : Nat := (measure cs).1.toNat

end TidyTree.Text
