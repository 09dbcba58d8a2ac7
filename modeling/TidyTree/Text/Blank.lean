set_option autoImplicit false
set_option relaxedAutoImplicit false

namespace TidyTree.Text

/-- The characters with the property `White_Space`. -/
def isBlank (c : Char) : Bool :=
  let n := c.toNat
  (0x09 ≤ n && n ≤ 0x0D) || n == 0x20 || n == 0x85 || n == 0xA0 || n == 0x1680 ||
    (0x2000 ≤ n && n ≤ 0x200A) || n == 0x2028 || n == 0x2029 || n == 0x202F || n == 0x205F ||
    n == 0x3000

def trimEnd (cs : List Char) : List Char := (cs.reverse.dropWhile isBlank).reverse

def trim (cs : List Char) : List Char := trimEnd (cs.dropWhile isBlank)

/-- Cut a text at the characters that satisfy `isCut`, which belong to no piece. A text without any
is one piece. -/
def cutAt (isCut : Char → Bool) : List Char → List (List Char)
  | [] => [[]]
  | c :: cs =>
    if isCut c then [] :: cutAt isCut cs
    else
      match cutAt isCut cs with
      | [] => [[c]]
      | piece :: pieces => (c :: piece) :: pieces

/-- The longest pieces of a text that are free of blanks, in order. -/
def words (cs : List Char) : List (List Char) := (cutAt isBlank cs).filter (!·.isEmpty)

/-- A line without the carriage return that belongs to its end. -/
def dropReturn (line : List Char) : List Char :=
  if line.getLast? = some '\r' then line.dropLast else line

/-- The lines of a text. A line feed ends a line, with a carriage return before it, and no line
follows the last line feed. -/
def lines (cs : List Char) : List (List Char) :=
  match (cutAt (· == '\n') cs).reverse with
  | [] => []
  | last :: ended => (ended.map dropReturn).reverse ++ (if last.isEmpty then [] else [last])

/-- The text in small letters; letters outside ASCII stay. -/
def lower (cs : List Char) : List Char := cs.map Char.toLower

end TidyTree.Text
