set_option autoImplicit false
set_option relaxedAutoImplicit false

namespace TidyTree.Text

def utf8 (cs : List Char) : List UInt8 := cs.flatMap String.utf8EncodeChar

/-- Whether a text may be cut at a position: not in front of a byte that continues a character. -/
def isBoundary (bytes : List UInt8) (position : Nat) : Bool :=
  position == 0 ||
    match bytes[position]? with
    | none => position == bytes.length
    | some b => b < 128 || 192 ≤ b

/-- Some bytes from a position on; none if the text may not be cut at one of the ends. -/
def slice? (bytes : List UInt8) (position size : Nat) : Option (List UInt8) :=
  if isBoundary bytes position && isBoundary bytes (position + size) then
    some ((bytes.drop position).take size)
  else none

end TidyTree.Text
