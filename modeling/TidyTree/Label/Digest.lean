import TidyTree.Label.Metrics

set_option autoImplicit false
set_option relaxedAutoImplicit false

/-!
# Digests

A digest condenses a text, a font size and a family into one word of 64 bits. Texts are mixed in
blocks of sixteen bytes; different texts may have the same digest.
-/

namespace TidyTree.Digest

def mix (x y : UInt64) : UInt64 :=
  let product := x.toNat * y.toNat
  product.toUInt64 ^^^ (product >>> 64).toUInt64

def wordOf (bytes : List UInt8) : UInt64 :=
  (bytes.take 8).foldr (fun b w => (w <<< 8) ||| b.toUInt64) 0

def seed : UInt64 × UInt64 := (0x243f6a8885a308d3, 0x13198a2e03707344)

def blockKey : UInt64 := 0xa4093822299f31d0

/-- Mix a number of blocks of sixteen bytes into two words. -/
def mixBlocks : Nat → UInt64 × UInt64 → List UInt8 → UInt64 × UInt64
  | 0, state, _ => state
  | blocks + 1, (x, y), bytes =>
    mixBlocks blocks (y, mix (x ^^^ wordOf bytes) (blockKey ^^^ wordOf (bytes.drop 8))) (bytes.drop 16)

def shortWords (bytes : List UInt8) : UInt64 × UInt64 :=
  let n := bytes.length
  if 8 ≤ n then (wordOf bytes, wordOf (bytes.drop (n - 8)))
  else if 4 ≤ n then (wordOf (bytes.take 4), wordOf (bytes.drop (n - 4)))
  else
    let byte (i : Nat) : UInt64 := (bytes.getD i 0).toUInt64
    if n = 0 then (0, 0) else (byte 0, (byte (n - 1) <<< 8) ||| byte (n / 2))

/-- The word of a row of bytes. Of more than sixteen bytes the blocks that start before the last
sixteen are mixed first. -/
def ofBytes (bytes : List UInt8) : UInt64 :=
  let n := bytes.length
  let ((x, y), (a, b)) :=
    if n ≤ 16 then (seed, shortWords bytes)
    else
      (mixBlocks ((n - 1) / 16) seed bytes, wordOf (bytes.drop (n - 16)), wordOf (bytes.drop (n - 8)))
  mix (x ^^^ a) (y ^^^ b) ^^^ n.toUInt64

def add (digest word : UInt64) : UInt64 := (digest + word) * 0xf1357aea2e62a9c5

/-- Take a text into a digest, with a mark at its end. -/
def addText (digest : UInt64) (text : String) : UInt64 :=
  add (add digest (ofBytes text.toByteArray.toList)) 0xff

def ofLabel (text : String) (font : Font Float) : UInt64 :=
  addText (add (addText 0 text) font.size.toBits) font.family

end TidyTree.Digest
