import TidyTree.Look.Color

set_option autoImplicit false
set_option relaxedAutoImplicit false

namespace TidyTree

inductive Theme where
  | light
  | dark
  deriving DecidableEq, Repr

structure Palette where
  background : Color
  link : Color
  nodeFill : Color
  nodeStroke : Color
  text : Color
  toggle : Color
  indicator : Color
  tooltipBackground : Color
  tooltipBorder : Color
  tooltipText : Color
  deriving DecidableEq, Repr

namespace Theme

def name : Theme → String
  | light => "light"
  | dark => "dark"

/-- The theme of a name in any mix of cases, with blanks around it or not. -/
def ofName? (text : String) : Option Theme :=
  let word := String.ofList (Text.lower (Text.trim text.toList))
  if word = light.name then some light
  else if word = dark.name then some dark
  else none

def isDark : Theme → Bool
  | light => false
  | dark => true

def palette : Theme → Palette
  | light =>
    { background := .solid 0xff 0xff 0xff
      link := .solid 0x6b 0x72 0x80
      nodeFill := .solid 0xcc 0xcc 0xcc
      nodeStroke := .solid 0x2b 0x6c 0xb0
      text := .solid 0x00 0x00 0x00
      toggle := .solid 0x00 0x77 0xff
      indicator := .solid 0xff 0x99 0x00
      tooltipBackground := .solid 0xff 0xff 0xff
      tooltipBorder := .solid 0xd1 0xd5 0xdb
      tooltipText := .solid 0x11 0x18 0x27 }
  | dark =>
    { background := .solid 0x1e 0x1e 0x1e
      link := .solid 0x9c 0xa3 0xaf
      nodeFill := .solid 0x37 0x41 0x51
      nodeStroke := .solid 0x60 0xa5 0xfa
      text := .solid 0xf3 0xf4 0xf6
      toggle := .solid 0x3b 0x9e 0xff
      indicator := .solid 0xff 0x99 0x00
      tooltipBackground := .solid 0x1f 0x29 0x37
      tooltipBorder := .solid 0x4b 0x55 0x63
      tooltipText := .solid 0xe5 0xe7 0xeb }

end Theme

end TidyTree
