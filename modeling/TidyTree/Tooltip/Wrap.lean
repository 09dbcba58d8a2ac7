import TidyTree.Scalar

set_option autoImplicit false
set_option relaxedAutoImplicit false

namespace TidyTree

structure Measured (α : Type) where
  word : String
  width : α

variable {α : Type} [Scalar α]

def fillFrom (limit space : α) (line : List String) (width : α) :
    List (Measured α) → List (List String)
  | [] => [line]
  | w :: ws =>
    if width + space + w.width ≤ limit then
      fillFrom limit space (line ++ [w.word]) (width + (space + w.width)) ws
    else line :: fillFrom limit space [w.word] w.width ws

/-- Fill lines with the words of a paragraph. A paragraph without words is one empty line. -/
def fillLines (limit space : α) : List (Measured α) → List (List String)
  | [] => [[]]
  | w :: ws => fillFrom limit space [w.word] w.width ws

def lineText (line : List String) : String := " ".intercalate line

/-- The lines of a text, paragraph by paragraph. A text without paragraphs is one empty line. -/
def wrapLines (limit space : α) (paragraphs : List (List (Measured α))) : List String :=
  match paragraphs with
  | [] => [""]
  | _ => paragraphs.flatMap fun words => (fillLines limit space words).map lineText

end TidyTree
