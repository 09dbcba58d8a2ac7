import TidyTree.Json.Quoted
import TidyTree.Outline.Record

set_option autoImplicit false
set_option relaxedAutoImplicit false

namespace TidyTree.Record

open Json (quote)

def printName (name : String) (rest : List Char) : List Char :=
  ',' :: (quote name.toList ++ ':' :: rest)

def printOptional (name : String) (text : Option String) (rest : List Char) : List Char :=
  match text with
  | none => rest
  | some text => printName name (quote text.toList ++ rest)

mutual

/-- The compact text of a record in front of `rest`. -/
def printBefore : Record → List Char → List Char
  | ⟨label, kind, comment, visible, hidden⟩, rest =>
    '\x7b' :: (quote "label".toList ++ ':' :: (quote label.toList ++
      printOptional "kind" kind (printOptional "comment" comment
        (printList "visibleChildren" visible (printList "hiddenChildren" hidden
          ('\x7d' :: rest))))))

def printList (name : String) : List Record → List Char → List Char
  | [], rest => rest
  | r :: rs, rest => printName name ('[' :: r.printBefore (printMore rs (']' :: rest)))

def printMore : List Record → List Char → List Char
  | [], rest => rest
  | r :: rs, rest => ',' :: r.printBefore (printMore rs rest)

end

def print (r : Record) : List Char := r.printBefore []

end TidyTree.Record
