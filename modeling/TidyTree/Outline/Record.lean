import TidyTree.Outline.Node

set_option autoImplicit false
set_option relaxedAutoImplicit false

/-!
# Records

A record describes a tree from outside: labels and two child lists, one shown and one hidden.
Numbering a record makes nodes of it. Where both lists have members only the shown one is kept, and
the loss is reported.
-/

namespace TidyTree

/-- A tree as it is handed in and out. -/
structure Record where
  label : String := ""
  kind : Option String := none
  comment : Option String := none
  visible : List Record := []
  hidden : List Record := []

instance : Inhabited Record := ⟨{}⟩

/-- The hidden children of a record that were left out beside visible ones. -/
structure Dropped where
  id : NodeId
  label : String
  count : Nat
  deriving DecidableEq, Repr

def Dropped.message : String := "node has both visible and hidden children; keeping visible"

namespace Record

mutual

/-- Make nodes of a record, numbered in pre-order from `id` on, and report what is left out. -/
def number (id : NodeId) : Record → Node × List Dropped
  | ⟨label, kind, comment, visible, hidden⟩ =>
    let (children, dropped) :=
      if visible.isEmpty then numberAll (id + 1) hidden else numberAll (id + 1) visible
    let span := 1 + Node.totalSpan children
    let node := Node.mk ⟨id, span, label, kind, comment⟩ (!visible.isEmpty || hidden.isEmpty) children
    (node,
      if visible.isEmpty || hidden.isEmpty then dropped else ⟨id, label, hidden.length⟩ :: dropped)

def numberAll (id : NodeId) : List Record → List Node × List Dropped
  | [] => ([], [])
  | r :: rs =>
    let (node, dropped) := r.number id
    let (nodes, more) := numberAll (id + node.span) rs
    (node :: nodes, dropped ++ more)

end

end Record

mutual

/-- The record that describes a node with its state as it is. -/
def Node.toRecord : Node → Record
  | .mk item shown children =>
    { label := item.label
      kind := item.kind
      comment := item.comment
      visible := if shown then toRecordAll children else []
      hidden := if shown then [] else toRecordAll children }

def Node.toRecordAll : List Node → List Record
  | [] => []
  | n :: ns => n.toRecord :: toRecordAll ns

end

end TidyTree
