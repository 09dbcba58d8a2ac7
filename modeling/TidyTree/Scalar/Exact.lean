import TidyTree.Scalar

set_option autoImplicit false
set_option relaxedAutoImplicit false

namespace TidyTree.Scalar.Exact

def normSq (dx dy : Rat) : Rat := dx * dx + dy * dy

instance : Scalar Rat where
  decideLT := inferInstance
  decideLE := inferInstance
  isFinite _ := true
  ceil x := (Rat.ceil x : Rat)
  isWithin dx dy r := decide (0 ≤ r ∧ normSq dx dy ≤ r * r)
  isBeyond dx dy r := !decide (0 ≤ r ∧ normSq dx dy ≤ r * r)

end TidyTree.Scalar.Exact
