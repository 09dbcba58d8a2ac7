import TidyTree.Decimal.Shortest
import TidyTree.Plane.Point

set_option autoImplicit false
set_option relaxedAutoImplicit false

namespace TidyTree

structure Curve (α : Type) where
  source : Point α
  sourceControl : Point α
  targetControl : Point α
  target : Point α
  deriving DecidableEq, Repr

namespace Curve

/-- The curve between two points whose control points lie halfway, each beside an end. -/
def between {α : Type} [Scalar α] (source target : Point α) : Curve α :=
  let middle := (source.x + target.x) / 2
  ⟨source, ⟨middle, source.y⟩, ⟨middle, target.y⟩, target⟩

def pointText (p : Point Float) : String := Decimal.ofFloat p.x ++ "," ++ Decimal.ofFloat p.y

def pathText (c : Curve Float) : String :=
  "M " ++ pointText c.source ++ " C " ++ pointText c.sourceControl ++ " " ++
    pointText c.targetControl ++ " " ++ pointText c.target

end Curve

end TidyTree
