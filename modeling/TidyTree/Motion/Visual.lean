import TidyTree.Motion.Easing

set_option autoImplicit false
set_option relaxedAutoImplicit false

namespace TidyTree

structure Spot (α : Type) where
  position : Point α
  opacity : α
  deriving DecidableEq, Repr

structure Strand (α : Type) where
  source : Point α
  target : Point α
  opacity : α
  deriving DecidableEq, Repr

variable {α : Type} [Scalar α]

namespace Spot

def shown (p : Point α) : Spot α := ⟨p, 1⟩

def hidden (p : Point α) : Spot α := ⟨p, 0⟩

instance : BEq (Spot α) := ⟨fun s t => s.position == t.position && s.opacity == t.opacity⟩

instance : Lerp α (Spot α) :=
  ⟨fun s t time => ⟨lerp s.position t.position time, Scalar.lerp s.opacity t.opacity time⟩⟩

end Spot

namespace Strand

def shown (source target : Point α) : Strand α := ⟨source, target, 1⟩

/-- Invisible, with both ends at one point. -/
def gathered (p : Point α) : Strand α := ⟨p, p, 0⟩

instance : BEq (Strand α) :=
  ⟨fun s t => s.source == t.source && s.target == t.target && s.opacity == t.opacity⟩

instance : Lerp α (Strand α) :=
  ⟨fun s t time => ⟨lerp s.source t.source time, lerp s.target t.target time,
    Scalar.lerp s.opacity t.opacity time⟩⟩

end Strand

end TidyTree
