import TidyTree.Label.Metrics

set_option autoImplicit false
set_option relaxedAutoImplicit false

/-!
# Remembered widths

A cache remembers the widths of the texts that were asked for most recently, under their digests. A
width that is remembered is not measured again; a failure is not remembered.
-/

namespace TidyTree

/-- Values under keys, the most recently used first. -/
structure Recent (κ β : Type) where
  entries : List (κ × β)
  capacity : Nat

namespace Recent

variable {κ β : Type} [BEq κ]

def empty (capacity : Nat) : Recent κ β := ⟨[], max capacity 1⟩

def get? (r : Recent κ β) (key : κ) : Option β := (r.entries.find? (·.1 == key)).map (·.2)

/-- Put an entry in front of all others; the last one falls out when there are too many. -/
def use (r : Recent κ β) (key : κ) (value : β) : Recent κ β :=
  { r with entries := ((key, value) :: r.entries.filter (fun e => !(e.1 == key))).take r.capacity }

def clear (r : Recent κ β) : Recent κ β := { r with entries := [] }

def size (r : Recent κ β) : Nat := r.entries.length

end Recent

/-- Remembered widths with the counts of the questions that were answered from them and of those
that were not. -/
structure Cache (α : Type) where
  recent : Recent UInt64 α
  hits : Nat
  misses : Nat

namespace Cache

variable {α : Type} [Scalar α]

def defaultCapacity : Nat := 4096

def empty (capacity : Nat) : Cache α := ⟨.empty capacity, 0, 0⟩

def clear (c : Cache α) : Cache α := { c with recent := c.recent.clear }

def hitRate (c : Cache α) : α :=
  if c.hits + c.misses = 0 then 0 else (c.hits : α) / ((c.hits + c.misses : Nat) : α)

end Cache

/-- A metrics that remembers the widths that `inner` measured, under the digests of the texts. -/
def Metrics.cached {σ α : Type} (digest : String → Font α → UInt64) (inner : Metrics σ α) :
    Metrics (Cache α × σ) α :=
  ⟨fun text font (c, s) =>
    let key := digest text font
    match c.recent.get? key with
    | some width => (.ok width, { c with recent := c.recent.use key width, hits := c.hits + 1 }, s)
    | none =>
      let c := { c with misses := c.misses + 1 }
      match inner.measure text font s with
      | (.ok width, s) => (.ok width, { c with recent := c.recent.use key width }, s)
      | (.error e, s) => (.error e, c, s)⟩

end TidyTree
