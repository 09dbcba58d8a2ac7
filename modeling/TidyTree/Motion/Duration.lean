import TidyTree.Scalar

set_option autoImplicit false
set_option relaxedAutoImplicit false

/-!
# Durations and clock readings

Time is counted in nanoseconds up to a largest duration. Sums stop there and differences stop at
zero. A clock reading is the duration since the clock's start.
-/

namespace TidyTree

/-- The largest duration: all seconds of a 64-bit count and the nanoseconds below the next. -/
def maxNanos : Nat := 18446744073709551615999999999

def nanosPerSecond : Nat := 1000000000

structure Duration where
  nanos : Nat
  isLe : nanos ≤ maxNanos
  deriving DecidableEq, Repr

namespace Duration

def ofNanos (n : Nat) : Duration := ⟨min n maxNanos, Nat.min_le_right _ _⟩

/-- A number of milliseconds, at most the largest duration. -/
def ofMillis (n : Nat) : Duration := ofNanos (n * 1000000)

instance : Inhabited Duration := ⟨ofNanos 0⟩

def zero : Duration := ofNanos 0

def max : Duration := ofNanos maxNanos

instance : LE Duration := ⟨fun a b => a.nanos ≤ b.nanos⟩

instance : LT Duration := ⟨fun a b => a.nanos < b.nanos⟩

instance : DecidableLE Duration := fun a b => inferInstanceAs (Decidable (a.nanos ≤ b.nanos))

instance : DecidableLT Duration := fun a b => inferInstanceAs (Decidable (a.nanos < b.nanos))

/-- The sum, at most the largest duration. -/
def add (a b : Duration) : Duration := ofNanos (a.nanos + b.nanos)

instance : Add Duration := ⟨add⟩

/-- The time from `b` until `a`; none when `a` is earlier. -/
def sub (a b : Duration) : Duration :=
  ⟨a.nanos - b.nanos, Nat.le_trans (Nat.sub_le _ _) a.isLe⟩

instance : Sub Duration := ⟨sub⟩

/-- The duration in seconds: the whole seconds and the rest are converted apart, then added. -/
def seconds {α : Type} [Scalar α] (d : Duration) : α :=
  ((d.nanos / nanosPerSecond : Nat) : α) +
    ((d.nanos % nanosPerSecond : Nat) : α) / (nanosPerSecond : α)

/-- The duration, or a single nanosecond in place of no time. -/
def orOne (d : Duration) : Duration := if d.nanos = 0 then ofNanos 1 else d

theorem ext {a b : Duration} (h : a.nanos = b.nanos) : a = b := by
  cases a
  cases b
  cases h
  rfl

theorem add_nanos (a b : Duration) : (a + b).nanos = min (a.nanos + b.nanos) maxNanos := rfl

theorem sub_nanos (a b : Duration) : (a - b).nanos = a.nanos - b.nanos := rfl

end Duration

end TidyTree
