import TidyTree.Motion.Duration
import TidyTree.Motion.Easing

set_option autoImplicit false
set_option relaxedAutoImplicit false

namespace TidyTree

structure Tween (α ν : Type) where
  start : ν
  finish : ν
  elapsed : Duration
  duration : Duration
  easing : Easing α

namespace Tween

variable {α ν : Type} [Scalar α]

/-- A tween at its start, slow at both ends. It lasts at least a nanosecond. -/
def between (start finish : ν) (duration : Duration) : Tween α ν :=
  ⟨start, finish, .zero, duration.orOne, .cubicInOut⟩

def withEasing (t : Tween α ν) (easing : Easing α) : Tween α ν := { t with easing }

def advance (t : Tween α ν) (dt : Duration) : Tween α ν := { t with elapsed := t.elapsed + dt }

def isComplete (t : Tween α ν) : Bool := t.elapsed ≥ t.duration

def progress (t : Tween α ν) : α := Scalar.toUnit (t.elapsed.seconds / t.duration.seconds)

variable [Lerp α ν]

/-- The value now: the end exactly once the duration has passed. -/
def current (t : Tween α ν) : ν :=
  if t.isComplete then t.finish else lerp t.start t.finish (t.easing t.progress)

/-- A new tween from the value now to another end, with the same course of time. -/
def retarget (t : Tween α ν) (finish : ν) (duration : Duration) : Tween α ν :=
  (between t.current finish duration).withEasing t.easing

end Tween

end TidyTree
