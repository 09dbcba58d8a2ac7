import TidyTree.Motion.Stage

set_option autoImplicit false
set_option relaxedAutoImplicit false

/-!
# Transitions

A transition says what happens to an element from one layout to the next: whether it comes, stays or
goes, and whether it does so smoothly or at once. On a stage it becomes cues. An element that stays
where it is at once gets no cue, so what it was told before goes on.
-/

namespace TidyTree

inductive Phase where
  | entering
  | updating
  | exiting
  deriving DecidableEq, Repr

inductive Mode where
  | animated
  | immediate
  deriving DecidableEq, Repr

/-- The change of an element from one layout to the next. -/
structure Transition (κ ν : Type) where
  key : κ
  phase : Phase
  mode : Mode
  start : ν
  finish : ν
  deriving DecidableEq, Repr

/-- When changes begin, how long they take and by which course of time. -/
structure Timing (α : Type) where
  duration : Duration
  easing : Easing α
  now : Duration

structure Tally where
  entering : Nat
  updating : Nat
  exiting : Nat
  animated : Nat
  immediate : Nat
  deriving DecidableEq, Repr

namespace Phase

def name : Phase → String
  | entering => "entering"
  | updating => "updating"
  | exiting => "exiting"

end Phase

namespace Mode

def of (isAnimated : Bool) : Mode := if isAnimated then animated else immediate

def name : Mode → String
  | animated => "animated"
  | immediate => "immediate"

end Mode

/-- The cues of a transition for an element that the stage holds or not. -/
def Transition.cues {κ α ν : Type} [BEq ν] (t : Transition κ ν) (timing : Timing α) (isHeld : Bool) :
    List (Cue κ α ν) :=
  let move := Cue.move t.key t.start t.finish timing.duration timing.easing timing.now
  match t.phase, t.mode with
  | .exiting, .animated => [move, .leaveAt t.key (timing.now + timing.duration)]
  | .exiting, .immediate => [.leave t.key]
  | .updating, .immediate =>
    if t.start == t.finish && isHeld then [] else [.rest t.key t.finish]
  | .entering, .immediate => [.rest t.key t.finish]
  | _, .animated => [move]

namespace Stage

variable {κ α ν : Type} [Key κ] [Scalar α] [Lerp α ν] [BEq ν]

def cuesFor (s : Stage κ α ν) (timing : Timing α) (t : Transition κ ν) : List (Cue κ α ν) :=
  t.cues timing (s.holds t.key)

def apply (s : Stage κ α ν) (timing : Timing α) (t : Transition κ ν) : Stage κ α ν :=
  s.performAll (s.cuesFor timing t)

def applyAll (s : Stage κ α ν) (timing : Timing α) (ts : List (Transition κ ν)) : Stage κ α ν :=
  ts.foldl (·.apply timing) s

def cuesForAll (s : Stage κ α ν) (timing : Timing α) : List (Transition κ ν) → List (Cue κ α ν)
  | [] => []
  | t :: ts => s.cuesFor timing t ++ (s.apply timing t).cuesForAll timing ts

end Stage

def Tally.of {κ ν : Type} (ts : List (Transition κ ν)) : Tally where
  entering := ts.countP (·.phase = .entering)
  updating := ts.countP (·.phase = .updating)
  exiting := ts.countP (·.phase = .exiting)
  animated := ts.countP (·.mode = .animated)
  immediate := ts.countP (·.mode = .immediate)

end TidyTree
