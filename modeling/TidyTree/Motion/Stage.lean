import TidyTree.Table
import TidyTree.Motion.Tween

set_option autoImplicit false
set_option relaxedAutoImplicit false

/-!
# The stage

The elements of a moving picture stand on a stage, each under a key. An element rests at a value or
follows a tween, and may be due to leave. What an element is told to do is a cue. A cue to move
takes the element from where it is at that moment, so nothing jumps, and every new cue to move or
rest calls off a leave.
-/

namespace TidyTree

/-- Where an element is, or how it moves from a clock reading on. -/
inductive Track (α ν : Type) where
  | resting (value : ν)
  | moving (tween : Tween α ν) (since : Duration)

structure Actor (α ν : Type) where
  track : Track α ν
  /-- The clock reading from which on the element is due to leave. -/
  leavesAt : Option Duration

inductive Cue (κ α ν : Type) where
  /-- Move to `finish`, from `start` if the element is new. -/
  | move (key : κ) (start finish : ν) (duration : Duration) (easing : Easing α) (now : Duration)
  | rest (key : κ) (value : ν)
  | leave (key : κ)
  | leaveAt (key : κ) (time : Duration)

structure Stage (κ α ν : Type) [Key κ] where
  actors : Table κ (Actor α ν)

namespace Track

variable {α ν : Type} [Scalar α] [Lerp α ν]

/-- The value at a clock reading; before its start a tween has its first value. -/
def sample (t : Track α ν) (now : Duration) : ν :=
  match t with
  | resting value => value
  | moving tween since => (tween.advance (now - since)).current

def isMoving (t : Track α ν) (now : Duration) : Bool :=
  match t with
  | resting _ => false
  | moving tween since => now - since < tween.duration

def target : Track α ν → ν
  | resting value => value
  | moving tween _ => tween.finish

/-- Rest at the end of a tween that has reached it. -/
def settle (t : Track α ν) (now : Duration) : Track α ν :=
  if t.isMoving now then t else resting t.target

/-- The tween of an element that is told to move, from where it is now. -/
def redirect (t : Track α ν) (finish : ν) (duration now : Duration) : Tween α ν :=
  match t with
  | resting value => .between value finish duration
  | moving tween since => (tween.advance (now - since)).retarget finish duration

end Track

namespace Stage

variable {κ α ν : Type} [Key κ] [Scalar α] [Lerp α ν]

def empty : Stage κ α ν := ⟨.empty⟩

def sample? (s : Stage κ α ν) (key : κ) (now : Duration) : Option ν :=
  (s.actors.get? key).map (·.track.sample now)

def samples (s : Stage κ α ν) (now : Duration) : List (κ × ν) :=
  s.actors.entries.map fun e => (e.1, e.2.track.sample now)

def holds (s : Stage κ α ν) (key : κ) : Bool := s.actors.contains key

def isLeaving (s : Stage κ α ν) (key : κ) : Bool :=
  ((s.actors.get? key).bind (·.leavesAt)).isSome

def isMoving (s : Stage κ α ν) (now : Duration) : Bool :=
  s.actors.any fun _ actor => actor.track.isMoving now

def perform (s : Stage κ α ν) : Cue κ α ν → Stage κ α ν
  | .move key start finish duration easing now =>
    let tween := match s.actors.get? key with
      | some actor => actor.track.redirect finish duration now
      | none => .between start finish duration
    ⟨s.actors.insert key ⟨.moving (tween.withEasing easing) now, none⟩⟩
  | .rest key value => ⟨s.actors.insert key ⟨.resting value, none⟩⟩
  | .leave key => ⟨s.actors.erase key⟩
  | .leaveAt key time => ⟨s.actors.modify key fun actor => { actor with leavesAt := some time }⟩

def performAll (s : Stage κ α ν) (cues : List (Cue κ α ν)) : Stage κ α ν := cues.foldl perform s

def stays (now : Duration) (actor : Actor α ν) : Bool :=
  match actor.leavesAt with
  | none => true
  | some time => now < time

/-- Let the elements leave that are due, and let those rest that have arrived. -/
def tick (s : Stage κ α ν) (now : Duration) : Stage κ α ν :=
  ⟨(s.actors.filter fun _ actor => stays now actor).map fun _ actor =>
    { actor with track := actor.track.settle now }⟩

def departures (s : Stage κ α ν) (now : Duration) : Nat :=
  s.actors.size - (s.tick now).actors.size

end Stage

end TidyTree
