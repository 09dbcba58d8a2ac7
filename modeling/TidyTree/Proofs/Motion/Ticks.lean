import TidyTree.Proofs.Motion.Departure

set_option autoImplicit false
set_option relaxedAutoImplicit false

/-!
# Ticks

A tick lets an element rest that has arrived. Nobody can tell from then on: an element that rests
where its tween has ended is seen where the tween would be seen, and is sent on from there. So it
does not matter how often a stage ticks, but for the elements that are due to leave, and these leave
with the first tick that finds them due.
-/

namespace TidyTree

variable {κ α ν : Type}

namespace Track

variable {t : Track α ν} {clock now : Duration}

private theorem isMoving_of_le (later : clock ≤ now) (moving : t.isMoving now = true) :
    t.isMoving clock = true := by
  cases t with
  | resting value => exact moving
  | moving tween since =>
    have running : (now - since).nanos < tween.duration.nanos := of_decide_eq_true moving
    have later : clock.nanos ≤ now.nanos := later
    refine decide_eq_true (?_ : (clock - since).nanos < tween.duration.nanos)
    rw [Duration.sub_nanos] at running ⊢
    omega

private theorem settle_cases (t : Track α ν) (clock : Duration) :
    t.settle clock = t ∨ t.isMoving clock = false ∧ t.settle clock = resting t.target := by
  cases arrived : t.isMoving clock with
  | true => exact Or.inl (if_pos arrived)
  | false => exact Or.inr ⟨rfl, if_neg (by simp [arrived])⟩

private theorem settle_settle (later : clock ≤ now) : (t.settle clock).settle now = t.settle now
    := by
  rcases t.settle_cases clock with same | ⟨arrived, same⟩
  · rw [same]
  · have still : t.isMoving now = false := by
      by_contra moving
      rw [isMoving_of_le later (Bool.not_eq_false _ ▸ moving)] at arrived
      exact absurd arrived (by decide)
    rw [same, settle, settle, still]
    rfl

variable [Scalar α] [Lerp α ν]

private theorem sample_settle (t : Track α ν) (later : clock ≤ now) :
    (t.settle clock).sample now = t.sample now := by
  rcases t.settle_cases clock with same | ⟨arrived, same⟩
  · rw [same]
  · rw [same, sample_of_not_isMoving arrived later]
    rfl

private theorem redirect_settle (t : Track α ν) (later : clock ≤ now) (finish : ν)
    (duration : Duration)
    (easing : Easing α) :
    ((t.settle clock).redirect finish duration now).withEasing easing =
      (t.redirect finish duration now).withEasing easing := by
  rcases t.settle_cases clock with same | ⟨arrived, same⟩
  · rw [same]
  · rw [same]
    cases t with
    | resting value => rfl
    | moving tween since =>
      have ended : (tween.advance (now - since)).current = tween.finish :=
        sample_of_not_isMoving arrived later
      rw [redirect, redirect, Tween.retarget, ended]
      rfl

end Track

def Cue.key : Cue κ α ν → κ
  | move key _ _ _ _ _ => key
  | rest key _ => key
  | leave key => key
  | leaveAt key _ => key

/-- Until when a cue lets its element stay, after it would have stayed for some time. -/
private def Cue.stay : Cue κ α ν → Option (Option Duration) → Option (Option Duration)
  | move _ _ _ _ _ _, _ => some none
  | rest _ _, _ => some none
  | leave _, _ => none
  | leaveAt _ time, before => before.map fun _ => some time

/-- The cue keeps its element on stage, or brings it there. -/
def Cue.keeps : Cue κ α ν → Bool
  | move _ _ _ _ _ _ => true
  | rest _ _ => true
  | _ => false

private theorem Cue.stay_of_keeps {c : Cue κ α ν} (keeps : c.keeps = true)
    (before : Option (Option Duration)) : c.stay before = some none := by
  cases c with
  | move key start finish duration easing now => rfl
  | rest key value => rfl
  | _ => exact Bool.noConfusion keeps

namespace Stage

inductive Call (κ α ν : Type) where
  | cue (cue : Cue κ α ν)
  | tick (now : Duration)

namespace Call

def time? : Call κ α ν → Option Duration
  | cue (.move _ _ _ _ _ now) => some now
  | tick now => some now
  | _ => none

def cue? : Call κ α ν → Option (Cue κ α ν)
  | cue c => some c
  | tick _ => none

def times (calls : List (Call κ α ν)) : List Duration := calls.filterMap time?

def cues (calls : List (Call κ α ν)) : List (Cue κ α ν) := calls.filterMap cue?

private theorem mem_cues_iff {calls : List (Call κ α ν)} {c : Cue κ α ν} :
    c ∈ cues calls ↔ .cue c ∈ calls := by
  rw [cues, List.mem_filterMap]
  constructor
  · rintro ⟨call, mem, same⟩
    cases call with
    | cue first => exact Option.some.inj same ▸ mem
    | tick now => exact absurd same (by simp [cue?])
  · exact fun mem => ⟨.cue c, mem, rfl⟩

end Call

variable [Key κ] {s s' s'' : Stage κ α ν} {k : κ} {clock now : Duration}

private theorem isLeaving_eq (s : Stage κ α ν) (k : κ) : s.isLeaving k = (s.stay? k).join.isSome
    := by
  rw [isLeaving, stay?]
  cases s.actors.get? k <;> rfl

/-- How an element would move or rest after a tick. -/
private def settled? (s : Stage κ α ν) (k : κ) (clock : Duration) : Option (Track α ν) :=
  (s.actors.get? k).map (·.track.settle clock)

private theorem map_settle_settled? (s : Stage κ α ν) (k : κ) (later : clock ≤ now) :
    (s.settled? k clock).map (·.settle now) = s.settled? k now := by
  rw [settled?, settled?, Option.map_map]
  exact congrArg ((s.actors.get? k).map ·) (funext fun _ => Track.settle_settle later)

private theorem get?_tick_of_stays (stays : s.isLeaving k = false) (now : Duration) :
    (s.tick now).actors.get? k =
      (s.actors.get? k).map fun actor => { actor with track := actor.track.settle now } := by
  rw [get?_tick]
  cases held : s.actors.get? k with
  | none => rfl
  | some actor =>
    have unbound : actor.leavesAt = none := by simpa [isLeaving, held] using stays
    rw [Option.filter_some_pos (by rw [Stage.stays, unbound])]

private theorem isLeaving_tick (stays : s.isLeaving k = false) (now : Duration) :
    (s.tick now).isLeaving k = false := by
  rw [isLeaving, get?_tick_of_stays stays] at *
  cases held : s.actors.get? k with
  | none => rfl
  | some actor => simpa [held] using stays

/-- From a clock reading on an element is the same on both stages. It is due to leave neither. -/
structure AgreesOn (s s' : Stage κ α ν) (k : κ) (clock : Duration) : Prop where
  same : s.settled? k clock = s'.settled? k clock
  stays : s.isLeaving k = false
  stays' : s'.isLeaving k = false

namespace AgreesOn

private theorem refl (stays : s.isLeaving k = false) (clock : Duration) : s.AgreesOn s k clock :=
  ⟨rfl, stays, stays⟩

private theorem symm (h : s.AgreesOn s' k clock) : s'.AgreesOn s k clock
    := ⟨h.same.symm, h.stays', h.stays⟩

private theorem trans (h : s.AgreesOn s' k clock) (h' : s'.AgreesOn s'' k clock) :
    s.AgreesOn s'' k clock :=
  ⟨h.same.trans h'.same, h.stays, h'.stays'⟩

private theorem later (h : s.AgreesOn s' k clock) (le : clock ≤ now) : s.AgreesOn s' k now where
  same := by rw [← map_settle_settled? s k le, h.same, map_settle_settled? s' k le]
  stays := h.stays
  stays' := h.stays'

private theorem tick (stays : s.isLeaving k = false) (now : Duration) :
    (s.tick now).AgreesOn s k now where
  same := by
    have again : (s.tick now).settled? k now = (s.settled? k now).map (·.settle now) := by
      rw [settled?, settled?, get?_tick_of_stays stays, Option.map_map, Option.map_map]
      rfl
    rw [again, map_settle_settled? s k (Nat.le_refl _)]
  stays := isLeaving_tick stays now
  stays' := stays

private theorem holds_eq (h : s.AgreesOn s' k clock) : s.holds k = s'.holds k := by
  have seen : ∀ u : Stage κ α ν, u.holds k = (u.settled? k clock).isSome := fun u =>
    Option.isSome_map.symm
  rw [seen, seen, h.same]

end AgreesOn

variable [Scalar α] [Lerp α ν]

private theorem AgreesOn.sample?_eq (h : s.AgreesOn s' k clock) :
    s.sample? k clock = s'.sample? k clock := by
  have seen : ∀ u : Stage κ α ν, u.sample? k clock = (u.settled? k clock).map (·.sample clock) := by
    intro u
    rw [sample?, settled?, Option.map_map]
    exact congrArg ((u.actors.get? k).map ·)
      (funext fun actor => (actor.track.sample_settle (Nat.le_refl _)).symm)
  rw [seen, seen, h.same]

def step (s : Stage κ α ν) : Call κ α ν → Stage κ α ν
  | .cue c => s.perform c
  | .tick now => s.tick now

def run (s : Stage κ α ν) (calls : List (Call κ α ν)) : Stage κ α ν := calls.foldl step s

private theorem get?_perform_of_ne (s : Stage κ α ν) {c : Cue κ α ν} (other : c.key ≠ k) :
    (s.perform c).actors.get? k = s.actors.get? k := by
  cases c with
  | move key start finish duration easing now =>
    exact get?_perform_move_of_ne s start finish duration easing now (Ne.symm other)
  | rest key value => exact Table.get?_insert_of_ne _ _ (Ne.symm other)
  | leave key => exact Table.get?_erase_of_ne _ (Ne.symm other)
  | leaveAt key time => exact Table.get?_modify_of_ne _ _ (Ne.symm other)

private theorem AgreesOn.tween_eq (h : s.AgreesOn s' k clock) (t : Transition κ ν)
    {timing : Timing α}
    (later : clock ≤ timing.now) :
    t.tween timing (s.actors.get? k) = t.tween timing (s'.actors.get? k) := by
  have same := h.same
  rw [settled?, settled?] at same
  cases held : s.actors.get? k with
  | none =>
    rw [held, Option.map_none, eq_comm, Option.map_eq_none_iff] at same
    rw [same]
  | some actor =>
    rw [held, Option.map_some, eq_comm, Option.map_eq_some_iff] at same
    obtain ⟨actor', held', settled⟩ := same
    have first := actor.track.redirect_settle later t.finish timing.duration timing.easing
    have second := actor'.track.redirect_settle later t.finish timing.duration timing.easing
    rw [held']
    exact first.symm.trans (settled ▸ second)

private theorem AgreesOn.get?_perform (h : s.AgreesOn s' k clock) {c : Cue κ α ν} (own : c.key = k)
    (never : ∀ time, c ≠ .leaveAt k time) (prompt : ∀ now ∈ (Call.cue c).time?, clock ≤ now) :
    (s.perform c).actors.get? k = (s'.perform c).actors.get? k := by
  subst own
  cases c with
  | move key start finish duration easing now =>
    let t : Transition κ ν := ⟨key, .updating, .animated, start, finish⟩
    let timing : Timing α := ⟨duration, easing, now⟩
    have later : clock ≤ timing.now := prompt now rfl
    have tween := h.tween_eq t later
    refine (get?_perform_move s t timing).trans (.trans ?_ (get?_perform_move s' t timing).symm)
    exact congrArg (fun tween => some (⟨.moving tween now, none⟩ : Actor α ν)) tween
  | rest key value => exact (Table.get?_insert_self _ _ _).trans (Table.get?_insert_self _ _ _).symm
  | leave key => exact (Table.get?_erase_self _ _).trans (Table.get?_erase_self _ _).symm
  | leaveAt key time => exact absurd rfl (never time)

private theorem stay?_perform_self (s : Stage κ α ν) (c : Cue κ α ν) :
    (s.perform c).stay? c.key = c.stay (s.stay? c.key) := by
  cases c with
  | move key start finish duration easing now =>
    exact congrArg (Option.map Actor.leavesAt)
      (get?_perform_move s ⟨key, .updating, .animated, start, finish⟩ ⟨duration, easing, now⟩)
  | rest key value => exact congrArg (Option.map Actor.leavesAt) (Table.get?_insert_self _ _ _)
  | leave key => exact congrArg (Option.map Actor.leavesAt) (Table.get?_erase_self _ _)
  | leaveAt key time =>
    refine (congrArg (Option.map Actor.leavesAt) (Table.get?_modify_self _ _ _)).trans ?_
    rw [stay?, Cue.stay, Option.map_map, Option.map_map]
    rfl

private theorem stay?_perform_of_ne (s : Stage κ α ν) {c : Cue κ α ν} (other : c.key ≠ k) :
    (s.perform c).stay? k = s.stay? k := by
  rw [stay?, get?_perform_of_ne s other, stay?]

private theorem isLeaving_perform (stays : s.isLeaving k = false) {c : Cue κ α ν}
    (never : ∀ time, c ≠ .leaveAt k time) : (s.perform c).isLeaving k = false := by
  rw [isLeaving_eq] at *
  by_cases own : c.key = k
  · subst own
    rw [stay?_perform_self]
    cases c with
    | leaveAt key time => exact absurd rfl (never time)
    | _ => rfl
  · rw [stay?_perform_of_ne s own]
    exact stays

private theorem AgreesOn.perform (h : s.AgreesOn s' k clock) {c : Cue κ α ν}
    (never : ∀ time, c ≠ .leaveAt k time) (prompt : ∀ now ∈ (Call.cue c).time?, clock ≤ now) :
    (s.perform c).AgreesOn (s'.perform c) k clock where
  same := by
    by_cases own : c.key = k
    · rw [settled?, settled?, h.get?_perform own never prompt]
    · rw [settled?, settled?, get?_perform_of_ne s own, get?_perform_of_ne s' own]
      exact h.same
  stays := isLeaving_perform h.stays never
  stays' := isLeaving_perform h.stays' never

private theorem agreesOn_run (stays : s.isLeaving k = false) {calls : List (Call κ α ν)}
    (never : ∀ time, .cue (.leaveAt k time) ∉ calls)
    (ordered : (Call.times calls).Pairwise (· ≤ ·)) (late : ∀ now ∈ Call.times calls, now ≤ clock) :
    (s.run calls).AgreesOn (s.performAll (Call.cues calls)) k clock := by
  -- The readings before a call are at most its own, so the stages agree from that one on.
  induction calls using List.reverseRecOn generalizing clock with
  | nil => exact .refl stays clock
  | append_singleton calls call ih =>
    have never' : ∀ time, .cue (.leaveAt k time) ∉ calls := fun time mem =>
      never time (List.mem_append_left _ mem)
    have own : ∀ time, call ≠ .cue (.leaveAt k time) := by
      rintro time rfl
      exact never time (by simp)
    rw [Call.times, List.filterMap_append] at ordered late
    obtain ⟨ordered, _, before⟩ := List.pairwise_append.mp ordered
    obtain ⟨reading, early, late', prompt⟩ : ∃ reading, reading ≤ clock ∧
        (∀ now ∈ Call.times calls, now ≤ reading) ∧ ∀ now ∈ call.time?, now = reading := by
      cases timed : call.time? with
      | none =>
        exact ⟨clock, Nat.le_refl _, fun now mem => late now (List.mem_append_left _ mem), by simp⟩
      | some reading =>
        have mem : reading ∈ [call].filterMap Call.time? := by simp [timed]
        exact ⟨reading, late reading (List.mem_append_right _ mem),
          fun now earlier => before now earlier reading mem, by simp⟩
    have agree := ih never' ordered late'
    rw [run, List.foldl_append, Call.cues, List.filterMap_append, performAll, List.foldl_append]
    cases call with
    | tick now =>
      obtain rfl := prompt now rfl
      exact ((AgreesOn.tick agree.stays now).trans agree).later early
    | cue c =>
      have asked : ∀ time, c ≠ .leaveAt k time := fun time same => own time (congrArg Call.cue same)
      have prompt' : ∀ now ∈ (Call.cue c).time?, reading ≤ now := fun now mem =>
        Nat.le_of_eq (congrArg Duration.nanos (prompt now mem).symm)
      exact (agree.perform asked prompt').later early

private theorem stay?_run_of_gone (gone : s.stay? k = none) {calls : List (Call κ α ν)}
    (quiet : ∀ c, .cue c ∈ calls → c.key ≠ k) : (s.run calls).stay? k = none := by
  induction calls generalizing s with
  | nil => exact gone
  | cons call calls ih =>
    refine ih (s := s.step call) ?_ fun c mem => quiet c (List.mem_cons_of_mem _ mem)
    cases call with
    | cue c => exact (stay?_perform_of_ne s (quiet c List.mem_cons_self)).trans gone
    | tick now => rw [step, stay?_tick, gone, Option.filter_none]

private theorem stay?_run_of_kept (kept : s.stay? k = some none) {calls : List (Call κ α ν)}
    (keeping : ∀ c, .cue c ∈ calls → c.key = k → c.keeps = true) :
    (s.run calls).stay? k = some none := by
  induction calls generalizing s with
  | nil => exact kept
  | cons call calls ih =>
    refine ih (s := s.step call) ?_ fun c mem => keeping c (List.mem_cons_of_mem _ mem)
    cases call with
    | cue c =>
      by_cases own : c.key = k
      · have keeps := keeping c List.mem_cons_self own
        subst own
        exact (stay?_perform_self s c).trans (Cue.stay_of_keeps keeps _)
      · exact (stay?_perform_of_ne s own).trans kept
    | tick now =>
      rw [step, stay?_tick, kept]
      rfl

private theorem holds_run_iff {due : Duration} (scheduled : s.stay? k = some (some due))
    {calls : List (Call κ α ν)} (quiet : ∀ c, .cue c ∈ calls → c.key ≠ k) :
    (s.run calls).holds k = true ↔ ∀ now, .tick now ∈ calls → now < due := by
  induction calls generalizing s with
  | nil => simp [run, ← isSome_stay?, scheduled]
  | cons call calls ih =>
    have quiet' : ∀ c, .cue c ∈ calls → c.key ≠ k := fun c mem =>
      quiet c (List.mem_cons_of_mem _ mem)
    cases call with
    | cue c =>
      have same := (stay?_perform_of_ne s (quiet c List.mem_cons_self)).trans scheduled
      show ((s.perform c).run calls).holds k = true ↔ _
      simpa using ih same quiet'
    | tick now =>
      have ticked := stay?_tick s now k
      rw [scheduled, Option.filter_some, Option.all_some] at ticked
      show ((s.tick now).run calls).holds k = true ↔ _
      by_cases early : now < due
      · rw [decide_eq_true early, if_pos rfl] at ticked
        simpa [early] using ih ticked quiet'
      · rw [decide_eq_false early, if_neg Bool.false_ne_true] at ticked
        rw [← isSome_stay?, stay?_run_of_gone ticked quiet']
        exact iff_of_false Bool.false_ne_true fun all => early (all now List.mem_cons_self)

/-- It cannot be told how often a stage ticks. As long as an element has not been given a time to
leave, two runs with the same cues and with any ticks in between hold it alike, and from their last
clock reading on it is seen at the same place. An element that is given a time to leave is there
until the first tick that finds it due and gone from then on, unless another cue comes first; once
it is told to move or to rest again, no tick makes it leave. -/
theorem ticks_unseen (s : Stage κ α ν) (k : κ) :
    (s.isLeaving k = false → ∀ calls calls' : List (Call κ α ν),
      Call.cues calls = Call.cues calls' → (∀ time, .cue (.leaveAt k time) ∉ calls) →
      (Call.times calls).Pairwise (· ≤ ·) → (Call.times calls').Pairwise (· ≤ ·) →
      ∀ time, (∀ now ∈ Call.times calls ++ Call.times calls', now ≤ time) →
        (s.run calls).holds k = (s.run calls').holds k ∧
        (s.run calls).sample? k time = (s.run calls').sample? k time) ∧
    (s.holds k = true → ∀ (due : Duration) (calls : List (Call κ α ν)),
      (∀ c, .cue c ∈ calls → c.key ≠ k) →
      (((s.perform (.leaveAt k due)).run calls).holds k = true ↔
        ∀ now, .tick now ∈ calls → now < due) ∧
      ∀ (c : Cue κ α ν) (later : List (Call κ α ν)), c.key = k → c.keeps = true →
        (∀ c', .cue c' ∈ later → c'.key = k → c'.keeps = true) →
        ((((s.perform (.leaveAt k due)).run calls).perform c).run later).holds k = true) := by
  constructor
  · intro stays calls calls' same never ordered ordered' time late
    have never' : ∀ time, .cue (.leaveAt k time) ∉ calls' := by
      intro time mem
      rw [← Call.mem_cues_iff, ← same, Call.mem_cues_iff] at mem
      exact never time mem
    have first := agreesOn_run stays never ordered fun now mem =>
      late now (List.mem_append_left _ mem)
    have second := agreesOn_run stays never' ordered' fun now mem =>
      late now (List.mem_append_right _ mem)
    rw [← same] at second
    have agree := first.trans second.symm
    exact ⟨agree.holds_eq, agree.sample?_eq⟩
  · intro held due calls quiet
    have scheduled : (s.perform (.leaveAt k due)).stay? k = some (some due) := by
      rw [← isSome_stay?, Option.isSome_iff_exists] at held
      obtain ⟨before, there⟩ := held
      refine (stay?_perform_self s (.leaveAt k due)).trans ?_
      rw [Cue.key, there]
      rfl
    refine ⟨holds_run_iff scheduled quiet, fun c later own keeps keeping => ?_⟩
    subst own
    have kept : (((s.perform (.leaveAt c.key due)).run calls).perform c).stay? c.key = some none :=
      (stay?_perform_self _ c).trans (Cue.stay_of_keeps keeps _)
    rw [← isSome_stay?, stay?_run_of_kept kept keeping]
    rfl

theorem ticks_unseen_of_arrival :
    ∃ (ticking still : List (Call Nat Rat Rat)) (s : Stage Nat Rat Rat),
      s = empty.run ticking ∧ ticking.length = 5 ∧ still.length = 2 ∧
      (empty.run still).sample? 1 (.ofNanos 14) = some 4 ∧ s.sample? 1 (.ofNanos 14) = some 4 ∧
      ((s.perform (.leaveAt 1 (.ofNanos 20))).run [.tick (.ofNanos 19)]).holds 1 = true ∧
      ¬ ((s.perform (.leaveAt 1 (.ofNanos 20))).run
        [.tick (.ofNanos 19), .cue (.rest 2 5), .tick (.ofNanos 20)]).holds 1 = true ∧
      ((((s.perform (.leaveAt 1 (.ofNanos 20))).run [.tick (.ofNanos 19)]).perform
        (.rest 1 3)).run [.tick (.ofNanos 20)]).holds 1 = true := by
  let go : Call Nat Rat Rat := .cue (.move 1 0 8 (.ofNanos 4) .linear .zero)
  let back : Call Nat Rat Rat := .cue (.move 1 99 0 (.ofNanos 4) .cubicInOut (.ofNanos 12))
  let ticking := [.tick .zero, go, .tick (.ofNanos 10), back, .tick (.ofNanos 13)]
  let still := [go, back]
  let s : Stage Nat Rat Rat := empty.run ticking
  obtain ⟨unseen, _⟩ := ticks_unseen (empty : Stage Nat Rat Rat) 1
  obtain ⟨_, sampled⟩ := unseen rfl ticking still rfl (by simp [ticking, go, back])
    (by decide +kernel) (by decide +kernel) (.ofNanos 14) (by decide +kernel)
  have seen : (empty.run still).sample? 1 (.ofNanos 14) = some (4 : Rat) := by decide +kernel
  obtain ⟨_, leaves⟩ := ticks_unseen s 1
  have held : s.holds 1 = true := by decide +kernel
  obtain ⟨stays, kept⟩ := leaves held (.ofNanos 20) [.tick (.ofNanos 19)] (by simp)
  obtain ⟨gone, _⟩ := leaves held (.ofNanos 20)
    [.tick (.ofNanos 19), .cue (.rest 2 5), .tick (.ofNanos 20)] (by simp [Cue.key])
  refine ⟨ticking, still, s, rfl, rfl, rfl, seen, sampled.trans seen, stays.mpr ?_, ?_, ?_⟩
  · simpa using (by decide : Duration.ofNanos 19 < .ofNanos 20)
  · exact fun there => absurd (gone.mp there (.ofNanos 20) (by simp)) (by decide)
  · exact kept (.rest 1 3) [.tick (.ofNanos 20)] rfl rfl (by simp)

end Stage

end TidyTree
