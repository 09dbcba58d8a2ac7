import TidyTree.Motion.Tween
import TidyTree.Proofs.Motion.Easing
import TidyTree.Proofs.Motion.Presence

set_option autoImplicit false
set_option relaxedAutoImplicit false

namespace TidyTree

namespace Duration

def total (times : List Duration) : Duration := ofNanos (times.map nanos).sum

private theorem add_total (d : Duration) (times : List Duration) :
    d + total times = total (d :: times) := by
  apply ext
  rw [add_nanos]
  simp only [total, ofNanos, List.map_cons, List.sum_cons]
  omega

private theorem add_zero (d : Duration) : d + .zero = d := by
  apply ext
  rw [add_nanos]
  exact Nat.min_eq_left d.isLe

private theorem zero_add (d : Duration) : .zero + d = d := by
  apply ext
  rw [add_nanos]
  show min (0 + d.nanos) maxNanos = d.nanos
  rw [Nat.zero_add]
  exact Nat.min_eq_left d.isLe

private theorem add_assoc (a b c : Duration) : a + b + c = a + (b + c) := by
  apply ext
  simp only [add_nanos]
  omega

private theorem seconds_eq (d : Duration) : (d.seconds : Rat) = d.nanos / nanosPerSecond := by
  have parts : ((nanosPerSecond * (d.nanos / nanosPerSecond) + d.nanos % nanosPerSecond : Nat) :
      Rat) = d.nanos := by rw [Nat.div_add_mod]
  have some : (nanosPerSecond : Rat) ≠ 0 := by norm_num [nanosPerSecond]
  rw [← parts, Nat.cast_add, Nat.cast_mul, add_div, mul_div_cancel_left₀ _ some]
  rfl

private def share (d e : Duration) : Rat := d.nanos / e.nanos

private theorem seconds_div_seconds (d e : Duration) : (d.seconds / e.seconds : Rat) = d.share e
    := by
  have some : (nanosPerSecond : Rat) ≠ 0 := by norm_num [nanosPerSecond]
  rw [seconds_eq, seconds_eq, div_div_div_cancel_right₀ some, share]

private theorem share_nonneg (d e : Duration) : 0 ≤ d.share e :=
  div_nonneg d.nanos.cast_nonneg e.nanos.cast_nonneg

private theorem zero_share (e : Duration) : Duration.zero.share e = 0 := by
  have none : ((Duration.zero.nanos : Nat) : Rat) = 0 := by norm_num [zero, ofNanos]
  rw [share, none, zero_div]

private theorem share_le_share {c d : Duration} (h : c ≤ d) (e : Duration) : c.share e ≤ d.share e
    :=
  div_le_div_of_nonneg_right (Nat.cast_le.mpr h) e.nanos.cast_nonneg

private theorem share_lt_one {d e : Duration} (h : ¬ e ≤ d) : d.share e < 1 := by
  have less : d.nanos < e.nanos := Nat.lt_of_not_le h
  have some : (0 : Rat) < e.nanos := Nat.cast_pos.mpr (Nat.zero_lt_of_lt less)
  rw [share, div_lt_one some]
  exact Nat.cast_lt.mpr less

end Duration

namespace Tween

section

variable {α ν : Type}

def advanceAll (t : Tween α ν) (steps : List Duration) : Tween α ν := steps.foldl advance t

private theorem advanceAll_eq (t : Tween α ν) (steps : List Duration) :
    t.advanceAll steps = t.advance (.total steps) := by
  induction steps generalizing t with
  | nil => rw [advance, show Duration.total [] = .zero from rfl, Duration.add_zero]; rfl
  | cons d steps ih =>
    have rest := ih (t.advance d)
    rw [advance, advance, Duration.add_assoc, Duration.add_total] at rest
    exact rest

end

variable {ν : Type} [Lerp Rat ν]

/-- A tween goes from a start to an end in a duration of at least a nanosecond: where it is depends
on the sum of the steps, it is at its start before any time has passed, at its end exactly from the
duration on, and on its way each of its numbers goes from the one to the other without turning
back. -/
structure GoesItsWay [Composite ν] (t : Tween Rat ν) (start finish : ν) (duration : Duration) :
    Prop where
  unsplit : ∀ steps steps', Duration.total steps = .total steps' →
    (t.advanceAll steps).current = (t.advanceAll steps').current
  begins : ∀ steps, Duration.total steps = .zero → (t.advanceAll steps).current = start
  arrives : ∀ steps, duration.orOne ≤ .total steps → (t.advanceAll steps).current = finish
  notBefore : ∀ steps, ¬ duration.orOne ≤ .total steps → ∀ x ∈ Composite.coordinates (ν := ν),
    x start ≠ x finish → x (t.advanceAll steps).current ≠ x finish
  passes : ∀ steps steps', Duration.total steps ≤ .total steps' →
    ∀ x ∈ Composite.coordinates (ν := ν), IsPassed (x start) (x (t.advanceAll steps).current)
      (x (t.advanceAll steps').current) (x finish)

/-- A part of the way of a tween: the steps that it takes before it is sent elsewhere, and the end
and the duration of the new way. -/
structure Turn (ν : Type) where
  steps : List Duration
  finish : ν
  duration : Duration

def turn (t : Tween Rat ν) (u : Turn ν) : Tween Rat ν :=
  (t.advanceAll u.steps).retarget u.finish u.duration

def turnAll (t : Tween Rat ν) (turns : List (Turn ν)) : Tween Rat ν := turns.foldl turn t

private theorem current_advanceAll (easing : Easing Rat) (start finish : ν) (duration : Duration)
    (steps : List Duration) :
    (((between start finish duration).withEasing easing).advanceAll steps).current =
      if duration.orOne ≤ .total steps then finish
      else lerp start finish (easing ((Duration.total steps).share duration.orOne)) := by
  rw [advanceAll_eq]
  generalize Duration.total steps = d
  generalize hnew : (between start finish duration).withEasing easing = t
  have elapsed : (t.advance d).elapsed = d := by
    subst hnew
    exact Duration.zero_add d
  have whole : (t.advance d).duration = duration.orOne := by
    subst hnew
    rfl
  have complete : (t.advance d).isComplete = decide (duration.orOne ≤ d) := by
    rw [isComplete, elapsed, whole]
  rw [current, complete]
  by_cases passed : duration.orOne ≤ d
  · rw [if_pos passed, decide_eq_true passed, if_pos rfl]
    subst hnew
    rfl
  · have progress : (t.advance d).progress = d.share duration.orOne := by
      rw [Tween.progress, elapsed, whole, Duration.seconds_div_seconds]
      exact Scalar.toUnit_of_mem (d.share_nonneg _) (Duration.share_lt_one passed).le
    rw [if_neg passed, decide_eq_false passed, if_neg Bool.false_ne_true, progress]
    subst hnew
    rfl

variable [Composite ν] {easing : Easing Rat}

private theorem coordinate_advanceAll (start finish : ν) (duration : Duration)
    (steps : List Duration)
    {x : ν → Rat} (hx : x ∈ Composite.coordinates) :
    x (((between start finish duration).withEasing easing).advanceAll steps).current =
      if duration.orOne ≤ .total steps then x finish
      else Scalar.lerp (x start) (x finish)
        (easing ((Duration.total steps).share duration.orOne)) := by
  rw [current_advanceAll]
  split
  · rfl
  · exact Composite.lerp_eq x hx start finish _

private theorem goesItsWay_between (course : easing.IsCourse) (start finish : ν)
    (duration : Duration) :
    ((between start finish duration).withEasing easing).GoesItsWay start finish duration where
  unsplit steps steps' same := by rw [advanceAll_eq, advanceAll_eq, same]
  begins steps none := by
    refine Composite.ext _ _ fun x hx => ?_
    have pos : ¬ duration.orOne ≤ .zero := Nat.not_le.mpr duration.orOne_pos
    rw [coordinate_advanceAll start finish duration steps hx, none, if_neg pos,
      Duration.zero_share, course.start]
    exact Scalar.lerp_start _ _ le_rfl
  arrives steps passed := by rw [current_advanceAll, if_pos passed]
  notBefore steps open' x hx apart := by
    rw [coordinate_advanceAll start finish duration steps hx, if_neg open']
    have less := Duration.share_lt_one open'
    have low := Duration.share_nonneg (.total steps) duration.orOne
    exact Scalar.lerp_ne (course.nonneg low less.le) (course.lt_one _ low less) apart
  passes steps steps' later x hx := by
    rw [coordinate_advanceAll start finish duration steps hx,
      coordinate_advanceAll start finish duration steps' hx]
    have low := Duration.share_nonneg (.total steps) duration.orOne
    by_cases passed : duration.orOne ≤ .total steps
    · have passed' : duration.orOne ≤ .total steps' := Nat.le_trans passed later
      rw [if_pos passed, if_pos passed']
      exact isPassed_finish _ _
    · rw [if_neg passed]
      have less := Duration.share_lt_one passed
      have begun := course.nonneg low less.le
      by_cases passed' : duration.orOne ≤ .total steps'
      · rw [if_pos passed']
        exact Scalar.isPassed_lerp_finish begun (course.lt_one _ low less)
      · rw [if_neg passed']
        have less' := Duration.share_lt_one passed'
        have farther := Duration.share_le_share later duration.orOne
        exact Scalar.isPassed_lerp begun (course.mono _ _ low farther less'.le)
          (course.lt_one _ (low.trans farther) less')

omit [Composite ν] in
private theorem turn_eq {t : Tween Rat ν} (same : t.easing = easing) (u : Turn ν) :
    t.turn u = (between (t.advanceAll u.steps).current u.finish u.duration).withEasing easing := by
  rw [turn, retarget, advanceAll_eq, advance, same]

omit [Composite ν] in
private theorem easing_turnAll {t : Tween Rat ν} (same : t.easing = easing) (turns : List (Turn ν))
    :
    (t.turnAll turns).easing = easing := by
  induction turns generalizing t with
  | nil => exact same
  | cons u turns ih => exact ih (by rw [turn_eq same]; rfl)

/-- A tween with one of the two easings goes its way from its start to its end, and so it does after
every turn: from where it was to the new end, in the new duration. -/
theorem goesItsWay_turnAll (known : easing = .linear ∨ easing = .cubicInOut) (start finish : ν)
    (duration : Duration) :
    ((between start finish duration).withEasing easing).GoesItsWay start finish duration ∧
    ∀ (turns : List (Turn ν)) (u : Turn ν),
      let t := ((between start finish duration).withEasing easing).turnAll turns
      (t.turn u).GoesItsWay (t.advanceAll u.steps).current u.finish u.duration := by
  have course : easing.IsCourse := by
    rcases known with rfl | rfl
    · exact Easing.isCourse_linear
    · exact Easing.isCourse_cubicInOut
  refine ⟨goesItsWay_between course start finish duration, fun turns u => ?_⟩
  intro t
  have same : t.easing = easing := easing_turnAll rfl turns
  rw [turn_eq same]
  exact goesItsWay_between course _ u.finish u.duration

theorem goesItsWay_turnAll_halfway :
    ∃ t t' : Tween Rat (Point Rat),
      t = (between ⟨0, 10⟩ ⟨8, 2⟩ (.ofNanos 4)).withEasing .cubicInOut ∧
      t' = t.turn ⟨[.ofNanos 1, .zero, .ofNanos 1], ⟨0, 0⟩, .zero⟩ ∧
      t.GoesItsWay ⟨0, 10⟩ ⟨8, 2⟩ (.ofNanos 4) ∧ t'.GoesItsWay ⟨4, 6⟩ ⟨0, 0⟩ .zero := by
  have halfway : (((between ⟨0, 10⟩ ⟨8, 2⟩ (.ofNanos 4)).withEasing .cubicInOut).advanceAll
      [.ofNanos 1, .zero, .ofNanos 1]).current = (⟨4, 6⟩ : Point Rat) := by decide +kernel
  obtain ⟨goes, turned⟩ := goesItsWay_turnAll (Or.inr rfl) (⟨0, 10⟩ : Point Rat) ⟨8, 2⟩ (.ofNanos 4)
  have after := turned [] ⟨[.ofNanos 1, .zero, .ofNanos 1], ⟨0, 0⟩, .zero⟩
  exact ⟨_, _, rfl, rfl, goes, halfway ▸ after⟩

end Tween

end TidyTree
