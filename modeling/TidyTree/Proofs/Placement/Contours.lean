import TidyTree.Proofs.Placement.Levels

set_option autoImplicit false
set_option relaxedAutoImplicit false

/-!
# Walking down contours

A contour is traced by adding up the offsets on the way. The walk between two neighbours stops at the
last level that both have, and leaves every pair of nodes that it met apart, once the right neighbour
has made all the moves that it was given there.
-/

namespace TidyTree.Placement

variable {ν : Type}

/-- Where the nodes of a contour lie when the offsets above it add up to `base`. -/
def trace (base : Rat) : List (Knot ν Rat) → List (ν × Rat)
  | [] => []
  | k :: ks => (k.label, k.coordinate + base) :: trace (base + k.offset) ks

def drift (ks : List (Knot ν Rat)) : Rat := (ks.map (·.offset)).sum

/-- Where the nodes of a contour lie, each with the place of its subtree in the row. -/
def ownedTrace (base : Rat) (ks : List (Nat × Knot ν Rat)) : List (Nat × ν × Rat) :=
  (ks.map (·.1)).zip (trace base (ks.map (·.2)))

@[simp] theorem drift_nil : drift ([] : List (Knot ν Rat)) = 0 := rfl

@[simp] theorem drift_cons (k : Knot ν Rat) (ks : List (Knot ν Rat)) :
    drift (k :: ks) = k.offset + drift ks := by
  simp [drift]

@[simp] theorem length_trace (base : Rat) (ks : List (Knot ν Rat)) :
    (trace base ks).length = ks.length := by
  induction ks generalizing base with
  | nil => rfl
  | cons k ks ih => simp [trace, ih]

private theorem trace_append (base : Rat) (ks ls : List (Knot ν Rat)) :
    trace base (ks ++ ls) = trace base ks ++ trace (base + drift ks) ls := by
  induction ks generalizing base with
  | nil => simp [trace]
  | cons k ks ih => simp [trace, ih, add_assoc]

private theorem trace_add (base way : Rat) (ks : List (Knot ν Rat)) :
    trace (base + way) ks = (trace base ks).map (shiftBy way) := by
  induction ks generalizing base with
  | nil => rfl
  | cons k ks ih =>
    rw [trace, show base + way + k.offset = base + k.offset + way by ring, ih, ← add_assoc]
    rfl

theorem trace_eq_shift (base : Rat) (ks : List (Knot ν Rat)) :
    trace base ks = (trace 0 ks).map (shiftBy base) := by
  rw [← trace_add, zero_add]

private theorem drop_trace (base : Rat) (ks : List (Knot ν Rat)) (n : Nat) :
    trace (base + drift (ks.take n)) (ks.drop n) = (trace base ks).drop n := by
  induction ks generalizing base n with
  | nil => simp [trace]
  | cons k ks ih =>
    cases n with
    | zero => simp
    | succ n => simp [trace, ← ih, add_assoc]

@[simp] theorem length_ownedTrace (base : Rat) (ks : List (Nat × Knot ν Rat)) :
    (ownedTrace base ks).length = ks.length := by
  simp [ownedTrace]

@[simp] theorem ownedTrace_cons (base : Rat) (k : Nat × Knot ν Rat) (ks : List (Nat × Knot ν Rat)) :
    ownedTrace base (k :: ks) =
      (k.1, k.2.label, k.2.coordinate + base) :: ownedTrace (base + k.2.offset) ks := rfl

private theorem ownedTrace_append (base : Rat) (ks ls : List (Nat × Knot ν Rat)) :
    ownedTrace base (ks ++ ls) =
      ownedTrace base ks ++ ownedTrace (base + drift (ks.map (·.2))) ls := by
  simp only [ownedTrace, List.map_append, trace_append]
  exact List.zip_append (by simp)

theorem ownedTrace_map (base : Rat) (place : Nat) (ks : List (Knot ν Rat)) :
    ownedTrace base (ks.map (place, ·)) = (trace base ks).map (place, ·) := by
  induction ks generalizing base with
  | nil => rfl
  | cons k ks ih => simp [trace, ih]

private theorem drop_ownedTrace (base : Rat) (ks : List (Nat × Knot ν Rat)) (n : Nat) :
    ownedTrace (base + drift ((ks.take n).map (·.2))) (ks.drop n) =
      (ownedTrace base ks).drop n := by
  induction ks generalizing base n with
  | nil => simp [ownedTrace]
  | cons k ks ih =>
    cases n with
    | zero => simp
    | succ n => simp [← ih, add_assoc]

theorem ownedTrace_snd (base : Rat) (ks : List (Nat × Knot ν Rat)) :
    (ownedTrace base ks).map (·.2) = trace base (ks.map (·.2)) := by
  simp only [ownedTrace]
  exact List.map_snd_zip (by simp)

theorem ownedTrace_fst (base : Rat) (ks : List (Nat × Knot ν Rat)) :
    (ownedTrace base ks).map (·.1) = ks.map (·.1) := by
  simp only [ownedTrace]
  exact List.map_fst_zip (by simp)

private theorem trace_correctLast (base correction : Rat) (ks : List (Knot ν Rat)) :
    trace base (correctLast correction ks) = trace base ks := by
  induction ks generalizing base with
  | nil => rfl
  | cons k ks ih =>
    cases ks with
    | nil => rfl
    | cons l ks =>
      simp only [correctLast, trace] at ih ⊢
      rw [ih]

private theorem drift_correctLast (correction : Rat) {ks : List (Knot ν Rat)} (h : ks ≠ []) :
    drift (correctLast correction ks) = drift ks + correction := by
  induction ks with
  | nil => exact absurd rfl h
  | cons k ks ih =>
    cases ks with
    | nil => simp [correctLast]
    | cons l ks =>
      have below := ih (List.cons_ne_nil l ks)
      simp only [correctLast, drift_cons] at below ⊢
      rw [below]
      ring

/-- A contour that goes over to the rest of another one, behind its first `n` nodes: the correction
makes up for the offsets that are not passed. -/
theorem trace_goOver {ks : List (Knot ν Rat)} (h : ks ≠ []) (base : Rat) (ls : List (Knot ν Rat))
    (n : Nat) :
    trace 0 (correctLast (base + drift (ls.take n) - drift ks) ks ++ ls.drop n) =
      trace 0 ks ++ (trace base ls).drop n := by
  rw [trace_append, trace_correctLast, drift_correctLast _ h, ← drop_trace]
  congr 2
  ring

theorem ownedTrace_goOver {ks : List (Knot ν Rat)} (h : ks ≠ []) (place : Nat) (base : Rat)
    (ls : List (Nat × Knot ν Rat)) (n : Nat) :
    ownedTrace 0 ((correctLast (base + drift ((ls.take n).map (·.2)) - drift ks) ks).map (place, ·) ++
      ls.drop n) = (trace 0 ks).map (place, ·) ++ (ownedTrace base ls).drop n := by
  rw [ownedTrace_append, ownedTrace_map, trace_correctLast, List.map_map,
    show (Prod.snd ∘ fun k : Knot ν Rat => (place, k)) = id from rfl, List.map_id,
    drift_correctLast _ h, ← drop_ownedTrace]
  congr 2
  ring

def total (moves : List (Nat × Rat)) : Rat := (moves.map (·.2)).sum

/-- The sum of the moves away from a place and from those right of it. -/
def pushedFrom (place : Nat) (moves : List (Nat × Rat)) : Rat :=
  total (moves.filter fun m => place ≤ m.1)

@[simp] theorem total_nil : total [] = 0 := rfl

@[simp] theorem total_cons (m : Nat × Rat) (moves : List (Nat × Rat)) :
    total (m :: moves) = m.2 + total moves := by
  simp [total]

theorem pushedFrom_cons (place : Nat) (m : Nat × Rat) (moves : List (Nat × Rat)) :
    pushedFrom place (m :: moves) = (if place ≤ m.1 then m.2 else 0) + pushedFrom place moves := by
  by_cases h : place ≤ m.1 <;> simp [pushedFrom, h]

theorem pushedFrom_nonneg (place : Nat) {moves : List (Nat × Rat)} (h : ∀ m ∈ moves, 0 < m.2) :
    0 ≤ pushedFrom place moves := by
  induction moves with
  | nil => simp [pushedFrom]
  | cons m moves ih =>
    have first := h m List.mem_cons_self
    have rest := ih fun m hm => h m (List.mem_cons_of_mem _ hm)
    rw [pushedFrom_cons]
    split <;> linarith

private def withMove (owner : Nat) (distance : Rat) (moves : List (Nat × Rat)) : List (Nat × Rat) :=
  if 0 < distance then (owner, distance) :: moves else moves

private theorem total_withMove {distance : Rat} (h : 0 ≤ distance) (owner : Nat)
    (moves : List (Nat × Rat)) : total (withMove owner distance moves) = distance + total moves := by
  unfold withMove
  split
  · rw [total_cons]
  · next still => rw [le_antisymm (not_lt.mp still) h, zero_add]

private theorem pushedFrom_withMove {distance : Rat} (h : 0 ≤ distance) (owner place : Nat)
    (moves : List (Nat × Rat)) :
    pushedFrom place (withMove owner distance moves) =
      (if place ≤ owner then distance else 0) + pushedFrom place moves := by
  unfold withMove
  split
  · rw [pushedFrom_cons]
  · next still => simp [le_antisymm (not_lt.mp still) h]

private theorem mem_withMove {owner : Nat} {distance : Rat} {moves : List (Nat × Rat)}
    {m : Nat × Rat}
    (h : m ∈ withMove owner distance moves) :
    m = (owner, distance) ∧ 0 < distance ∨ m ∈ moves := by
  unfold withMove at h
  split at h
  · next far => exact (List.mem_cons.mp h).imp_left fun same => ⟨same, far⟩
  · exact Or.inr h

/-- What a walk down two pairs of contours comes to: the inner ones (`lis`, `ris`) are followed as far
as both go, together with the outer ones, and the nodes that were met are left apart. -/
structure Walk.Descends (separation : ν → ν → Rat) (s : Sums Rat) (lis : List (Nat × Knot ν Rat))
    (los ris ros : List (Knot ν Rat)) (w : Walk ν Rat) : Prop where
  leftRest : w.leftRest = lis.drop ris.length
  rightRest : w.rightRest = ris.drop lis.length
  leftInner : w.sums.leftInner = s.leftInner + drift ((lis.take ris.length).map (·.2))
  leftOuter : w.sums.leftOuter = s.leftOuter + drift (los.take ris.length)
  rightInner : w.sums.rightInner = s.rightInner + total w.moves + drift (ris.take lis.length)
  rightOuter : w.sums.rightOuter = s.rightOuter + total w.moves + drift (ros.take lis.length)
  positive : ∀ m ∈ w.moves, 0 < m.2
  /-- A move is away from the owner of a node on a level that both contours have. -/
  met : ∀ m ∈ w.moves, ∃ depth, depth < ris.length ∧ ∃ k, lis[depth]? = some (m.1, k)
  apart : (lis.map (·.1)).Pairwise (· ≥ ·) → ∀ (depth : Nat) (a : Nat × ν × Rat) (b : ν × Rat),
    (ownedTrace s.leftInner lis)[depth]? = some a → (trace s.rightInner ris)[depth]? = some b →
      IsApart separation a.2 (shiftBy (pushedFrom a.1 w.moves) b)

private theorem descends_step {separation : ν → ν → Rat} {s : Sums Rat} {owner : Nat}
    {li lo ri ro : Knot ν Rat} {lis : List (Nat × Knot ν Rat)} {los ris ros : List (Knot ν Rat)}
    {w : Walk ν Rat} {distance : Rat} (hdistance : 0 ≤ distance)
    (hoverlap : overlap separation s li ri ≤ distance)
    (h : Walk.Descends separation ((s.push distance).descend li lo ri ro) lis los ris ros w) :
    Walk.Descends separation s ((owner, li) :: lis) (lo :: los) (ri :: ris) (ro :: ros)
      { w with moves := withMove owner distance w.moves } := by
  refine ⟨h.leftRest, h.rightRest, ?_, ?_, ?_, ?_, ?_, ?_, ?_⟩
  · rw [h.leftInner]
    simp [Sums.descend, Sums.push, add_assoc]
  · rw [h.leftOuter]
    simp [Sums.descend, Sums.push, add_assoc]
  · rw [h.rightInner]
    simp only [Sums.descend, Sums.push, List.length_cons, List.take_succ_cons, drift_cons,
      total_withMove hdistance]
    ring
  · rw [h.rightOuter]
    simp only [Sums.descend, Sums.push, List.length_cons, List.take_succ_cons, drift_cons,
      total_withMove hdistance]
    ring
  · intro m hm
    rcases mem_withMove hm with ⟨rfl, pos⟩ | hm
    · exact pos
    · exact h.positive m hm
  · intro m hm
    rcases mem_withMove hm with ⟨rfl, -⟩ | hm
    · exact ⟨0, Nat.zero_lt_succ _, li, rfl⟩
    · obtain ⟨depth, hdepth, k, hk⟩ := h.met m hm
      exact ⟨depth + 1, Nat.succ_lt_succ hdepth, k, hk⟩
  · intro sorted depth a b ha hb
    obtain ⟨first, sorted⟩ := List.pairwise_cons.mp sorted
    cases depth with
    | zero =>
      obtain rfl : (owner, li.label, li.coordinate + s.leftInner) = a := by simpa using ha
      obtain rfl : (ri.label, ri.coordinate + s.rightInner) = b := by simpa [trace] using hb
      have rest := pushedFrom_nonneg owner h.positive
      simp only [overlap] at hoverlap
      simp only [IsApart, shiftBy_fst, shiftBy_snd, pushedFrom_withMove hdistance, le_refl, if_true]
      linarith
    | succ depth =>
      -- Further down the owners stand further left, so this level's push reaches all of them.
      have owned : (ownedTrace (s.leftInner + li.offset) lis)[depth]? = some a := by
        simpa using ha
      have further : a.1 ≤ owner := by
        have listed := List.mem_map_of_mem (f := Prod.fst) (List.mem_of_getElem? owned)
        rw [ownedTrace_fst] at listed
        exact first a.1 listed
      have pushed : (trace (s.rightInner + distance + ri.offset) ris)[depth]? =
          some (shiftBy distance b) := by
        have here : (trace (s.rightInner + ri.offset) ris)[depth]? = some b := by
          simpa [trace] using hb
        rw [add_right_comm, trace_add, List.getElem?_map, here]
        rfl
      have apart := h.apart sorted depth a (shiftBy distance b)
        (by simpa [Sums.descend, Sums.push] using owned) pushed
      rw [shiftBy_shiftBy] at apart
      simpa only [pushedFrom_withMove hdistance, further, if_true] using apart

/-- The walk down contours of which each outer one is as long as its inner one. -/
theorem walk_descends (separation : ν → ν → Rat) (s : Sums Rat) (lis : List (Nat × Knot ν Rat))
    (los ris ros : List (Knot ν Rat)) (hleft : lis.length = los.length)
    (hright : ris.length = ros.length) :
    Walk.Descends separation s lis los ris ros (walk separation s lis los ris ros) := by
  induction lis generalizing s los ris ros with
  | nil =>
    refine ⟨?_, ?_, ?_, ?_, ?_, ?_, ?_, ?_, ?_⟩ <;>
      simp [walk, ownedTrace, List.length_eq_zero_iff.mp hleft.symm]
  | cons first lis ih =>
    obtain ⟨owner, li⟩ := first
    cases ris with
    | nil =>
      refine ⟨?_, ?_, ?_, ?_, ?_, ?_, ?_, ?_, ?_⟩ <;>
        simp [walk, trace, List.length_eq_zero_iff.mp hright.symm]
    | cons ri ris =>
      obtain ⟨lo, los, rfl⟩ := List.exists_cons_of_length_eq_add_one hleft.symm
      obtain ⟨ro, ros, rfl⟩ := List.exists_cons_of_length_eq_add_one hright.symm
      have rest := fun s => ih s los ris ros (by simpa using hleft) (by simpa using hright)
      simp only [walk]
      split
      · next far =>
        have pushed : Walk.Descends separation s ((owner, li) :: lis) (lo :: los) (ri :: ris)
            (ro :: ros) _ := descends_step far.le le_rfl (rest _)
        rwa [withMove, if_pos far] at pushed
      · next near =>
        have left : Walk.Descends separation s ((owner, li) :: lis) (lo :: los) (ri :: ris)
            (ro :: ros) _ := descends_step le_rfl (not_lt.mp near) (rest _)
        simpa [withMove, Sums.push] using left

end TidyTree.Placement
