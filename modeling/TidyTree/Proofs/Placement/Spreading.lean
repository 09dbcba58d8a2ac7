import TidyTree.Proofs.Placement.Levels

set_option autoImplicit false
set_option relaxedAutoImplicit false

namespace TidyTree.Placement

variable {γ : Type}

/-- The way that the child at a place still has to take; none where there is no child. -/
def way (row : List (Slot γ Rat)) (place : Nat) : Rat := ((ways row)[place]?).getD 0

/-- What the child at a place takes of the move of another one away from a blocker. -/
def portion (blocker mover : Nat) (distance : Rat) (place : Nat) : Rat :=
  if blocker < place ∧ place < mover then
    distance * ((place : Rat) - blocker) / ((mover : Rat) - blocker)
  else 0

@[simp] theorem length_ways {α : Type} [Scalar α] (row : List (Slot γ α)) :
    (ways row).length = row.length := by
  induction row with
  | nil => rfl
  | cons s row ih => simpa [ways, spread] using ih

theorem way_of_length_le {row : List (Slot γ Rat)} {place : Nat} (h : row.length ≤ place) :
    way row place = 0 := by
  have none : (ways row)[place]? = none := List.getElem?_eq_none (by simpa using h)
  simp [way, none]

theorem way_cons_zero (s : Slot γ Rat) (row : List (Slot γ Rat)) :
    way (s :: row) 0 = (spread row).2.1 := rfl

theorem way_cons_succ (s : Slot γ Rat) (row : List (Slot γ Rat)) (place : Nat) :
    way (s :: row) (place + 1) = way row place := rfl

private theorem spread_modify (f : Slot γ Rat → Slot γ Rat) (shift change : Rat)
    (hshift : ∀ s, (f s).shift = s.shift + shift) (hchange : ∀ s, (f s).change = s.change + change)
    (row : List (Slot γ Rat)) {place : Nat} (h : place < row.length) :
    (spread (row.modify place f)).2.1 = (spread row).2.1 + shift + ((place : Rat) + 1) * change ∧
      (spread (row.modify place f)).2.2 = (spread row).2.2 + change := by
  induction row generalizing place with
  | nil => simp at h
  | cons s row ih =>
    cases place with
    | zero =>
      simp only [List.modify_zero_cons, spread, hshift, hchange, Nat.cast_zero]
      constructor <;> ring
    | succ place =>
      have hrow : place < row.length := by simpa using h
      obtain ⟨first, second⟩ := ih hrow
      simp only [List.modify_succ_cons, spread, first, second, Nat.cast_add, Nat.cast_one]
      constructor <;> ring

private theorem way_modify (f : Slot γ Rat → Slot γ Rat) (shift change : Rat)
    (hshift : ∀ s, (f s).shift = s.shift + shift) (hchange : ∀ s, (f s).change = s.change + change)
    (row : List (Slot γ Rat)) {place : Nat} (h : place < row.length) (i : Nat) :
    way (row.modify place f) i =
      way row i + if i < place then shift + ((place : Rat) - i) * change else 0 := by
  induction row generalizing place i with
  | nil => simp at h
  | cons s row ih =>
    cases place with
    | zero => cases i <;> simp [way_cons_zero, way_cons_succ]
    | succ place =>
      have hrow : place < row.length := by simpa using h
      cases i with
      | zero =>
        simp only [List.modify_succ_cons, way_cons_zero, Nat.zero_lt_succ, if_true]
        rw [(spread_modify f shift change hshift hchange row hrow).1]
        push_cast
        ring
      | succ i =>
        simp only [List.modify_succ_cons, way_cons_succ, Nat.succ_lt_succ_iff]
        rw [ih hrow i]
        push_cast
        split <;> ring

theorem way_move {row : List (Slot γ Rat)} {blocker mover : Nat} (hblocker : blocker < mover)
    (hmover : mover < row.length) (distance : Rat) (i : Nat) :
    way (move row blocker mover distance) i = way row i + portion blocker mover distance i := by
  have gap : ((mover - blocker : Nat) : Rat) = (mover : Rat) - blocker := by
    push_cast [hblocker.le]
    rfl
  have apart : (mover : Rat) - blocker ≠ 0 := by
    have lt : (blocker : Rat) < mover := by exact_mod_cast hblocker
    linarith
  have marked := way_modify (·.moved distance (distance / ((mover : Rat) - blocker))) distance
    (-(distance / ((mover : Rat) - blocker))) (fun _ => rfl) (fun _ => sub_eq_add_neg _ _) row
    hmover i
  unfold move
  rw [gap, way_modify (·.blocked (distance / ((mover : Rat) - blocker))) 0
    (distance / ((mover : Rat) - blocker)) (fun _ => (add_zero _).symm) (fun _ => rfl) _
    (by simpa using hblocker.trans hmover) i, marked, portion]
  rcases lt_trichotomy i blocker with left | rfl | right
  · simp only [left, left.trans hblocker, if_true, not_lt_of_gt left, false_and, if_false]
    field_simp
    ring
  · simp only [hblocker, lt_irrefl, if_true, if_false, false_and]
    field_simp
    ring
  · simp only [not_lt_of_gt right, right, true_and, if_false]
    split
    · field_simp
      ring
    · ring

theorem way_append {row : List (Slot γ Rat)} {s : Slot γ Rat} (hshift : s.shift = 0)
    (hchange : s.change = 0) (i : Nat) : way (row ++ [s]) i = way row i := by
  have spread_append : ∀ row : List (Slot γ Rat),
      (spread (row ++ [s])).2 = (spread row).2 := by
    intro row
    induction row with
    | nil => simp [spread, hshift, hchange]
    | cons t row ih => simp only [List.cons_append, spread, ih]
  induction row generalizing i with
  | nil => cases i <;> simp [way, ways, spread]
  | cons t row ih =>
    cases i with
    | zero => simp only [List.cons_append, way_cons_zero, spread_append]
    | succ i => simpa only [List.cons_append, way_cons_succ] using ih i

private theorem portion_nonneg (blocker mover : Nat) {distance : Rat} (h : 0 ≤ distance) (i : Nat) :
    0 ≤ portion blocker mover distance i := by
  unfold portion
  split
  · next inside =>
    have low : (blocker : Rat) < i := by exact_mod_cast inside.1
    have high : (i : Rat) < mover := by exact_mod_cast inside.2
    exact div_nonneg (mul_nonneg h (by linarith)) (by linarith)
  · exact le_rfl

theorem portion_le (blocker mover : Nat) {distance : Rat} (h : 0 ≤ distance) (i : Nat) :
    portion blocker mover distance i ≤ distance := by
  unfold portion
  split
  · next inside =>
    have low : (blocker : Rat) < i := by exact_mod_cast inside.1
    have high : (i : Rat) < mover := by exact_mod_cast inside.2
    rw [div_le_iff₀ (by linarith)]
    exact mul_le_mul_of_nonneg_left (by linarith) h
  · exact h

theorem portion_mono (blocker mover : Nat) {distance : Rat} (h : 0 ≤ distance) {i j : Nat}
    (hij : i ≤ j) (hj : j < mover) :
    portion blocker mover distance i ≤ portion blocker mover distance j := by
  by_cases hi : blocker < i
  · have le : (i : Rat) ≤ j := by exact_mod_cast hij
    have low : (blocker : Rat) < i := by exact_mod_cast hi
    have high : (j : Rat) < mover := by exact_mod_cast hj
    simp only [portion, hi, hi.trans_le hij, hij.trans_lt hj, hj, and_self, if_true]
    gcongr
    linarith
  · simpa [portion, hi] using portion_nonneg blocker mover h j

theorem portion_of_le {blocker i : Nat} (h : i ≤ blocker) (mover : Nat) (distance : Rat) :
    portion blocker mover distance i = 0 := by
  simp [portion, not_lt_of_ge h]

theorem portion_of_mover_le {mover i : Nat} (h : mover ≤ i) (blocker : Nat) (distance : Rat) :
    portion blocker mover distance i = 0 := by
  simp [portion, not_lt_of_ge h]

theorem getElem?_settle (row : List (Slot γ Rat)) (i : Nat) :
    (settle row)[i]? = (row[i]?).map (·.settled (way row i)) := by
  simp only [settle, way, List.getElem?_zipWith]
  cases hslot : row[i]? with
  | none => simp
  | some s =>
    have inside : i < (ways row).length := by
      simpa using (List.getElem?_eq_some_iff.mp hslot).1
    simp [List.getElem?_eq_getElem inside]

end TidyTree.Placement
