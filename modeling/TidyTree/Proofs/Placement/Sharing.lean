import TidyTree.Proofs.Placement.Numbering
import TidyTree.Proofs.Placement.Spreading
import TidyTree.Proofs.Placement.Tracing

set_option autoImplicit false
set_option relaxedAutoImplicit false

/-!
# Shares of pushes

Pushes of subtrees only mark the two children at their ends, and one walk over the children spreads
all of them. What each child gets is what it would get if every push were shared out at once: the
mover all of it, the children in between even shares, and nobody else anything. The walk and the
marks are linear, so it is enough that a single push adds the shares of that push.
-/

namespace TidyTree.Placement

variable {α : Type}

private def Cells.slot (cells : Cells α) (v : Nat) : Slot Nat α :=
  ⟨v, (cells v).coordinate, (cells v).offset, (cells v).change, (cells v).shift⟩

private def Cells.row (k : Kinship) (cells : Cells α) (v : Nat) : List (Slot Nat α) :=
  (k.children v).map cells.slot

/-- The places of the children of a node are their positions in its list. -/
private def Kinship.Numbers (k : Kinship) (v : Nat) : Prop :=
  ∀ i c, (k.children v)[i]? = some c → k.place c = i

/-- The subtree of `mover` is pushed away from that of `blocker`. -/
structure Push where
  blocker : Nat
  mover : Nat
  distance : Rat

namespace Push

/-- The ends are children of a node, the blocker further left. -/
def IsAmong (p : Push) (k : Kinship) (v : Nat) : Prop :=
  p.blocker ∈ k.children v ∧ p.mover ∈ k.children v ∧ k.place p.blocker < k.place p.mover

/-- What a child gets if the push is shared out at once. -/
def share (p : Push) (k : Kinship) (child : Nat) : Rat :=
  if child = p.mover then p.distance
  else portion (k.place p.blocker) (k.place p.mover) p.distance (k.place child)

def make (k : Kinship) (cells : Cells Rat) (p : Push) : Cells Rat :=
  cells.push k p.blocker p.mover p.distance

end Push

section Numbers

variable {k : Kinship} {v : Nat} (numbers : k.Numbers v)

include numbers

private theorem Kinship.Numbers.getElem?_place {c : Nat} (hc : c ∈ k.children v) :
    (k.children v)[k.place c]? = some c := by
  obtain ⟨i, hi⟩ := List.getElem?_of_mem hc
  rwa [numbers i c hi]

private theorem Kinship.Numbers.nodup : (k.children v).Nodup := by
  rw [List.nodup_iff_getElem?_ne_getElem?]
  intro i j before inside same
  have hj := List.getElem?_eq_getElem inside
  have := numbers i _ (same.trans hj)
  have := numbers j _ hj
  omega

private theorem Kinship.Numbers.place_inj {b c : Nat} (hb : b ∈ k.children v)
    (hc : c ∈ k.children v) :
    k.place b = k.place c ↔ b = c := by
  refine ⟨fun same => ?_, congrArg _⟩
  have hb := numbers.getElem?_place hb
  rw [same, numbers.getElem?_place hc] at hb
  exact (Option.some.inj hb).symm

end Numbers

section Rows

variable [Scalar α] {k : Kinship} {v : Nat} (numbers : k.Numbers v) (cells : Cells α)

include numbers

private theorem Cells.row_push {blocker mover : Nat} (hblocker : blocker ∈ k.children v)
    (hmover : mover ∈ k.children v) (apart : k.place blocker < k.place mover) (distance : α) :
    (cells.push k blocker mover distance).row k v =
      move (cells.row k v) (k.place blocker) (k.place mover) distance := by
  have gap : k.place mover - k.place blocker ≠ 0 := by omega
  have ends : blocker ≠ mover := by
    rintro rfl
    exact lt_irrefl _ apart
  apply List.ext_getElem?
  intro i
  simp only [move, row, List.getElem?_modify, List.getElem?_map]
  cases hc : (k.children v)[i]? with
  | none => rfl
  | some c =>
    have place := numbers i c hc
    have inRow := List.mem_of_getElem? hc
    have isBlocker := numbers.place_inj hblocker inRow
    have isMover := numbers.place_inj hmover inRow
    rw [place] at isBlocker isMover
    simp only [Option.map_some, isBlocker, isMover, Cells.push, gap, if_false]
    by_cases atBlocker : blocker = c
    · subst atBlocker
      simp [slot, Slot.blocked, ends, ends.symm, Cells.alter_of_ne]
    · by_cases atMover : mover = c
      · subst atMover
        simp [slot, Slot.moved, ends, ends.symm, Cells.alter_of_ne]
      · simp [slot, atBlocker, atMover, Cells.alter_of_ne _ _ (Ne.symm atBlocker),
          Cells.alter_of_ne _ _ (Ne.symm atMover)]

private theorem Cells.settleChildren_eq :
    (∀ u ∉ k.children v, cells.settleChildren k v u = cells u) ∧
      ∀ c ∈ k.children v, ∀ way, (ways (cells.row k v))[k.place c]? = some way →
        cells.settleChildren k v c =
          { cells c with
            coordinate := (cells c).coordinate + way
            offset := (cells c).offset + way } := by
  have contents : (cells.row k v).map (·.content) = k.children v := by
    simp [row, slot, Function.comp_def]
  obtain ⟨settled, folded, others, moved⟩ := foldr_settleChild id (cells.row k v)
    (by simpa [contents] using numbers.nodup) (by
      intro s hs
      obtain ⟨c, -, rfl⟩ := List.mem_map.mp hs
      exact ⟨rfl, rfl⟩)
  have same : cells.settleChildren k v = settled := by
    rw [settleChildren, ← contents]
    exact congrArg Prod.fst folded
  rw [same]
  refine ⟨fun u hu => others u (by simpa [contents] using hu), ?_⟩
  intro c hc way hway
  refine moved (k.place c) (cells.slot c) way ?_ hway
  rw [row, List.getElem?_map, numbers.getElem?_place hc, Option.map_some]

end Rows

private theorem numbers_ofChildren {ν : Type} (r : Rose ν) (v : Nat) :
    (Kinship.ofChildren r.childLists).Numbers v := by
  intro i c hc
  have fits := fits_ofChildren r
  have length : r.childLists.length = r.preorder.length := length_childLists r
  rcases lt_trichotomy v r.preorder.length with inside | rfl | outside
  · obtain ⟨t, ht, rfl⟩ : ∃ t ∈ (r.numberFrom 0).subtrees, t.label = v := by
      rw [← List.mem_map, Rose.map_label_subtrees, Rose.preorder_numberFrom, List.mem_range'_1]
      omega
    rw [fits.children t ht, Rose.childLabels, List.getElem?_map, Option.map_eq_some_iff] at hc
    obtain ⟨child, hchild, rfl⟩ := hc
    exact (fits.parent t ht i child hchild).2
  · obtain ⟨children, -, place⟩ := root_ofChildren r
    rw [children, List.getElem?_singleton] at hc
    split at hc
    · next first =>
      obtain rfl := Option.some.inj hc
      exact place.trans first.symm
    · exact absurd hc (Option.some_ne_none c).symm
  · have none : (r.childLists ++ [[0]])[v]? = none := by
      rw [List.getElem?_eq_none_iff, List.length_append, List.length_singleton]
      omega
    rw [children_ofChildren, List.getD_eq_getElem?_getD, none] at hc
    exact absurd hc (Option.some_ne_none c).symm

private theorem way_of_unmarked {γ : Type} {row : List (Slot γ Rat)}
    (unmarked : ∀ s ∈ row, s.change = 0 ∧ s.shift = 0) (place : Nat) : way row place = 0 := by
  have nothing : ∀ row : List (Slot γ Rat), (∀ s ∈ row, s.change = 0 ∧ s.shift = 0) →
      (spread row).2 = (0, 0) := by
    intro row unmarked
    induction row with
    | nil => rfl
    | cons s row ih =>
      obtain ⟨first, rest⟩ := List.forall_mem_cons.mp unmarked
      simp [spread, ih rest, first]
  induction row generalizing place with
  | nil => exact way_of_length_le (Nat.zero_le _)
  | cons s row ih =>
    have rest := (List.forall_mem_cons.mp unmarked).2
    cases place with
    | zero => rw [way_cons_zero, nothing row rest]
    | succ place => rw [way_cons_succ, ih rest]

/-- What the children of a node have gained, counting the ways that they still have to take. No
other node has changed. -/
structure Cells.Gains (k : Kinship) (v : Nat) (cells after : Cells Rat) (gain : Nat → Rat) :
    Prop where
  coordinate : ∀ c ∈ k.children v, (after c).coordinate + way (after.row k v) (k.place c) =
    (cells c).coordinate + way (cells.row k v) (k.place c) + gain c
  offset : ∀ c ∈ k.children v, (after c).offset + way (after.row k v) (k.place c) =
    (cells c).offset + way (cells.row k v) (k.place c) + gain c
  others : ∀ u ∉ k.children v, after u = cells u

section Gains

variable {k : Kinship} {v : Nat}

private theorem Cells.Gains.trans {cells between after : Cells Rat} {first second : Nat → Rat}
    (h : cells.Gains k v between first) (h' : between.Gains k v after second) :
    cells.Gains k v after fun c => first c + second c := by
  constructor
  · intro c hc
    rw [h'.coordinate c hc, h.coordinate c hc, add_assoc]
  · intro c hc
    rw [h'.offset c hc, h.offset c hc, add_assoc]
  · intro u hu
    rw [h'.others u hu, h.others u hu]

private theorem Push.field_make (field : Cell Rat → Rat)
    (kept : ∀ (c : Cell Rat) (change : Rat), field { c with change := change } = field c)
    (moved : ∀ (c : Cell Rat) (distance change shift : Rat), field
      { c with
        coordinate := c.coordinate + distance
        offset := c.offset + distance
        change := change
        shift := shift } = field c + distance) (cells : Cells Rat) (p : Push) (u : Nat) :
    field (p.make k cells u) = field (cells u) + if u = p.mover then p.distance else 0 := by
  refine (Cells.field_alter field (fun c => kept c _) _ _ _).trans ?_
  by_cases same : u = p.mover
  · rw [if_pos same, same, Cells.alter_self, moved]
  · rw [if_neg same, Cells.alter_of_ne _ _ same, add_zero]

variable (numbers : k.Numbers v) (cells : Cells Rat)

include numbers

private theorem Push.gains {p : Push} (among : p.IsAmong k v) :
    cells.Gains k v (p.make k cells) (p.share k) := by
  obtain ⟨hblocker, hmover, apart⟩ := among
  have inside : k.place p.mover < (cells.row k v).length := by
    rw [Cells.row, List.length_map]
    exact (List.getElem?_eq_some_iff.mp (numbers.getElem?_place hmover)).1
  have added (c : Nat) (hc : c ∈ k.children v) :
      way ((p.make k cells).row k v) (k.place c) + (if c = p.mover then p.distance else 0) =
        way (cells.row k v) (k.place c) + p.share k c := by
    rw [Push.make, Cells.row_push numbers _ hblocker hmover apart, way_move apart inside, share]
    split
    · next same => rw [same, portion_of_mover_le le_rfl, add_zero]
    · rw [add_zero]
  constructor
  · intro c hc
    rw [field_make Cell.coordinate (fun _ _ => rfl) (fun _ _ _ _ => rfl)]
    linarith [added c hc]
  · intro c hc
    rw [field_make Cell.offset (fun _ _ => rfl) (fun _ _ _ _ => rfl)]
    linarith [added c hc]
  · intro u hu
    have notBlocker : u ≠ p.blocker := fun same => hu (same ▸ hblocker)
    have notMover : u ≠ p.mover := fun same => hu (same ▸ hmover)
    rw [make, Cells.push, Cells.alter_of_ne _ _ notBlocker, Cells.alter_of_ne _ _ notMover]

private theorem Push.gains_foldl (pushes : List Push) (among : ∀ p ∈ pushes, p.IsAmong k v) :
    cells.Gains k v (pushes.foldl (Push.make k) cells) fun c => (pushes.map (·.share k c)).sum := by
  induction pushes generalizing cells with
  | nil => exact ⟨fun _ _ => (add_zero _).symm, fun _ _ => (add_zero _).symm, fun _ _ => rfl⟩
  | cons p pushes ih =>
    obtain ⟨first, rest⟩ := List.forall_mem_cons.mp among
    simpa using (Push.gains numbers cells first).trans (ih (p.make k cells) rest)

private theorem Cells.settleChildren_fields {c : Nat} (hc : c ∈ k.children v) :
    (cells.settleChildren k v c).coordinate =
        (cells c).coordinate + way (cells.row k v) (k.place c) ∧
      (cells.settleChildren k v c).offset =
        (cells c).offset + way (cells.row k v) (k.place c) := by
  have inside : k.place c < (ways (cells.row k v)).length := by
    rw [length_ways, row, List.length_map]
    exact (List.getElem?_eq_some_iff.mp (numbers.getElem?_place hc)).1
  have hway := List.getElem?_eq_getElem inside
  rw [(settleChildren_eq numbers cells).2 c hc _ hway, way, hway]
  exact ⟨rfl, rfl⟩

end Gains

/-- Spreading pushes later is sharing them out at once. For pushes among the children of a node that
has no marks yet, in any order, settling the children brings each of them to where the sum of its
shares takes it, and everything below it by as much. No other node is moved. -/
theorem settleChildren_foldl_make {ν : Type} (r : Rose ν) (v : Nat) (cells : Cells Rat)
    (pushes : List Push)
    (unmarked : ∀ c ∈ (Kinship.ofChildren r.childLists).children v,
      (cells c).change = 0 ∧ (cells c).shift = 0)
    (among : ∀ p ∈ pushes, p.IsAmong (Kinship.ofChildren r.childLists) v) :
    let k := Kinship.ofChildren r.childLists
    let settled := (pushes.foldl (Push.make k) cells).settleChildren k v
    (∀ c ∈ k.children v,
      (settled c).coordinate = (cells c).coordinate + (pushes.map (·.share k c)).sum ∧
        (settled c).offset = (cells c).offset + (pushes.map (·.share k c)).sum) ∧
      ∀ u ∉ k.children v, settled u = cells u := by
  intro k settled
  have numbers : k.Numbers v := numbers_ofChildren r v
  have gains := Push.gains_foldl numbers cells pushes among
  have still (i : Nat) : way (cells.row k v) i = 0 := by
    refine way_of_unmarked (fun s hs => ?_) i
    obtain ⟨c, hc, rfl⟩ := List.mem_map.mp hs
    exact unmarked c hc
  refine ⟨fun c hc => ?_, fun u hu => ?_⟩
  · obtain ⟨coordinate, offset⟩ :=
      Cells.settleChildren_fields numbers (pushes.foldl (Push.make k) cells) hc
    have byCoordinate := gains.coordinate c hc
    have byOffset := gains.offset c hc
    rw [still, add_zero] at byCoordinate byOffset
    exact ⟨coordinate.trans byCoordinate, offset.trans byOffset⟩
  · exact ((Cells.settleChildren_eq numbers _).1 u hu).trans (gains.others u hu)

/-- A root above four leaves. -/
def broad : Rose Unit := .mk () [.mk () [], .mk () [], .mk () [], .mk () []]

/-- Three pushes among the leaves, nested and overlapping, one of them to the left. -/
def overlapping : List Push := [⟨1, 4, 3⟩, ⟨1, 3, 6⟩, ⟨2, 4, -1⟩]

/-- The third leaf gets two thirds of the first push, all of the second and half of the third. -/
theorem settleChildren_foldl_make_overlapping :
    let k := Kinship.ofChildren broad.childLists
    (∀ c ∈ k.children 0, ((Cells.start : Cells Rat) c).change = 0 ∧
      ((Cells.start : Cells Rat) c).shift = 0) ∧
    (∀ p ∈ overlapping, p.IsAmong k 0) ∧
    [1, 2, 3, 4].map (fun c => ((overlapping.foldl (Push.make k) .start).settleChildren k 0
      c).coordinate) = [0, 4, 15 / 2, 2] := by
  intro k
  have children : k.children 0 = [1, 2, 3, 4] := by decide
  have places : k.place 1 = 0 ∧ k.place 2 = 1 ∧ k.place 3 = 2 ∧ k.place 4 = 3 := by decide
  have unmarked : ∀ c ∈ k.children 0, ((Cells.start : Cells Rat) c).change = 0 ∧
      ((Cells.start : Cells Rat) c).shift = 0 := fun _ _ => ⟨rfl, rfl⟩
  have among : ∀ p ∈ overlapping, p.IsAmong k 0 := by
    simp [overlapping, Push.IsAmong, children, places]
  have coordinate : ∀ c ∈ [1, 2, 3, 4],
      ((overlapping.foldl (Push.make k) .start).settleChildren k 0 c).coordinate =
        (overlapping.map (·.share k c)).sum := by
    intro c hc
    rw [← children] at hc
    have moved := (settleChildren_foldl_make broad 0 .start overlapping unmarked among).1 c hc
    rw [moved.1]
    exact zero_add _
  refine ⟨unmarked, among, ?_⟩
  simp only [List.map_cons, List.map_nil]
  rw [coordinate 1 (by decide), coordinate 2 (by decide), coordinate 3 (by decide),
    coordinate 4 (by decide)]
  simp [overlapping, Push.share, portion, places]
  norm_num

end TidyTree.Placement
