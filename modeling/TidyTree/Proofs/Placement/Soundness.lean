import TidyTree.Proofs.Placement.Rows

set_option autoImplicit false
set_option relaxedAutoImplicit false

/-!
# Neighbours are apart

What holds of a drawn subtree and of a row of them while subtrees are set beside each other: the
contours are the edges of the levels, neighbours on a level are apart once the marks are spread, and
a child with a way to go is in a shadow. The first gives the tests that the walk makes their meaning,
the last keeps them true until the marks are spread.
-/

namespace TidyTree.Placement

variable {ν : Type}

def Block.pictures (b : Block ν Rat) : List (Rose (ν × Rat)) := Draft.placeAll 0 b.children

def Forest.pictures (f : Forest ν Rat) : List (Rose (ν × Rat)) := f.row.map Slot.picture

/-- A subtree that is drawn well: its contours are the edges of its levels, neighbours are apart,
and its middle is that of its first and last child. -/
structure Block.IsSound (separation : ν → ν → Rat) (b : Block ν Rat) : Prop where
  left : ∀ depth, (trace 0 b.left)[depth]? = (Rose.levelAll b.pictures depth).head?
  right : ∀ depth, (trace 0 b.right)[depth]? = (Rose.levelAll b.pictures depth).getLast?
  apart : ∀ depth, (Rose.levelAll b.pictures depth).IsChain (IsApart separation)
  centred : ∀ r ∈ b.pictures, r.IsCentred
  middle : ∀ first ∈ b.pictures.head?, ∀ last ∈ b.pictures.getLast?,
    b.middle = some ((first.label.2 + last.label.2) / 2)

/-- A row of subtrees that is drawn well but for the marks that still have to be spread. -/
structure Forest.IsSound (separation : ν → ν → Rat) (f : Forest ν Rat) : Prop where
  left : ∀ depth, (trace 0 f.left)[depth]? = ((nodesAt f.pictures depth).map (·.2)).head?
  right : ∀ depth, (ownedTrace 0 f.right)[depth]? = (nodesAt f.pictures depth).getLast?
  apart : ∀ depth,
    ((nodesAt f.pictures depth).map (settledAt (way f.row))).IsChain (IsApart separation)
  shadowed : ∀ place, way f.row place ≠ 0 → IsShadowed f.pictures place
  blocks : ∀ site ∈ f.row.map Slot.site, site.1.IsSound separation ∧
    ∀ middle ∈ site.1.middle, site.2.1 = middle + site.2.2

variable {separation : ν → ν → Rat}

theorem length_eq_of_isSome {β γ : Type} {l : List β} {m : List γ}
    (h : ∀ i : Nat, l[i]?.isSome = m[i]?.isSome) : l.length = m.length := by
  apply le_antisymm
  · by_contra longer
    have := h m.length
    simp [not_le.mp longer] at this
  · by_contra longer
    have := h l.length
    simp [not_le.mp longer] at this

theorem isSome_head?_eq {β : Type} (l : List β) : l.head?.isSome = l.getLast?.isSome := by
  cases l <;> simp

theorem Block.IsSound.length_left {b : Block ν Rat} (h : b.IsSound separation) :
    b.left.length = b.right.length := by
  have same : (trace 0 b.left).length = (trace 0 b.right).length := by
    apply length_eq_of_isSome
    intro depth
    rw [h.left, h.right, isSome_head?_eq]
  simpa using same

theorem Forest.IsSound.length_left {f : Forest ν Rat} (h : f.IsSound separation) :
    f.left.length = f.right.length := by
  have same : (trace 0 f.left).length = (ownedTrace 0 f.right).length := by
    apply length_eq_of_isSome
    intro depth
    rw [h.left, h.right, isSome_head?_eq, List.getLast?_map, Option.isSome_map]
  simpa using same

theorem Forest.IsSound.way_getLast? {f : Forest ν Rat} (h : f.IsSound separation) {depth : Nat}
    {a : Nat × ν × Rat} (ha : (nodesAt f.pictures depth).getLast? = some a) : way f.row a.1 = 0 := by
  by_contra moves
  exact not_isShadowed_of_getLast? ha (h.shadowed _ moves)

theorem Forest.IsSound.way_head? {f : Forest ν Rat} (h : f.IsSound separation) {depth : Nat}
    {a : Nat × ν × Rat} (ha : (nodesAt f.pictures depth).head? = some a) : way f.row a.1 = 0 := by
  by_contra moves
  exact not_isShadowed_of_head? ha (h.shadowed _ moves)

theorem Forest.IsSound.owners_descend {f : Forest ν Rat} (h : f.IsSound separation) :
    (f.right.map (·.1)).Pairwise (· ≥ ·) := by
  rw [← ownedTrace_fst 0, List.pairwise_map, List.pairwise_iff_getElem]
  intro i j hi hj hij
  have upper := h.right i
  have lower := h.right j
  rw [List.getElem?_eq_getElem hi] at upper
  rw [List.getElem?_eq_getElem hj] at lower
  exact getLast?_place_anti hij.le (List.mem_of_getLast? lower.symm) upper.symm

/-! ### The levels of a child -/

theorem Slot.level_picture_zero (s : Slot (Block ν Rat) Rat) :
    s.picture.level 0 = [(s.content.label, s.coordinate)] := by
  rw [Slot.picture_eq, Rose.level_zero]
  rfl

private theorem Slot.level_picture_succ (s : Slot (Block ν Rat) Rat) (depth : Nat) :
    s.picture.level (depth + 1) =
      (Rose.levelAll s.content.pictures depth).map (shiftBy s.offset) := by
  rw [Slot.picture_eq, Rose.level_succ, Rose.children, Rose.levelAll_map]
  rfl

theorem Slot.trace_left {s : Slot (Block ν Rat) Rat} (h : s.content.IsSound separation)
    (depth : Nat) :
    (trace 0 (s.knot :: s.content.left))[depth]? = (s.picture.level depth).head? := by
  cases depth with
  | zero => simp [Slot.level_picture_zero, trace, Slot.knot]
  | succ depth =>
    rw [Slot.level_picture_succ, List.head?_map, ← h.left depth, ← List.getElem?_map,
      ← trace_eq_shift, trace, List.getElem?_cons_succ, zero_add]
    rfl

theorem Slot.trace_right {s : Slot (Block ν Rat) Rat} (h : s.content.IsSound separation)
    (depth : Nat) :
    (trace 0 (s.knot :: s.content.right))[depth]? = (s.picture.level depth).getLast? := by
  cases depth with
  | zero => simp [Slot.level_picture_zero, trace, Slot.knot]
  | succ depth =>
    rw [Slot.level_picture_succ, List.getLast?_map, ← h.right depth, ← List.getElem?_map,
      ← trace_eq_shift, trace, List.getElem?_cons_succ, zero_add]
    rfl

theorem Slot.apart_picture {s : Slot (Block ν Rat) Rat} (h : s.content.IsSound separation)
    (depth : Nat) : (s.picture.level depth).IsChain (IsApart separation) := by
  cases depth with
  | zero => simp [Slot.level_picture_zero]
  | succ depth =>
    rw [Slot.level_picture_succ, isChain_map_shift]
    exact h.apart depth

theorem Slot.isCentred_picture {s : Slot (Block ν Rat) Rat} (h : s.content.IsSound separation)
    (hs : s.IsCentred) : s.picture.IsCentred := by
  rw [Slot.picture_eq]
  apply Rose.isCentred_mk
  · intro first hfirst last hlast
    simp only [Rose.children_mk, List.head?_map, List.getLast?_map, Option.mem_def,
      Option.map_eq_some_iff] at hfirst hlast
    obtain ⟨first, hfirst, rfl⟩ := hfirst
    obtain ⟨last, hlast, rfl⟩ := hlast
    have stands := hs _ (h.middle first hfirst last hlast)
    simp only [Rose.label_mk, Rose.label_map, shiftBy_snd]
    rw [stands]
    ring
  · intro r hr
    obtain ⟨u, hu, rfl⟩ := List.mem_map.mp hr
    exact isCentred_shift _ (h.centred u hu)

/-! ### Entering a row -/

@[simp] theorem Forest.shift_enter (f : Forest ν Rat) (b : Block ν Rat) :
    (f.enter separation b).shift = 0 := by
  unfold Forest.enter
  split <;> rfl

@[simp] theorem Forest.change_enter (f : Forest ν Rat) (b : Block ν Rat) :
    (f.enter separation b).change = 0 := by
  unfold Forest.enter
  split <;> rfl

theorem Forest.isCentred_enter (f : Forest ν Rat) (b : Block ν Rat) :
    (f.enter separation b).IsCentred := by
  unfold Forest.enter
  split
  · intro middle hmiddle
    have same : b.middle = some middle := hmiddle
    simp [same]
  · intro middle hmiddle
    have same : b.middle = some middle := hmiddle
    simp [same]

theorem Forest.coordinate_enter {f : Forest ν Rat} {s : Slot (Block ν Rat) Rat}
    (hs : f.row.getLast? = some s) (b : Block ν Rat) :
    (f.enter separation b).coordinate = s.coordinate + separation s.content.label b.label := by
  unfold Forest.enter
  simp [hs]

theorem Forest.meet_descends {f : Forest ν Rat} {s : Slot (Block ν Rat) Rat} {lk : Knot ν Rat}
    {lks : List (Knot ν Rat)} {rk : Nat × Knot ν Rat} {rks : List (Nat × Knot ν Rat)}
    (hf : f.IsSound separation) (hs : s.content.IsSound separation) (hleft : f.left = lk :: lks)
    (hright : f.right = rk :: rks) :
    Walk.Descends separation ⟨rk.2.offset, lk.offset, s.offset, s.offset⟩ rks lks s.content.left
      s.content.right (f.meet separation s) := by
  have same := hf.length_left
  rw [hleft, hright] at same
  have walked := walk_descends separation ⟨rk.2.offset, lk.offset, s.offset, s.offset⟩ rks lks
    s.content.left s.content.right (by simpa using same.symm) hs.length_left
  simpa [Forest.meet, hleft, hright] using walked

theorem head?_over {β : Type} {A B : Nat → List β} {T U : List β}
    (hT : ∀ k, T[k]? = (A k).head?) (hU : ∀ k, U[k]? = (B k).head?) (k : Nat) :
    (T ++ U.drop T.length)[k]? = (A k ++ B k).head? := by
  rcases lt_or_ge k T.length with inside | outside
  · rw [List.getElem?_append_left inside, List.head?_append, ← hT k]
    simp [inside]
  · have none : (A k).head? = none := by rw [← hT k, List.getElem?_eq_none outside]
    rw [List.getElem?_append_right outside, List.getElem?_drop, Nat.add_sub_cancel' outside,
      List.head?_append, none, hU k, Option.none_or]

theorem getLast?_over {β : Type} {A B : Nat → List β} {T U : List β}
    (hT : ∀ k, T[k]? = (A k).getLast?) (hU : ∀ k, U[k]? = (B k).getLast?) (k : Nat) :
    (U ++ T.drop U.length)[k]? = (A k ++ B k).getLast? := by
  rcases lt_or_ge k U.length with inside | outside
  · rw [List.getElem?_append_left inside, List.getLast?_append, ← hU k]
    simp [inside]
  · have none : (B k).getLast? = none := by rw [← hU k, List.getElem?_eq_none outside]
    rw [List.getElem?_append_right outside, List.getElem?_drop, Nat.add_sub_cancel' outside,
      List.getLast?_append, none, hT k, Option.none_or]

end TidyTree.Placement
