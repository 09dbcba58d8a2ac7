import TidyTree.Proofs.Placement.Separation

set_option autoImplicit false
set_option relaxedAutoImplicit false

namespace TidyTree.Placement

variable {ν : Type} {separation : ν → ν → Rat}

theorem Block.pictures_under (f : Forest ν Rat) (label : ν) :
    (f.under label).pictures = (settle f.row).map Slot.picture := by
  simp only [Block.pictures, Forest.under, placeAll_eq_map, List.map_map]
  rfl

private theorem shiftHead_zero {way : Option Rat} (h : ∀ w ∈ way, w = 0)
    (contour : List (Knot ν Rat)) : shiftHead way contour = contour := by
  unfold shiftHead
  split
  · next w k ks => simp [h w rfl]
  · rfl

theorem mem_settle {row : List (Slot (Block ν Rat) Rat)} {s : Slot (Block ν Rat) Rat}
    (h : s ∈ settle row) : ∃ t ∈ row, ∃ w, s = t.settled w := by
  obtain ⟨i, hi⟩ := List.getElem?_of_mem h
  rw [getElem?_settle, Option.map_eq_some_iff] at hi
  obtain ⟨t, ht, rfl⟩ := hi
  exact ⟨t, List.mem_of_getElem? ht, _, rfl⟩

private theorem Forest.IsSound.ways_ends {f : Forest ν Rat} (h : f.IsSound separation) :
    (∀ w ∈ (ways f.row).head?, w = 0) ∧ ∀ w ∈ (ways f.row).getLast?, w = 0 := by
  constructor
  · intro w hw
    have first : way f.row 0 = w := by
      rw [way, ← List.head?_eq_getElem?, Option.mem_def.mp hw, Option.getD_some]
    cases hrow : f.row with
    | nil => simp [hrow, ways, spread] at hw
    | cons s row =>
      have top : (nodesAt f.pictures 0).head? = some (0, s.content.label, s.coordinate) := by
        simp [Forest.pictures, hrow, nodesAt, Slot.level_picture_zero]
      rw [← first]
      exact h.way_head? top
  · intro w hw
    obtain ⟨front, hfront⟩ := List.getLast?_eq_some_iff.mp hw
    have length : front.length + 1 = f.row.length := by
      rw [← length_ways f.row, hfront, List.length_append, List.length_singleton]
    have last : way f.row (f.row.length - 1) = w := by
      rw [way, hfront, ← length]
      simp
    have hne : f.row ≠ [] := List.length_pos_iff.mp (length ▸ Nat.succ_pos _)
    rw [← last]
    exact h.way_getLast? (f.getLast?_nodesAt_zero (List.getLast?_eq_getLast_of_ne_nil hne))

private theorem Forest.IsSound.under {f : Forest ν Rat} (h : f.IsSound separation) (label : ν) :
    (f.under label).IsSound separation := by
  have levels : ∀ depth, Rose.levelAll (f.under label).pictures depth =
      (nodesAt f.pictures depth).map (settledAt (way f.row)) := by
    intro depth
    rw [Block.pictures_under, levelAll_settle]
    rfl
  refine ⟨?_, ?_, ?_, ?_, ?_⟩
  · intro depth
    rw [levels, show (f.under label).left = f.left from shiftHead_zero h.ways_ends.1 f.left, h.left]
    simp only [List.head?_map]
    cases hd : (nodesAt f.pictures depth).head? with
    | none => rfl
    | some a => simp [settledAt, h.way_head? hd]
  · intro depth
    rw [levels, show (f.under label).right = f.right.map (·.2) from
      shiftHead_zero h.ways_ends.2 _, ← ownedTrace_snd, List.getElem?_map, h.right,
      List.getLast?_map]
    cases hd : (nodesAt f.pictures depth).getLast? with
    | none => rfl
    | some a => simp [settledAt, h.way_getLast? hd]
  · intro depth
    exact levels depth ▸ h.apart depth
  · intro r hr
    rw [Block.pictures_under] at hr
    obtain ⟨s, hs, rfl⟩ := List.mem_map.mp hr
    obtain ⟨t, ht, w, rfl⟩ := mem_settle hs
    obtain ⟨sound, stands⟩ := h.blocks t.site (List.mem_map_of_mem ht)
    rw [Slot.picture_settled]
    exact isCentred_shift w (Slot.isCentred_picture sound stands)
  · intro first hfirst last hlast
    simp only [Block.pictures_under, List.head?_map, List.getLast?_map, Option.mem_def,
      Option.map_eq_some_iff] at hfirst hlast
    obtain ⟨s, hs, rfl⟩ := hfirst
    obtain ⟨t, ht, rfl⟩ := hlast
    simp [Forest.under, hs, ht, Slot.picture_eq]

mutual

theorem isSound_block (separation : ν → ν → Rat) :
    ∀ r : Rose ν, (block separation r).IsSound separation
  | .mk label children =>
    (isSound_forest separation .empty Forest.isSound_empty children).under label

theorem isSound_forest (separation : ν → ν → Rat) (f : Forest ν Rat) (hf : f.IsSound separation) :
    ∀ rs : List (Rose ν), (forest separation f rs).IsSound separation
  | [] => hf
  | r :: rs => isSound_forest separation _ (hf.append (isSound_block separation r)) rs

end

/-- The root of a tidy drawing as the only child of a row. -/
theorem tidy_eq (separation : ν → ν → Rat) (r : Rose ν) :
    tidy separation r =
      (Forest.empty.enter separation (block separation r)).picture.map
        (shiftBy (-(Forest.empty.enter separation (block separation r)).coordinate)) := by
  rw [Slot.picture, ← place_add, zero_add]
  rfl

private theorem isSound_content (separation : ν → ν → Rat) (r : Rose ν) :
    (Forest.empty.enter separation (block separation r)).content.IsSound separation := by
  rw [Forest.content_enter]
  exact isSound_block separation r

theorem label_tidy (separation : ν → ν → Rat) (r : Rose ν) : (tidy separation r).label.2 = 0 := by
  rw [tidy_eq]
  simp [Slot.picture_eq]

private theorem isCentred_tidy (separation : ν → ν → Rat) (r : Rose ν) :
    (tidy separation r).IsCentred := by
  rw [tidy_eq]
  exact isCentred_shift _
    (Slot.isCentred_picture (isSound_content separation r) (Forest.isCentred_enter _ _))

theorem isChain_level_tidy (separation : ν → ν → Rat) (r : Rose ν) (depth : Nat) :
    ((tidy separation r).level depth).IsChain (IsApart separation) := by
  rw [tidy_eq, Rose.level_map]
  exact (isChain_map_shift separation _ _).mpr
    (Slot.apart_picture (isSound_content separation r) depth)

/-- A tidy drawing shows its tree with the root at zero, every parent in the middle above its first
and last child, and neighbours on every level at least their separation apart. -/
theorem tidy_centred_and_apart (separation : ν → ν → Rat) (r : Rose ν) :
    (tidy separation r).map Prod.fst = r ∧ (tidy separation r).label.2 = 0 ∧
      (∀ t ∈ (tidy separation r).subtrees, ∀ first ∈ t.children.head?,
        ∀ last ∈ t.children.getLast?, t.label.2 = (first.label.2 + last.label.2) / 2) ∧
      ∀ depth, ((tidy separation r).level depth).IsChain
        fun a b => b.2 - a.2 ≥ separation a.1 b.1 :=
  ⟨map_fst_tidy separation r, label_tidy separation r, isCentred_tidy separation r,
    isChain_level_tidy separation r⟩

end TidyTree.Placement
