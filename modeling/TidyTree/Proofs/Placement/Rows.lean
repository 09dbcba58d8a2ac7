import TidyTree.Proofs.Placement.Contours
import TidyTree.Proofs.Placement.Outlines

set_option autoImplicit false
set_option relaxedAutoImplicit false

/-!
# The levels of a row

The subtrees of a row make up its levels, each node with the place of its subtree. On every level
the places ascend. A child whose subtree shows at the edge of some level is not passed over there by
any move, which is why the marks of a row never have to be spread for the contours to be right.
-/

namespace TidyTree.Placement

variable {ν : Type}

/-- The drawing of a child by its present coordinate. -/
def Slot.picture (s : Slot (Block ν Rat) Rat) : Rose (ν × Rat) := s.draft.place 0

/-- What the drawing of a child depends on. -/
def Slot.site (s : Slot (Block ν Rat) Rat) : Block ν Rat × Rat × Rat :=
  (s.content, s.coordinate, s.offset)

def Slot.IsCentred (s : Slot (Block ν Rat) Rat) : Prop :=
  ∀ middle ∈ s.content.middle, s.coordinate = middle + s.offset

theorem Slot.picture_eq (s : Slot (Block ν Rat) Rat) :
    s.picture = .mk (s.content.label, s.coordinate)
      ((Draft.placeAll 0 s.content.children).map (Rose.map (shiftBy s.offset))) := by
  simp only [Slot.picture, Slot.draft, Draft.place, add_zero]
  rw [placeAll_eq_shift]

theorem Slot.picture_of_moved {s t : Slot (Block ν Rat) Rat} {way : Rat}
    (hcontent : t.content = s.content) (hcoordinate : t.coordinate = s.coordinate + way)
    (hoffset : t.offset = s.offset + way) : t.picture = s.picture.map (shiftBy way) := by
  simp only [Slot.picture, ← place_add]
  simp only [Slot.draft, Draft.place, hcontent, hcoordinate, hoffset, add_zero, zero_add]

theorem Slot.picture_settled (s : Slot (Block ν Rat) Rat) (way : Rat) :
    (s.settled way).picture = s.picture.map (shiftBy way) :=
  Slot.picture_of_moved rfl rfl rfl

theorem Slot.picture_congr {s t : Slot (Block ν Rat) Rat} (h : s.site = t.site) :
    s.picture = t.picture := by
  obtain ⟨content, coordinate, offset⟩ : s.content = t.content ∧ s.coordinate = t.coordinate ∧
      s.offset = t.offset := by simpa [Slot.site] using h
  simp [Slot.picture, Slot.draft, content, coordinate, offset]

/-- The nodes of several drawings at a depth, each with the place of its drawing. -/
def nodesAt (pictures : List (Rose (ν × Rat))) (depth : Nat) : List (Nat × ν × Rat) :=
  pictures.zipIdx.flatMap fun e => (e.1.level depth).map (e.2, ·)

private theorem mem_nodesAt {pictures : List (Rose (ν × Rat))} {depth : Nat} {a : Nat × ν × Rat} :
    a ∈ nodesAt pictures depth ↔ ∃ r, pictures[a.1]? = some r ∧ a.2 ∈ r.level depth := by
  obtain ⟨place, p⟩ := a
  simp only [nodesAt, List.mem_flatMap, List.mem_map, Prod.mk.injEq]
  constructor
  · rintro ⟨⟨r, i⟩, hr, q, hq, rfl, rfl⟩
    exact ⟨r, List.mem_zipIdx_iff_getElem?.mp hr, hq⟩
  · rintro ⟨r, hr, hp⟩
    exact ⟨(r, place), List.mem_zipIdx_iff_getElem?.mpr hr, p, hp, rfl, rfl⟩

theorem nodesAt_append (pictures : List (Rose (ν × Rat))) (r : Rose (ν × Rat)) (depth : Nat) :
    nodesAt (pictures ++ [r]) depth =
      nodesAt pictures depth ++ (r.level depth).map (pictures.length, ·) := by
  simp [nodesAt, List.zipIdx_append]

theorem nodesAt_singleton (r : Rose (ν × Rat)) (depth : Nat) :
    nodesAt [r] depth = (r.level depth).map (0, ·) := by
  simp [nodesAt]

theorem place_lt_of_mem_nodesAt {pictures : List (Rose (ν × Rat))} {depth : Nat}
    {a : Nat × ν × Rat} (h : a ∈ nodesAt pictures depth) : a.1 < pictures.length := by
  obtain ⟨r, hr, -⟩ := mem_nodesAt.mp h
  exact (List.getElem?_eq_some_iff.mp hr).1

private theorem pairwise_nodesAt (pictures : List (Rose (ν × Rat))) (depth : Nat) :
    (nodesAt pictures depth).Pairwise (fun a b => a.1 ≤ b.1) := by
  induction pictures using List.reverseRecOn with
  | nil => exact List.Pairwise.nil
  | append_singleton pictures r ih =>
    rw [nodesAt_append]
    refine List.pairwise_append.mpr ⟨ih, ?_, ?_⟩
    · exact List.pairwise_map.mpr (List.pairwise_of_forall fun _ _ => le_rfl)
    · intro a ha b hb
      obtain ⟨p, -, rfl⟩ := List.mem_map.mp hb
      exact (place_lt_of_mem_nodesAt ha).le

private theorem place_le_of_getLast? {l : List (Nat × ν × Rat)} {a b : Nat × ν × Rat}
    (sorted : l.Pairwise (fun a b => a.1 ≤ b.1)) (hb : l.getLast? = some b) (ha : a ∈ l) :
    a.1 ≤ b.1 := by
  obtain ⟨front, rfl⟩ := List.getLast?_eq_some_iff.mp hb
  rcases List.mem_append.mp ha with ha | ha
  · exact (List.pairwise_append.mp sorted).2.2 a ha b (List.mem_singleton_self b)
  · rw [List.mem_singleton.mp ha]

private theorem le_place_of_head? {l : List (Nat × ν × Rat)} {a b : Nat × ν × Rat}
    (sorted : l.Pairwise (fun a b => a.1 ≤ b.1)) (hb : l.head? = some b) (ha : a ∈ l) :
    b.1 ≤ a.1 := by
  obtain ⟨rest, rfl⟩ := List.head?_eq_some_iff.mp hb
  rcases List.mem_cons.mp ha with rfl | ha
  · exact le_rfl
  · exact (List.pairwise_cons.mp sorted).1 a ha

private theorem exists_mem_nodesAt_of_le {pictures : List (Rose (ν × Rat))} {shallow deep : Nat}
    (h : shallow ≤ deep) {a : Nat × ν × Rat} (ha : a ∈ nodesAt pictures deep) :
    ∃ p, (a.1, p) ∈ nodesAt pictures shallow := by
  obtain ⟨r, hr, hp⟩ := mem_nodesAt.mp ha
  have shows : r.level shallow ≠ [] := r.level_ne_nil_of_le h (List.ne_nil_of_mem hp)
  obtain ⟨p, hp⟩ := List.exists_mem_of_ne_nil _ shows
  exact ⟨p, mem_nodesAt.mpr ⟨r, hr, hp⟩⟩

theorem getLast?_place_anti {pictures : List (Rose (ν × Rat))} {shallow deep : Nat}
    (h : shallow ≤ deep) {a b : Nat × ν × Rat} (ha : a ∈ nodesAt pictures deep)
    (hb : (nodesAt pictures shallow).getLast? = some b) : a.1 ≤ b.1 := by
  obtain ⟨p, hp⟩ := exists_mem_nodesAt_of_le h ha
  exact place_le_of_getLast? (a := (a.1, p)) (pairwise_nodesAt _ _) hb hp

private theorem head?_place_mono {pictures : List (Rose (ν × Rat))} {shallow deep : Nat}
    (h : shallow ≤ deep) {a b : Nat × ν × Rat} (ha : a ∈ nodesAt pictures deep)
    (hb : (nodesAt pictures shallow).head? = some b) : b.1 ≤ a.1 := by
  obtain ⟨p, hp⟩ := exists_mem_nodesAt_of_le h ha
  exact le_place_of_head? (a := (a.1, p)) (pairwise_nodesAt _ _) hb hp

/-- At some depth the drawing at a place does not show, but one on either side does. -/
def IsShadowed (pictures : List (Rose (ν × Rat))) (place : Nat) : Prop :=
  ∃ depth, (∃ a ∈ nodesAt pictures depth, a.1 < place) ∧
    (∃ a ∈ nodesAt pictures depth, place < a.1) ∧ ∀ a ∈ nodesAt pictures depth, a.1 ≠ place

private theorem lt_of_shadow {pictures : List (Rose (ν × Rat))} {shallow deep : Nat}
    {a : Nat × ν × Rat} (ha : a ∈ nodesAt pictures shallow)
    (none : ∀ b ∈ nodesAt pictures deep, b.1 ≠ a.1) : shallow < deep := by
  by_contra h
  obtain ⟨p, hp⟩ := exists_mem_nodesAt_of_le (not_lt.mp h) ha
  exact none _ hp rfl

theorem not_isShadowed_of_getLast? {pictures : List (Rose (ν × Rat))} {depth : Nat}
    {a : Nat × ν × Rat} (ha : (nodesAt pictures depth).getLast? = some a) :
    ¬ IsShadowed pictures a.1 := by
  rintro ⟨deep, -, ⟨b, hb, right⟩, none⟩
  have deeper := lt_of_shadow (List.mem_of_getLast? ha) none
  exact absurd (getLast?_place_anti deeper.le hb ha) (not_le_of_gt right)

theorem not_isShadowed_of_head? {pictures : List (Rose (ν × Rat))} {depth : Nat}
    {a : Nat × ν × Rat} (ha : (nodesAt pictures depth).head? = some a) :
    ¬ IsShadowed pictures a.1 := by
  rintro ⟨deep, ⟨b, hb, left⟩, -, none⟩
  have deeper := lt_of_shadow (List.mem_of_head? ha) none
  exact absurd (head?_place_mono deeper.le hb ha) (not_le_of_gt left)

theorem IsShadowed.append {pictures : List (Rose (ν × Rat))} {place : Nat}
    (h : IsShadowed pictures place) (r : Rose (ν × Rat)) :
    IsShadowed (pictures ++ [r]) place := by
  obtain ⟨depth, ⟨a, ha, left⟩, ⟨b, hb, right⟩, none⟩ := h
  refine ⟨depth, ⟨a, ?_, left⟩, ⟨b, ?_, right⟩, ?_⟩
  · exact nodesAt_append pictures r depth ▸ List.mem_append_left _ ha
  · exact nodesAt_append pictures r depth ▸ List.mem_append_left _ hb
  · intro c hc
    rw [nodesAt_append, List.mem_append] at hc
    rcases hc with hc | hc
    · exact none c hc
    · obtain ⟨p, -, rfl⟩ := List.mem_map.mp hc
      exact (right.trans (place_lt_of_mem_nodesAt hb)).ne'

def settledAt (ways : Nat → Rat) (a : Nat × ν × Rat) : ν × Rat := shiftBy (ways a.1) a.2

theorem isChain_settledAt_of_mono {separation : ν → ν → Rat} {pictures : List (Rose (ν × Rat))}
    {depth : Nat} {ways more : Nat → Rat}
    (h : ((nodesAt pictures depth).map (settledAt ways)).IsChain (IsApart separation))
    (mono : ∀ i j, i ≤ j → j < pictures.length → more i - ways i ≤ more j - ways j) :
    ((nodesAt pictures depth).map (settledAt more)).IsChain (IsApart separation) := by
  rw [List.isChain_map, List.isChain_iff_getElem] at h ⊢
  intro i hi
  have apart := h i hi
  have ascending := List.pairwise_iff_getElem.mp (pairwise_nodesAt pictures depth) i (i + 1)
    (by omega) hi (Nat.lt_succ_self i)
  have inside := place_lt_of_mem_nodesAt (List.getElem_mem hi)
  have further := mono _ _ ascending inside
  simp only [IsApart, settledAt, shiftBy_fst, shiftBy_snd] at apart ⊢
  linarith

theorem levelAll_settle (row : List (Slot (Block ν Rat) Rat)) (depth : Nat) :
    Rose.levelAll ((settle row).map Slot.picture) depth =
      (nodesAt (row.map Slot.picture) depth).map (settledAt (way row)) := by
  have pictures : (settle row).map Slot.picture =
      row.zipIdx.map fun e => e.1.picture.map (shiftBy (way row e.2)) := by
    apply List.ext_getElem?
    intro i
    simp only [List.getElem?_map, getElem?_settle, List.getElem?_zipIdx, zero_add, Option.map_map,
      Function.comp_def, Slot.picture_settled]
  rw [pictures, Rose.levelAll_eq_flatMap]
  simp only [nodesAt, List.flatMap_map, List.map_flatMap, List.zipIdx_map, Rose.level_map,
    List.map_map, Function.comp_def, settledAt, Prod.map]
  rfl

/-- The coordinate and offset that a mover has gained, and the portions of its moves. -/
def portions (moves : List (Nat × Rat)) (mover place : Nat) : Rat :=
  (moves.map fun m => portion m.1 mover m.2 place).sum

@[simp] theorem portions_cons (m : Nat × Rat) (moves : List (Nat × Rat)) (mover place : Nat) :
    portions (m :: moves) mover place = portion m.1 mover m.2 place + portions moves mover place := by
  simp [portions]

theorem pushedFrom_add_portions_le {moves : List (Nat × Rat)} (h : ∀ m ∈ moves, 0 < m.2)
    (mover place : Nat) : pushedFrom place moves + portions moves mover place ≤ total moves := by
  induction moves with
  | nil => simp [pushedFrom, portions]
  | cons m moves ih =>
    have first := h m List.mem_cons_self
    have rest := ih fun m hm => h m (List.mem_cons_of_mem _ hm)
    rw [pushedFrom_cons, portions_cons, total_cons]
    split
    · next left => rw [portion_of_le left]; linarith
    · linarith [portion_le m.1 mover first.le place]

theorem portions_mono {moves : List (Nat × Rat)} (h : ∀ m ∈ moves, 0 < m.2) {mover i j : Nat}
    (hij : i ≤ j) (hj : j < mover) : portions moves mover i ≤ portions moves mover j := by
  induction moves with
  | nil => exact le_rfl
  | cons m moves ih =>
    have first := portion_mono m.1 mover (h m List.mem_cons_self).le hij hj
    have rest := ih fun m hm => h m (List.mem_cons_of_mem _ hm)
    rw [portions_cons, portions_cons]
    exact add_le_add first rest

theorem portions_of_mover_le {mover place : Nat} (h : mover ≤ place) (moves : List (Nat × Rat)) :
    portions moves mover place = 0 := by
  induction moves with
  | nil => rfl
  | cons m moves ih => rw [portions_cons, portion_of_mover_le h, ih, add_zero]

theorem exists_of_portions_ne_zero {moves : List (Nat × Rat)} {mover place : Nat}
    (h : portions moves mover place ≠ 0) : ∃ m ∈ moves, m.1 < place ∧ place < mover := by
  induction moves with
  | nil => exact absurd rfl h
  | cons m moves ih =>
    by_cases hrest : portions moves mover place = 0
    · have first : portion m.1 mover m.2 place ≠ 0 := by simpa [hrest] using h
      refine ⟨m, List.mem_cons_self, ?_⟩
      by_contra outside
      exact first (if_neg outside)
    · obtain ⟨m, hm, inside⟩ := ih hrest
      exact ⟨m, List.mem_cons_of_mem _ hm, inside⟩

private theorem map_site_blocked (row : List (Slot (Block ν Rat) Rat)) (place : Nat) (share : Rat) :
    (row.modify place (·.blocked share)).map Slot.site = row.map Slot.site := by
  apply List.ext_getElem?
  intro i
  simp only [List.getElem?_map, List.getElem?_modify]
  split <;> cases row[i]? <;> simp [Slot.site, Slot.blocked]

/-- The moves of a child at the right end: it takes all of them, every other child only gets marks. -/
theorem exists_foldl_move (row : List (Slot (Block ν Rat) Rat)) (s : Slot (Block ν Rat) Rat)
    {moves : List (Nat × Rat)} (h : ∀ m ∈ moves, m.1 < row.length) :
    ∃ row' s', moves.foldl (fun row' m => move row' m.1 row.length m.2) (row ++ [s]) = row' ++ [s'] ∧
      row'.map Slot.site = row.map Slot.site ∧
      s'.site = (s.content, s.coordinate + total moves, s.offset + total moves) ∧
      ∀ i, way (row' ++ [s']) i = way (row ++ [s]) i + portions moves row.length i := by
  induction moves generalizing row s with
  | nil => exact ⟨row, s, rfl, rfl, by simp [Slot.site], by simp [portions]⟩
  | cons m moves ih =>
    have first := h m List.mem_cons_self
    have moved := move_concat row s first m.2
    generalize m.2 / ((row.length - m.1 : Nat) : Rat) = share at moved
    have length : (row.modify m.1 (·.blocked share)).length = row.length := by simp
    obtain ⟨row', s', hrow, hsite, hlast, hway⟩ := ih (row.modify m.1 (·.blocked share))
      (s.moved m.2 share) fun m hm => length ▸ h m (List.mem_cons_of_mem _ hm)
    refine ⟨row', s', ?_, hsite.trans (map_site_blocked row m.1 share), ?_, ?_⟩
    · rw [List.foldl_cons, moved, ← hrow, length]
    · rw [hlast]
      simp [Slot.moved, add_assoc]
    · intro i
      rw [hway, ← moved, way_move first (by simp), portions_cons, length, add_assoc]

end TidyTree.Placement
