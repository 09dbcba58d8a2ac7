import TidyTree.Proofs.Placement.Soundness

set_option autoImplicit false
set_option relaxedAutoImplicit false

namespace TidyTree.Placement

variable {ν : Type} {separation : ν → ν → Rat}

/-- What becomes of a row that is not empty when a block is appended: the block's child `s` stands at
the right end and has made all moves, and the children before it have only been marked. -/
structure Forest.Appends (separation : ν → ν → Rat) (f : Forest ν Rat) (b : Block ν Rat)
    (moves : List (Nat × Rat)) (row : List (Slot (Block ν Rat) Rat)) (s : Slot (Block ν Rat) Rat)
    (g : Forest ν Rat) : Prop where
  row_eq : g.row = row ++ [s]
  marked : row.map Slot.site = f.row.map Slot.site
  moved : s.site = (b, (f.enter separation b).coordinate + total moves,
    (f.enter separation b).offset + total moves)
  ways : ∀ place, way g.row place = way f.row place + portions moves f.row.length place
  left : trace 0 g.left = trace 0 f.left ++ (trace 0 (s.knot :: b.left)).drop f.left.length
  right : ownedTrace 0 g.right = (trace 0 (s.knot :: b.right)).map (f.row.length, ·) ++
    (ownedTrace 0 f.right).drop (b.right.length + 1)
  positive : ∀ m ∈ moves, 0 < m.2
  met : ∀ m ∈ moves, ∃ depth a, (nodesAt f.pictures depth).getLast? = some a ∧ a.1 = m.1 ∧
    ∃ p, p ∈ s.picture.level depth
  apart : ∀ depth a p, (nodesAt f.pictures depth).getLast? = some a →
    ((f.enter separation b).picture.level depth).head? = some p →
      IsApart separation a.2 (shiftBy (pushedFrom a.1 moves) p)

private theorem Forest.length_pictures (f : Forest ν Rat) : f.pictures.length = f.row.length := by
  simp [Forest.pictures]

theorem Forest.getLast?_nodesAt_zero {f : Forest ν Rat} {s : Slot (Block ν Rat) Rat}
    (hs : f.row.getLast? = some s) :
    (nodesAt f.pictures 0).getLast? = some (f.row.length - 1, s.content.label, s.coordinate) := by
  obtain ⟨front, hrow⟩ := List.getLast?_eq_some_iff.mp hs
  simp [Forest.pictures, hrow, nodesAt_append, Slot.level_picture_zero]

private theorem Forest.IsSound.exists_knots {f : Forest ν Rat} (hf : f.IsSound separation)
    (hne : f.row ≠ []) : ∃ lk lks rk rks, f.left = lk :: lks ∧ f.right = rk :: rks := by
  have last := f.getLast?_nodesAt_zero (List.getLast?_eq_getLast_of_ne_nil hne)
  have top := hf.right 0
  rw [last] at top
  have rightNe : f.right ≠ [] := by
    rintro empty
    simp [empty, ownedTrace] at top
  have leftNe : f.left ≠ [] := by
    rw [← List.length_pos_iff, hf.length_left]
    exact List.length_pos_iff.mpr rightNe
  obtain ⟨lk, lks, hleft⟩ := List.exists_cons_of_ne_nil leftNe
  obtain ⟨rk, rks, hright⟩ := List.exists_cons_of_ne_nil rightNe
  exact ⟨lk, lks, rk, rks, hleft, hright⟩

private theorem Slot.picture_of_site {s t : Slot (Block ν Rat) Rat} {way : Rat}
    (h : t.site = (s.content, s.coordinate + way, s.offset + way)) :
    t.picture = s.picture.map (shiftBy way) := by
  obtain ⟨content, coordinate, offset⟩ : t.content = s.content ∧
      t.coordinate = s.coordinate + way ∧ t.offset = s.offset + way := by
    simpa [Slot.site] using h
  exact Slot.picture_of_moved content coordinate offset

section Meeting

variable {f : Forest ν Rat} {s : Slot (Block ν Rat) Rat}

private theorem Forest.IsSound.getLast?_below (hf : f.IsSound separation) {rk : Nat × Knot ν Rat}
    {rks : List (Nat × Knot ν Rat)} (hright : f.right = rk :: rks) (depth : Nat) :
    (ownedTrace rk.2.offset rks)[depth]? = (nodesAt f.pictures (depth + 1)).getLast? := by
  simpa [hright] using hf.right (depth + 1)

private theorem Slot.head?_below (hs : s.content.IsSound separation) (depth : Nat) :
    (trace s.offset s.content.left)[depth]? = (s.picture.level (depth + 1)).head? := by
  rw [← Slot.trace_left hs, trace, List.getElem?_cons_succ, zero_add]
  rfl

private theorem Forest.IsSound.exists_met (hf : f.IsSound separation)
    (hs : s.content.IsSound separation)
    (hne : f.row ≠ []) {m : Nat × Rat} (hm : m ∈ (f.meet separation s).moves) :
    ∃ depth a, (nodesAt f.pictures depth).getLast? = some a ∧ a.1 = m.1 ∧
      ∃ p, p ∈ s.picture.level depth := by
  obtain ⟨lk, lks, rk, rks, hleft, hright⟩ := hf.exists_knots hne
  obtain ⟨depth, hdepth, k, hk⟩ := (Forest.meet_descends hf hs hleft hright).met m hm
  have inside : depth < (ownedTrace rk.2.offset rks).length := by
    simpa using (List.getElem?_eq_some_iff.mp hk).1
  have owner : ((ownedTrace rk.2.offset rks).map (·.1))[depth]? = some m.1 := by
    rw [ownedTrace_fst, List.getElem?_map, hk]
    rfl
  rw [List.getElem?_map, List.getElem?_eq_getElem inside, Option.map_some,
    Option.some.injEq] at owner
  have shown : depth < (trace s.offset s.content.left).length := by simpa using hdepth
  refine ⟨depth + 1, (ownedTrace rk.2.offset rks)[depth], ?_, owner,
    (trace s.offset s.content.left)[depth], List.mem_of_head? ?_⟩
  · rw [← hf.getLast?_below hright, List.getElem?_eq_getElem inside]
  · rw [← Slot.head?_below hs, List.getElem?_eq_getElem shown]

private theorem Forest.IsSound.apart_enter {b : Block ν Rat} (hf : f.IsSound separation)
    (hb : b.IsSound separation) (hne : f.row ≠ []) {depth : Nat} {a : Nat × ν × Rat} {p : ν × Rat}
    (ha : (nodesAt f.pictures depth).getLast? = some a)
    (hp : ((f.enter separation b).picture.level depth).head? = some p) :
    IsApart separation a.2
      (shiftBy (pushedFrom a.1 (f.meet separation (f.enter separation b)).moves) p) := by
  have hs : (f.enter separation b).content.IsSound separation := by rwa [f.content_enter]
  obtain ⟨lk, lks, rk, rks, hleft, hright⟩ := hf.exists_knots hne
  have walked := Forest.meet_descends hf hs hleft hright
  cases depth with
  | zero =>
    have neighbour := List.getLast?_eq_getLast_of_ne_nil hne
    rw [f.getLast?_nodesAt_zero neighbour, Option.some.injEq] at ha
    rw [Slot.level_picture_zero, List.head?_cons, Option.some.injEq] at hp
    have pushed := pushedFrom_nonneg a.1 walked.positive
    rw [f.coordinate_enter neighbour, f.content_enter] at hp
    subst ha
    subst hp
    simp only [IsApart, shiftBy_fst, shiftBy_snd] at pushed ⊢
    linarith
  | succ depth =>
    have sorted := hf.owners_descend
    rw [hright, List.map_cons, List.pairwise_cons] at sorted
    exact walked.apart sorted.2 depth a p ((hf.getLast?_below hright depth).trans ha)
      ((Slot.head?_below hs depth).trans hp)

variable {t : Slot (Block ν Rat) Rat}

private theorem Forest.IsSound.trace_left_over (hf : f.IsSound separation)
    (hs : s.content.IsSound separation) (hne : f.row ≠ [])
    (moved : t.offset = s.offset + total (f.meet separation s).moves) :
    trace 0 (if (f.meet separation s).rightRest.isEmpty then f.left
        else correctLast ((f.meet separation s).sums.rightInner -
          (f.meet separation s).sums.leftOuter) f.left ++ (f.meet separation s).rightRest) =
      trace 0 f.left ++ (trace 0 (t.knot :: s.content.left)).drop f.left.length := by
  obtain ⟨lk, lks, rk, rks, hleft, hright⟩ := hf.exists_knots hne
  have walked := Forest.meet_descends hf hs hleft hright
  have hlengths : lks.length = rks.length := by simpa [hleft, hright] using hf.length_left
  rw [walked.rightRest]
  split
  · next reached =>
    have short : s.content.left.length ≤ rks.length := by simpa using reached
    rw [List.drop_eq_nil_of_le (by simp [hleft, hlengths, short]), List.append_nil]
  · next deep =>
    have correction : (f.meet separation s).sums.rightInner -
        (f.meet separation s).sums.leftOuter =
          t.offset + drift (s.content.left.take rks.length) - drift f.left := by
      have long : rks.length < s.content.left.length := by simpa using deep
      rw [walked.rightInner, walked.leftOuter, hleft, drift_cons, moved,
        List.take_of_length_le (l := lks) (by omega)]
    rw [correction, trace_goOver (by simp [hleft])]
    simp [trace, Slot.knot, hleft, hlengths]

private theorem Forest.IsSound.trace_right_over (hf : f.IsSound separation)
    (hs : s.content.IsSound separation) (hne : f.row ≠ [])
    (moved : t.offset = s.offset + total (f.meet separation s).moves) (place : Nat) :
    ownedTrace 0 (if (f.meet separation s).leftRest.isEmpty then
        (t.knot :: s.content.right).map (place, ·)
        else (correctLast ((f.meet separation s).sums.leftInner -
          (f.meet separation s).sums.rightOuter) (t.knot :: s.content.right)).map (place, ·) ++
            (f.meet separation s).leftRest) =
      (trace 0 (t.knot :: s.content.right)).map (place, ·) ++
        (ownedTrace 0 f.right).drop (s.content.right.length + 1) := by
  obtain ⟨lk, lks, rk, rks, hleft, hright⟩ := hf.exists_knots hne
  have walked := Forest.meet_descends hf hs hleft hright
  have height := hs.length_left
  rw [walked.leftRest]
  split
  · next reached =>
    have short : rks.length ≤ s.content.left.length := by simpa using reached
    rw [ownedTrace_map, List.drop_eq_nil_of_le (by simp [hright, ← height, short]),
      List.append_nil]
  · next deep =>
    have long : s.content.left.length < rks.length := by simpa using deep
    have correction : (f.meet separation s).sums.leftInner -
        (f.meet separation s).sums.rightOuter = rk.2.offset +
          drift ((rks.take s.content.left.length).map (·.2)) -
            drift (t.knot :: s.content.right) := by
      rw [walked.leftInner, walked.rightOuter, drift_cons,
        List.take_of_length_le (l := s.content.right) (height ▸ long.le)]
      simp only [Slot.knot, moved]
    rw [correction, ownedTrace_goOver (by simp)]
    simp [hright, height]

end Meeting

private theorem Forest.IsSound.exists_appends {f : Forest ν Rat} {b : Block ν Rat}
    (hf : f.IsSound separation) (hb : b.IsSound separation) (hne : f.row ≠ []) :
    ∃ moves row s, Forest.Appends separation f b moves row s (f.append separation b) := by
  let entered := f.enter separation b
  have hcontent : entered.content = b := f.content_enter b
  have soundContent : entered.content.IsSound separation := hcontent ▸ hb
  obtain ⟨lk, lks, rk, rks, hleft, hright⟩ := hf.exists_knots hne
  have places : ∀ m ∈ (f.meet separation entered).moves, m.1 < f.row.length := by
    intro m hm
    obtain ⟨depth, a, ha, owner, -⟩ := hf.exists_met soundContent hne hm
    rw [← owner, ← f.length_pictures]
    exact place_lt_of_mem_nodesAt (List.mem_of_getLast? ha)
  obtain ⟨row, s, hrow, hmarked, hmoved, hway⟩ := exists_foldl_move f.row entered places
  have moved : s.offset = entered.offset + total (f.meet separation entered).moves :=
    congrArg (·.2.2) hmoved
  have notEmpty : f.row.isEmpty = false := by simpa using hne
  have left := hf.trace_left_over soundContent hne moved
  have right := hf.trace_right_over soundContent hne moved f.row.length
  rw [hcontent] at left right
  refine ⟨(f.meet separation entered).moves, row, s, ?_⟩
  simp only [Forest.append, notEmpty, Bool.false_eq_true, if_false]
  simp only [show f.enter separation b = entered from rfl, hrow, List.getLast?_concat,
    Option.getD_some]
  constructor
  case row_eq => rfl
  case marked => exact hmarked
  case moved => rw [hmoved, hcontent]
  case ways =>
    intro place
    rw [hway, way_append (f.shift_enter b) (f.change_enter b)]
  case left => exact left
  case right => exact right
  case positive => exact (Forest.meet_descends hf soundContent hleft hright).positive
  case met =>
    intro m hm
    obtain ⟨depth, a, ha, owner, p, hp⟩ := hf.exists_met soundContent hne hm
    refine ⟨depth, a, ha, owner, shiftBy (total (f.meet separation entered).moves) p, ?_⟩
    rw [Slot.picture_of_site hmoved, Rose.level_map]
    exact List.mem_map_of_mem hp
  case apart => exact fun depth a p ha hp => hf.apart_enter hb hne ha hp

namespace Forest.Appends

variable {f g : Forest ν Rat} {b : Block ν Rat} {moves : List (Nat × Rat)}
  {row : List (Slot (Block ν Rat) Rat)} {s : Slot (Block ν Rat) Rat}

private theorem pictures_eq (h : Forest.Appends separation f b moves row s g) :
    g.pictures = f.pictures ++ [s.picture] := by
  have same : row.map Slot.picture = f.row.map Slot.picture := by
    apply List.ext_getElem?
    intro i
    have site := congrArg (fun sites => sites[i]?) h.marked
    simp only [List.getElem?_map] at site ⊢
    cases hrow : row[i]? <;> cases hold : f.row[i]? <;> simp [hrow, hold] at site ⊢
    exact Slot.picture_congr site
  simp [Forest.pictures, h.row_eq, same]

private theorem picture_eq (h : Forest.Appends separation f b moves row s g) :
    s.picture = (f.enter separation b).picture.map (shiftBy (total moves)) :=
  Slot.picture_of_site (by rw [h.moved, f.content_enter])

private theorem nodesAt_eq (h : Forest.Appends separation f b moves row s g) (depth : Nat) :
    nodesAt g.pictures depth =
      nodesAt f.pictures depth ++ (s.picture.level depth).map (f.row.length, ·) := by
  rw [h.pictures_eq, nodesAt_append, f.length_pictures]

private theorem way_last (h : Forest.Appends separation f b moves row s g) :
    way g.row f.row.length = 0 := by
  rw [h.ways, way_of_length_le le_rfl, portions_of_mover_le le_rfl, add_zero]

private theorem isShadowed_of_portions (h : Forest.Appends separation f b moves row s g)
    {place : Nat}
    (hplace : portions moves f.row.length place ≠ 0) : IsShadowed g.pictures place := by
  obtain ⟨m, hm, right, inside⟩ := exists_of_portions_ne_zero hplace
  obtain ⟨depth, a, ha, owner, p, hp⟩ := h.met m hm
  refine ⟨depth, ⟨a, ?_, owner ▸ right⟩, ⟨(f.row.length, p), ?_, inside⟩, ?_⟩
  · exact h.nodesAt_eq depth ▸ List.mem_append_left _ (List.mem_of_getLast? ha)
  · exact h.nodesAt_eq depth ▸ List.mem_append_right _ (List.mem_map_of_mem hp)
  · intro c hc
    rw [h.nodesAt_eq, List.mem_append] at hc
    rcases hc with hc | hc
    · exact ((getLast?_place_anti le_rfl hc ha).trans_lt (owner ▸ right)).ne
    · obtain ⟨q, -, rfl⟩ := List.mem_map.mp hc
      exact inside.ne'

private theorem apart_nodesAt (h : Forest.Appends separation f b moves row s g)
    (hf : f.IsSound separation)
    (hb : b.IsSound separation) (depth : Nat) :
    ((nodesAt g.pictures depth).map (settledAt (way g.row))).IsChain (IsApart separation) := by
  have content : s.content = b := congrArg (·.1) h.moved
  rw [h.nodesAt_eq, List.map_append, List.isChain_append]
  refine ⟨?_, ?_, ?_⟩
  · apply isChain_settledAt_of_mono (hf.apart depth)
    intro i j hij hj
    rw [f.length_pictures] at hj
    simpa [h.ways] using portions_mono h.positive hij hj
  · simpa [settledAt, Function.comp_def, h.way_last] using
      Slot.apart_picture (content ▸ hb : s.content.IsSound separation) depth
  · intro x hx y hy
    simp only [List.getLast?_map, List.head?_map, Option.mem_def, Option.map_eq_some_iff] at hx hy
    obtain ⟨a, ha, rfl⟩ := hx
    obtain ⟨q, ⟨p, hp, rfl⟩, rfl⟩ := hy
    rw [h.picture_eq, Rose.level_map, List.head?_map, Option.map_eq_some_iff] at hp
    obtain ⟨p, hp, rfl⟩ := hp
    have met := h.apart depth a p ha hp
    have passed := pushedFrom_add_portions_le h.positive f.row.length a.1
    simp only [IsApart, settledAt, h.way_last, h.ways, hf.way_getLast? ha, shiftBy_fst,
      shiftBy_snd] at met ⊢
    linarith

private theorem isSound (h : Forest.Appends separation f b moves row s g)
    (hf : f.IsSound separation)
    (hb : b.IsSound separation) : g.IsSound separation := by
  have content : s.content = b := congrArg (·.1) h.moved
  have soundContent : s.content.IsSound separation := content ▸ hb
  refine ⟨?_, ?_, h.apart_nodesAt hf hb, ?_, ?_⟩
  · intro depth
    have edge := head?_over hf.left (Slot.trace_left soundContent) depth
    rw [content, length_trace] at edge
    rw [h.left, edge, h.nodesAt_eq]
    simp [Function.comp_def]
  · intro depth
    have own : ∀ k, ((trace 0 (s.knot :: b.right)).map (f.row.length, ·))[k]? =
        ((s.picture.level k).map (f.row.length, ·)).getLast? := by
      intro k
      rw [List.getElem?_map, List.getLast?_map, ← Slot.trace_right soundContent, content]
    have edge := getLast?_over hf.right own depth
    rw [List.length_map, length_trace, List.length_cons] at edge
    rw [h.right, edge, h.nodesAt_eq]
  · intro place hplace
    rw [h.ways] at hplace
    by_cases passed : portions moves f.row.length place = 0
    · rw [passed, add_zero] at hplace
      exact h.pictures_eq ▸ (hf.shadowed place hplace).append s.picture
    · exact h.isShadowed_of_portions passed
  · intro site hsite
    rw [h.row_eq, List.map_append, h.marked, List.mem_append] at hsite
    rcases hsite with hsite | hsite
    · exact hf.blocks site hsite
    · obtain rfl : site = s.site := by simpa using hsite
      rw [h.moved]
      refine ⟨hb, fun middle hmiddle => ?_⟩
      have centred : (f.enter separation b).IsCentred := f.isCentred_enter b
      have stands := centred middle (by rwa [f.content_enter])
      simp only [stands]
      ring

end Forest.Appends

private theorem isSound_append_first {f : Forest ν Rat} {b : Block ν Rat} (hrow : f.row = [])
    (hb : b.IsSound separation) : (f.append separation b).IsSound separation := by
  let entered := f.enter separation b
  have hcontent : entered.content = b := f.content_enter b
  have soundContent : entered.content.IsSound separation := hcontent ▸ hb
  have appended : f.append separation b =
      ⟨[entered], entered.knot :: b.left, (entered.knot :: b.right).map (0, ·)⟩ := by
    simp [Forest.append, hrow, entered]
  have still : ∀ place, way [entered] place = 0 := by
    intro place
    rw [← List.nil_append [entered], way_append (f.shift_enter b) (f.change_enter b)]
    exact way_of_length_le (Nat.zero_le _)
  rw [appended]
  refine ⟨?_, ?_, ?_, ?_, ?_⟩
  · intro depth
    have edge := Slot.trace_left soundContent depth
    rw [hcontent] at edge
    simp [Forest.pictures, nodesAt_singleton, edge]
  · intro depth
    have edge := Slot.trace_right soundContent depth
    rw [hcontent] at edge
    rw [ownedTrace_map, List.getElem?_map, edge]
    simp [Forest.pictures, nodesAt_singleton]
  · intro depth
    simpa [Forest.pictures, nodesAt_singleton, settledAt, still, Function.comp_def] using
      Slot.apart_picture soundContent depth
  · intro place hplace
    exact absurd (still place) hplace
  · intro site hsite
    obtain rfl : site = entered.site := by simpa using hsite
    exact ⟨soundContent, f.isCentred_enter b⟩

theorem Forest.IsSound.append {f : Forest ν Rat} {b : Block ν Rat} (hf : f.IsSound separation)
    (hb : b.IsSound separation) : (f.append separation b).IsSound separation := by
  by_cases hrow : f.row = []
  · exact isSound_append_first hrow hb
  · obtain ⟨moves, row, s, h⟩ := hf.exists_appends hb hrow
    exact h.isSound hf hb

theorem Forest.isSound_empty : (Forest.empty : Forest ν Rat).IsSound separation where
  left depth := by simp [Forest.empty, Forest.pictures, nodesAt, trace]
  right depth := by simp [Forest.empty, Forest.pictures, nodesAt, ownedTrace]
  apart depth := by simp [Forest.empty, Forest.pictures, nodesAt]
  shadowed place h := absurd (way_of_length_le (Nat.zero_le _)) h
  blocks site h := by simp [Forest.empty] at h

end TidyTree.Placement
