import TidyTree.Proofs.Placement.Visiting

set_option autoImplicit false
set_option relaxedAutoImplicit false

/-!
# Tying contours

When the walk of a node has ended, the contours of the longer row are those of the row and of the
node's subtree, and where one of the two goes on below the other it is reached by a thread from the
last node of the other.
-/

namespace TidyTree.Placement

open Rose (preorderAll)

variable {α : Type}

private theorem Descent.Tracks.traces {k : Kinship} {start : Cells α} {tops : List Nat}
    {v top : Nat}
    {t : Stage α} {d : Descent α} (h : d.Tracks k start tops v top t) (edge : List Nat → Option Nat)
    {first : Option Nat} {ns : List (Knot Nat α)}
    (traced : start.Traces (start.nextBy edge k) first ns) (aside : v ∉ ns.map (·.label)) :
    d.cells.Traces (d.cells.nextBy edge k) first ns := by
  refine traced.congr fun u hu => ⟨?_, h.knot u ?_⟩
  · rw [Cells.nextBy, Cells.nextBy, h.thread]
  · rintro rfl
    exact aside hu

namespace Cells.Awaits

/-- What the ties of the contours leave as it is. -/
structure Ties (k : Kinship) (cells joined : Cells α) (leaf : Option Nat) : Prop where
  childless : ∀ x ∈ leaf, k.children x = []
  written : ∀ x, joined x =
    { cells x with thread := (joined x).thread, offset := (joined x).offset }
  others : ∀ x, some x ≠ leaf → joined x = cells x

private theorem Ties.none (k : Kinship) (cells : Cells α) : Ties k cells cells none :=
  ⟨fun _ hx => absurd hx (Option.not_mem_none _), fun _ => rfl, fun _ _ => rfl⟩

section Ties

variable {k : Kinship} {joined : Cells α} {leaf : Option Nat} {cells : Cells α}

theorem Ties.untied (h : Ties k cells joined leaf) {x : Nat} (inner : k.children x ≠ []) :
    joined x = cells x := by
  apply h.others
  rintro rfl
  exact inner (h.childless x rfl)

theorem Ties.stands (h : Ties k cells joined leaf) {s : Slot (Block Nat α) α}
    (standing : cells.Stands k s) : joined.Stands k s := by
  obtain ⟨coordinate, offset, change, shift⟩ := standing
  constructor
  · rw [h.written]
    exact coordinate
  · intro inner
    rw [h.untied inner]
    exact offset inner
  · rw [h.written]
    exact change
  · rw [h.written]
    exact shift

end Ties

variable [Scalar α]

variable {k : Kinship} {separation : Nat → Nat → α} {cells : Cells α} {p v w top : Nat}
  {rs cs later : List (Rose Nat)} {u : Stage α} {d : Descent α}

def topKnot (separation : Nat → Nat → α) (rs : List (Rose Nat)) (v : Nat) (cs : List (Rose Nat))
    (u : Stage α) : Knot Nat α :=
  ((u.row.getLast?).getD ((forest separation .empty rs).enter separation
    ((forest separation .empty cs).under v))).knot

theorem append_of_walked (hne : rs ≠ [])
    (walked : Walked k separation cells rs v w top cs u d) :
    forest separation .empty (rs ++ [.mk v cs]) =
      ⟨u.row,
        if u.rightInner.isEmpty then (forest separation .empty rs).left
        else correctLast (u.sums.rightInner - u.sums.leftOuter) (forest separation .empty rs).left ++
          u.rightInner,
        if u.leftInner.isEmpty then
          (topKnot separation rs v cs u :: ((forest separation .empty cs).under v).right).map
            (rs.length, ·)
        else (correctLast (u.sums.leftInner - u.sums.rightOuter)
          (topKnot separation rs v cs u :: ((forest separation .empty cs).under v).right)).map
            (rs.length, ·) ++ u.leftInner⟩ := by
  have length : (forest separation .empty rs : Forest Nat α).row.length = rs.length := by
    rw [length_row, List.length_map]
  have row : (forest separation .empty rs : Forest Nat α).row ≠ [] := by
    rw [← List.length_pos_iff, length]
    exact List.length_pos_iff.mpr hne
  have outcome := walked.outcome
  rw [List.length_map, ← length] at outcome
  rw [forest_concat]
  have appended := Forest.append_eq_of_outcome row outcome
  rw [length] at appended
  exact appended

section Walked

variable (h : cells.Awaits k separation p rs v cs later)
  (walked : Walked k separation cells rs v w top cs u d)

include walked

private theorem topKnot_eq : (topKnot separation rs v cs u).label = v ∧
    d.cells.knot v = topKnot separation rs v cs u := by
  have outcome := walked.outcome
  rw [← length_row separation rs, Forest.outcome_opening, Prod.mk.injEq] at outcome
  obtain ⟨s, last, content⟩ := (forest separation .empty rs).getLast?_moved separation
    ((forest separation .empty cs).under v)
    ((forest separation .empty rs).meet separation ((forest separation .empty rs).enter separation
      ((forest separation .empty cs).under v))).moves
  rw [outcome.1] at last
  have label : s.content.label = v := congrArg Block.label content
  rw [topKnot, last, Option.getD_some]
  exact ⟨label, walked.tracks.own s last⟩

include h

private theorem traces_row : d.cells.Traces (d.cells.nextLeft k) (rs.head?.map Rose.label)
    (forest separation .empty rs).left := by
  apply walked.tracks.traces List.head? h.before_enter.left
  intro hv
  exact h.apart.own_row (left_subset separation rs hv)

private theorem traces_subtree : d.cells.Traces (d.cells.nextRight k) (some v)
    (topKnot separation rs v cs u :: ((forest separation .empty cs).under v).right) := by
  obtain ⟨label, knot⟩ := topKnot_eq walked
  obtain ⟨-, -, next⟩ := h.next_enter
  have below : d.cells.Traces (d.cells.nextRight k) (cs.getLast?.map Rose.label)
      ((forest separation .empty cs).under v).right := by
    apply walked.tracks.traces List.getLast? h.carries_enter.right
    intro hv
    exact h.apart.own_below
      ((hasEdges_block separation (.mk v cs)).goesDown_right.subset hv)
  refine ⟨congrArg some label.symm, ?_, ?_⟩
  · rw [label, knot]
  · have children : d.cells.nextRight k v = cs.getLast?.map Rose.label := by
      rw [walked.tracks.nextRight_eq, next]
    rw [label, children]
    exact below

end Walked

section Ends

variable (walked : Walked k separation cells rs v w top cs u d)

include walked

private theorem ended : u.leftInner = [] ∨ u.rightInner = [] := by
  rw [walked.leftInner, walked.rightInner, List.drop_eq_nil_iff, List.drop_eq_nil_iff]
  rcases Nat.le_total (forest separation .empty rs : Forest Nat α).right.tail.length
    ((forest separation .empty cs).under v).left.length with shallow | deep
  · exact Or.inl (Nat.min_eq_left shallow).ge
  · exact Or.inr (Nat.min_eq_right deep).ge

theorem passed_right (shallow : u.rightInner = []) : u.rightOuter = [] ∧
    u.rightPassed = ((forest separation .empty cs).under v).right.map (·.label) := by
  have heights : ((forest separation .empty cs).under v).left.length =
      ((forest separation .empty cs).under v).right.length :=
    (hasEdges_block separation (.mk v cs)).length_left
  rw [walked.rightInner, List.drop_eq_nil_iff, heights] at shallow
  rw [walked.rightOuter, walked.rightPassed]
  exact ⟨List.drop_eq_nil_of_le shallow, by rw [List.take_of_length_le shallow]⟩

private theorem passed_left (shallow : u.leftInner = []) : u.leftOuter = [] ∧
    u.leftPassed = (forest separation .empty rs : Forest Nat α).left.tail.map (·.label) := by
  have heights : (forest separation .empty rs : Forest Nat α).right.tail.length =
      (forest separation .empty rs : Forest Nat α).left.tail.length := by
    rw [List.length_tail, List.length_tail, (edges_forest separation rs).length_left]
  rw [walked.leftInner, List.drop_eq_nil_iff, heights] at shallow
  rw [walked.leftOuter, walked.leftPassed]
  exact ⟨List.drop_eq_nil_of_le shallow, by rw [List.take_of_length_le shallow]⟩

theorem passed_subset : u.rightPassed ⊆ preorderAll cs := by
  intro x hx
  rw [walked.rightPassed, List.mem_map] at hx
  obtain ⟨n, hn, rfl⟩ := hx
  exact (hasEdges_block separation (.mk v cs)).goesDown_right.subset
    (List.mem_map_of_mem (List.mem_of_mem_take hn))

end Ends

private theorem Ties.tie {k : Kinship} {cells : Cells α} {leaf : Nat}
    (childless : k.children leaf = [])
    (below : Nat) (correction : α) :
    Ties k cells (cells.tie leaf below correction) (some leaf) := by
  refine ⟨fun x hx => Option.some.inj hx ▸ childless, fun x => ?_, fun x hx => ?_⟩
  · by_cases here : x = leaf
    · rw [here, Cells.tie_self]
    · rw [Cells.tie_of_ne _ _ _ here]
  · apply Cells.tie_of_ne
    rintro rfl
    exact hx rfl

theorem finish_cases (walked : Walked k separation cells rs v w top cs u d) (fallback : Nat) :
    (u.leftInner = [] ∧ u.rightInner = [] ∧ d.finish k v fallback = (d.cells, fallback)) ∨
      (∃ m ms, u.leftInner = m :: ms ∧ u.rightInner = [] ∧
        (d.cells.nextRight k d.rightOuter) = none ∧
        d.finish k v fallback = (d.cells.tie d.rightOuter m.2.label
          (u.sums.leftInner - u.sums.rightOuter), fallback)) ∨
      ∃ n ns, u.leftInner = [] ∧ u.rightInner = n :: ns ∧
        (d.cells.nextLeft k d.leftOuter) = none ∧
        d.finish k v fallback = (d.cells.tie d.leftOuter n.label
          (u.sums.rightInner - u.sums.leftOuter), v) := by
  have leftInner := walked.tracks.leftInner.start_eq
  have rightInner := walked.tracks.rightInner.start_eq
  have leftOuter := walked.tracks.leftOuter.start_eq
  have rightOuter := walked.tracks.rightOuter.start_eq
  cases hleft : u.leftInner with
  | nil =>
    cases hright : u.rightInner with
    | nil =>
      left
      rw [hleft] at leftInner
      rw [hright] at rightInner
      refine ⟨rfl, rfl, ?_⟩
      rw [Descent.finish, leftInner, rightInner]
      rfl
    | cons n ns =>
      right
      right
      rw [hleft] at leftInner
      rw [hright] at rightInner
      rw [(passed_left walked hleft).1] at leftOuter
      have free : d.cells.nextLeft k d.leftOuter = none := by
        rw [walked.tracks.nextLeft_eq]
        exact leftOuter
      refine ⟨n, ns, rfl, rfl, free, ?_⟩
      simp only [Descent.finish, leftInner, rightInner, List.map_nil, List.head?_nil,
        Option.map_none, List.head?_cons, Option.map_some, free, Option.isNone_none, if_true,
        walked.tracks.sums]
  | cons m ms =>
    right
    left
    have shallow : u.rightInner = [] := (ended walked).resolve_left (by rw [hleft]; simp)
    rw [hleft] at leftInner
    rw [shallow] at rightInner
    rw [(passed_right walked shallow).1] at rightOuter
    have free : d.cells.nextRight k d.rightOuter = none := by
      rw [walked.tracks.nextRight_eq]
      exact rightOuter
    refine ⟨m, ms, rfl, shallow, free, ?_⟩
    simp only [Descent.finish, leftInner, rightInner, List.map_cons, List.head?_nil,
      Option.map_none, List.head?_cons, Option.map_some, free, Option.isNone_none, if_true,
      walked.tracks.sums]

section Rests

variable (walked : Walked k separation cells rs v w top cs u d)

include walked

private theorem leftRest_subset : (u.leftInner.map (·.2)).map (·.label) ⊆ preorderAll rs := by
  intro x hx
  apply right_subset separation rs
  rw [walked.leftInner, List.map_map] at hx
  rw [List.map_map]
  obtain ⟨m, hm, rfl⟩ := List.mem_map.mp hx
  exact List.mem_map_of_mem (List.mem_of_mem_tail (List.mem_of_mem_drop hm))

private theorem rightRest_subset : u.rightInner.map (·.label) ⊆ preorderAll cs := by
  intro x hx
  rw [walked.rightInner] at hx
  obtain ⟨n, hn, rfl⟩ := List.mem_map.mp hx
  exact (hasEdges_block separation (.mk v cs)).goesDown_left.subset
    (List.mem_map_of_mem (List.mem_of_mem_drop hn))

theorem labels_subtree : (topKnot separation rs v cs u ::
    ((forest separation .empty cs).under v).right).map (·.label) =
      v :: ((forest separation .empty cs).under v).right.map (·.label) := by
  rw [List.map_cons, (topKnot_eq walked).1]

variable (h : cells.Awaits k separation p rs v cs later)

include h

private theorem traces_leftRest : d.cells.Traces (d.cells.nextRight k) d.leftInner
    (u.leftInner.map (·.2)) := by
  apply walked.tracks.traces List.getLast? walked.tracks.leftInner
  intro hv
  exact h.apart.own_row (leftRest_subset walked hv)

private theorem traces_rightRest : d.cells.Traces (d.cells.nextLeft k) d.rightInner u.rightInner
    := by
  apply walked.tracks.traces List.head? walked.tracks.rightInner
  intro hv
  exact h.apart.own_below (rightRest_subset walked hv)

private theorem subtree_aside : ∀ x ∈ (topKnot separation rs v cs u ::
    ((forest separation .empty cs).under v).right).map (·.label), x ∉ preorderAll rs := by
  intro x hx inside
  rw [labels_subtree walked, List.mem_cons] at hx
  rcases hx with rfl | hx
  · exact h.apart.own_row inside
  · exact h.apart.row_below x inside
      ((hasEdges_block separation (.mk v cs)).goesDown_right.subset hx)

end Rests

section Tie

variable (h : cells.Awaits k separation p rs v cs later)
  (walked : Walked k separation cells rs v w top cs u d)

include h walked

private theorem traces_tied_right (hright : u.rightInner = []) {m : Nat × Knot Nat α}
    {ms : List (Nat × Knot Nat α)} (hleft : u.leftInner = m :: ms) (correction : α) :
    d.rightOuter ∈ (Rose.mk v cs).preorder ∧ d.rightOuter ∉ preorderAll rs ∧
      (d.cells.tie d.rightOuter m.2.label correction).Traces
        ((d.cells.tie d.rightOuter m.2.label correction).nextRight k) (some v)
        (correctLast correction (topKnot separation rs v cs u ::
          ((forest separation .empty cs).under v).right) ++ (m :: ms).map (·.2)) := by
  have edges := hasEdges_block separation (.mk v cs)
  have ends : ((topKnot separation rs v cs u ::
      ((forest separation .empty cs).under v).right).map (·.label)).getLast? =
        some d.rightOuter := by
    rw [labels_subtree walked, ← (passed_right walked hright).2, walked.tracks.rightEnd]
  have leafOf := List.mem_of_getLast? ends
  have aside := subtree_aside walked h _ leafOf
  have once : ((topKnot separation rs v cs u ::
      ((forest separation .empty cs).under v).right).map (·.label)).Nodup := by
    rw [labels_subtree walked, List.nodup_cons]
    exact ⟨fun hv => h.apart.own_below (edges.goesDown_right.subset hv),
      edges.goesDown_right.nodup h.apart.below⟩
  have rest := traces_leftRest walked h
  have restAside : d.rightOuter ∉ (u.leftInner.map (·.2)).map (·.label) := fun inside =>
    aside (leftRest_subset walked inside)
  have start := walked.tracks.leftInner.start_eq
  rw [hleft] at rest restAside start
  rw [start] at rest
  refine ⟨?_, aside, (traces_subtree h walked).tied List.getLast? ends once rest restAside⟩
  rw [labels_subtree walked] at leafOf
  exact List.cons_subset_cons v edges.goesDown_right.subset leafOf

private theorem traces_tied_left (htop : rs.head?.map Rose.label = some top)
    (hleft : u.leftInner = []) {n : Knot Nat α} {ns : List (Knot Nat α)}
    (hright : u.rightInner = n :: ns) (correction : α) :
    d.leftOuter ∈ preorderAll rs ∧
      (d.cells.tie d.leftOuter n.label correction).Traces
        ((d.cells.tie d.leftOuter n.label correction).nextLeft k) (rs.head?.map Rose.label)
        (correctLast correction (forest separation .empty rs).left ++ n :: ns) := by
  have row := traces_row h walked
  obtain ⟨lk, lks, hlks⟩ : ∃ lk lks, (forest separation .empty rs : Forest Nat α).left =
      lk :: lks := by
    cases hf : (forest separation .empty rs : Forest Nat α).left with
    | nil =>
      rw [htop, hf] at row
      exact absurd row (by simp [Cells.Traces])
    | cons lk lks => exact ⟨lk, lks, rfl⟩
  have ends : ((forest separation .empty rs : Forest Nat α).left.map (·.label)).getLast? =
      some d.leftOuter := by
    have first : lk.label = top := by
      rw [htop, hlks] at row
      exact (Option.some.inj row.1).symm
    rw [← walked.tracks.leftEnd, (passed_left walked hleft).2, hlks, List.tail_cons, List.map_cons,
      first]
  have leafOf := left_subset separation rs (List.mem_of_getLast? ends)
  have once := (edges_forest separation rs).goesDown_left.nodup h.apart.row
  have rest := traces_rightRest walked h
  have restAside : d.leftOuter ∉ u.rightInner.map (·.label) := fun inside =>
    h.apart.row_below _ leafOf (rightRest_subset walked inside)
  have start := walked.tracks.rightInner.start_eq
  rw [hright] at rest restAside start
  rw [start] at rest
  exact ⟨leafOf, row.tied List.head? ends once rest restAside⟩

end Tie

/-- The contours of the longer row are traced when the walk has been finished, and only the leaf
that has been tied differs. -/
theorem traces_finish (h : cells.Awaits k separation p rs v cs later)
    (walked : Walked k separation cells rs v w top cs u d) (hne : rs ≠ [])
    (htop : rs.head?.map Rose.label = some top) (fallback : Nat) :
    (d.finish k v fallback).1.Traces ((d.finish k v fallback).1.nextLeft k)
        (rs.head?.map Rose.label) (forest separation .empty (rs ++ [.mk v cs])).left ∧
      (d.finish k v fallback).1.Traces ((d.finish k v fallback).1.nextRight k) (some v)
        ((forest separation .empty (rs ++ [.mk v cs])).right.map (·.2)) ∧
      ∃ leaf, Ties k d.cells (d.finish k v fallback).1 leaf ∧
        ∀ x ∈ leaf, x ∈ preorderAll (rs ++ [.mk v cs]) := by
  have row := traces_row h walked
  have subtree := traces_subtree h walked
  have placed : ∀ ks : List (Knot Nat α), (ks.map (rs.length, ·)).map (·.2) = ks := by
    intro ks
    rw [List.map_map]
    exact List.map_id ks
  rw [append_of_walked hne walked]
  rcases finish_cases walked fallback with ⟨hleft, hright, finished⟩ |
    ⟨m, ms, hleft, hright, free, finished⟩ | ⟨n, ns, hleft, hright, free, finished⟩
  · rw [finished, hleft, hright]
    refine ⟨row, ?_, none, .none k d.cells, fun x hx => absurd hx (Option.not_mem_none x)⟩
    simp only [List.isEmpty_nil, if_true]
    rw [placed]
    exact subtree
  · obtain ⟨leafOf, aside, tied⟩ := traces_tied_right h walked hright hleft
      (u.sums.leftInner - u.sums.rightOuter)
    rw [finished, hleft, hright]
    refine ⟨?_, ?_, some d.rightOuter, .tie ?_ _ _, ?_⟩
    · simp only [List.isEmpty_nil, if_true]
      exact row.untied List.head? fun inside => aside (left_subset separation rs inside)
    · simp only [List.isEmpty_cons, Bool.false_eq_true, if_false, List.map_append]
      rw [placed]
      exact tied
    · exact List.getLast?_eq_none_iff.mp (Option.or_eq_none_iff.mp free).1
    · intro x hx
      obtain rfl := Option.some.inj hx
      rw [Rose.preorderAll_append, preorderAll, preorderAll, List.append_nil]
      exact List.mem_append_right _ leafOf
  · obtain ⟨leafOf, tied⟩ := traces_tied_left h walked htop hleft hright
      (u.sums.rightInner - u.sums.leftOuter)
    rw [finished, hleft, hright]
    refine ⟨?_, ?_, some d.leftOuter, .tie ?_ _ _, ?_⟩
    · simp only [List.isEmpty_cons, Bool.false_eq_true, if_false]
      exact tied
    · simp only [List.isEmpty_nil, if_true]
      rw [placed]
      exact subtree.untied List.getLast? fun inside => subtree_aside walked h _ inside leafOf
    · exact List.head?_eq_none_iff.mp (Option.or_eq_none_iff.mp free).1
    · intro x hx
      obtain rfl := Option.some.inj hx
      rw [Rose.preorderAll_append]
      exact List.mem_append_left _ leafOf

end Cells.Awaits

end TidyTree.Placement
