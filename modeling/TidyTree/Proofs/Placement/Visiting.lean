import TidyTree.Proofs.Placement.Descents
import TidyTree.Proofs.Placement.Reflection

set_option autoImplicit false
set_option relaxedAutoImplicit false

namespace TidyTree.Placement

open Rose (preorderAll)

variable {α : Type} [Scalar α]

/-- The node `v` is to be visited next: the subtrees `rs` on its left and those of its children `cs`
have been placed. -/
structure Cells.Awaits (k : Kinship) (separation : Nat → Nat → α) (cells : Cells α) (p : Nat)
    (rs : List (Rose Nat)) (v : Nat) (cs later : List (Rose Nat)) : Prop where
  fits : k.Fits (.mk p (rs ++ .mk v cs :: later))
  once : (Rose.mk p (rs ++ .mk v cs :: later)).preorder.Nodup
  room : (Rose.mk p (rs ++ .mk v cs :: later)).preorder.length ≤ k.size + 1
  before : cells.Reflects k separation p rs
  below : cells.Reflects k separation v cs
  fresh : cells v = { (Cells.start v : Cell α) with fallback := (cells v).fallback }

structure AreApart (p : Nat) (rs : List (Rose Nat)) (v : Nat) (cs : List (Rose Nat)) : Prop where
  row : (preorderAll rs).Nodup
  below : (preorderAll cs).Nodup
  own_row : v ∉ preorderAll rs
  own_below : v ∉ preorderAll cs
  row_below : ∀ u ∈ preorderAll rs, u ∉ preorderAll cs
  parent_own : p ≠ v
  parent_row : p ∉ preorderAll rs
  parent_below : p ∉ preorderAll cs

namespace Cells.Awaits

variable {k : Kinship} {separation : Nat → Nat → α} {cells : Cells α} {p v : Nat}
  {rs cs later : List (Rose Nat)}

section Kin

variable (h : cells.Awaits k separation p rs v cs later)

include h

private theorem children_eq : k.children v = cs.map Rose.label := by
  have member : Rose.mk v cs ∈ (Rose.mk p (rs ++ .mk v cs :: later)).children := by simp
  exact (h.fits.of_mem member).root_children

theorem place_eq : ∀ i u, (rs.map Rose.label ++ [v])[i]? = some u →
    k.parent u = p ∧ k.place u = i := by
  intro i u hu
  have listed : ((rs ++ .mk v cs :: later).map Rose.label)[i]? = some u := by
    have inside := (List.getElem?_eq_some_iff.mp hu).1
    rw [List.map_append, List.map_cons, ← List.singleton_append, ← List.append_assoc]
    rw [List.getElem?_append_left (by simpa using inside)]
    exact hu
  rw [List.getElem?_map, Option.map_eq_some_iff] at listed
  obtain ⟨t, ht, rfl⟩ := listed
  exact h.fits.root_parent ht

theorem parent_eq : k.parent v = p := (h.place_eq rs.length v (by simp)).1

private theorem siblings_eq : k.children p = rs.map Rose.label ++ v :: later.map Rose.label := by
  have root := h.fits.root_children
  rw [Rose.label_mk, Rose.childLabels, Rose.children_mk, List.map_append, List.map_cons] at root
  exact root

theorem previousSibling_eq : k.previousSibling v = rs.getLast?.map Rose.label := by
  have place := (h.place_eq rs.length v (by simp)).2
  rw [Kinship.previousSibling, place, h.parent_eq, h.siblings_eq]
  cases rs using List.reverseRecOn with
  | nil => rfl
  | append_singleton rs r _ => simp

theorem firstSibling_eq : k.firstSibling v = (rs.head?.map Rose.label).getD v := by
  rw [Kinship.firstSibling, h.parent_eq, h.siblings_eq]
  cases rs <;> rfl

theorem apart : AreApart p rs v cs := by
  have once := h.once
  rw [Rose.preorder, Rose.preorderAll_append, preorderAll, Rose.preorder] at once
  simp only [List.nodup_cons, List.nodup_append, List.mem_append, List.mem_cons, List.cons_append,
    not_or] at once
  obtain ⟨⟨pRs, pv, pCs, -⟩, rsOnce, ⟨⟨vCs, -⟩, csOnce, -, -⟩, apart⟩ := once
  refine ⟨rsOnce, csOnce, ?_, vCs, ?_, pv, pRs, pCs⟩
  · intro hv
    exact apart v hv v (Or.inl rfl) rfl
  · intro u hu below
    exact apart u hu u (Or.inr (Or.inl below)) rfl

end Kin

private theorem neighbour (h : cells.Awaits k separation p rs v cs later) {s : Slot (Block Nat α) α}
    (hs : (forest separation .empty rs).row.getLast? = some s) :
    k.previousSibling v = some s.content.label ∧
      (cells s.content.label).coordinate = s.coordinate := by
  have label : rs.getLast?.map Rose.label = some s.content.label := by
    rw [← List.getLast?_map, ← labels_row separation rs, List.getLast?_map, hs, Option.map_some]
  exact ⟨h.previousSibling_eq.trans label,
    (h.before.stands s (List.mem_of_getLast? hs)).coordinate⟩

private theorem previousSibling_of_first (h : cells.Awaits k separation p rs v cs later)
    (hrow : (forest separation .empty rs).row.getLast? = none) : k.previousSibling v = none := by
  have label : rs.getLast?.map Rose.label = none := by
    rw [← List.getLast?_map, ← labels_row separation rs, List.getLast?_map, hrow, Option.map_none]
  exact h.previousSibling_eq.trans label

private theorem enter_eq (h : cells.Awaits k separation p rs v cs later) :
    cells.enter k separation v v =
        { cells v with
          coordinate := ((forest separation .empty rs).enter separation
            ((forest separation .empty cs).under v)).coordinate
          offset := ((forest separation .empty rs).enter separation
            ((forest separation .empty cs).under v)).offset } ∧
      ∀ u, u ≠ v → cells.enter k separation v u = cells.settleChildren k v u := by
  obtain ⟨-, others, -, middle⟩ := h.below.settle h.children_eq h.apart.below
  have coordinate : (cells v).coordinate = 0 := by rw [h.fresh]; rfl
  have offset : (cells v).offset = 0 := by rw [h.fresh]; rfl
  have top : v ∉ cs.map Rose.label := fun hv =>
    h.apart.own_below ((Rose.map_label_sublist cs).subset hv)
  have own := others v top
  cases hcs : cs.head? with
  | none =>
    obtain rfl : cs = [] := List.head?_eq_none_iff.mp hcs
    have bare : k.children v = [] := h.children_eq
    have still : cells.settleChildren k v = cells := by
      rw [Cells.settleChildren, bare]
      rfl
    have noMiddle : ((forest separation .empty []).under v : Block Nat α).middle = none := rfl
    rw [still]
    cases hrow : (forest separation .empty rs).row.getLast? with
    | none =>
      have first := h.previousSibling_of_first hrow
      simp only [Cells.enter, bare, List.head?_nil, first, Forest.enter, hrow, noMiddle,
        Option.getD_none]
      have unplaced : cells v = { cells v with coordinate := 0, offset := 0 } := by
        rw [h.fresh]
        rfl
      exact ⟨unplaced, fun _ _ => trivial⟩
    | some s =>
      obtain ⟨previous, stands⟩ := h.neighbour hrow
      simp only [Cells.enter, bare, List.head?_nil, previous, Forest.enter, hrow, noMiddle,
        Option.map_none, Option.getD_none]
      refine ⟨?_, fun u hu => Cells.alter_of_ne _ _ hu⟩
      rw [Cells.alter_self, stands, ← offset]
      rfl
  | some first =>
    obtain ⟨last, hlast⟩ := Option.isSome_iff_exists.mp
      ((isSome_head?_eq cs).symm.trans (hcs ▸ rfl : cs.head?.isSome = true))
    have head : (k.children v).head? = some first.label := by
      rw [h.children_eq, List.head?_map, hcs, Option.map_some]
    have tail : (k.children v).getLast? = some last.label := by
      rw [h.children_eq, List.getLast?_map, hlast, Option.map_some]
    have centre := middle first last hcs hlast
    cases hrow : (forest separation .empty rs).row.getLast? with
    | none =>
      have noPrevious := h.previousSibling_of_first hrow
      simp only [Cells.enter, head, tail, noPrevious, Forest.enter, hrow, centre, Option.getD_some]
      refine ⟨?_, fun u hu => Cells.alter_of_ne _ _ hu⟩
      rw [Cells.alter_self, own, ← offset]
    | some s =>
      obtain ⟨previous, stands⟩ := h.neighbour hrow
      have other : s.content.label ∉ cs.map Rose.label := by
        intro below
        have left : s.content.label ∈ rs.map Rose.label := by
          rw [← labels_row separation rs]
          exact List.mem_map_of_mem (List.mem_of_getLast? hrow)
        exact h.apart.row_below _ ((Rose.map_label_sublist rs).subset left)
          ((Rose.map_label_sublist cs).subset below)
      simp only [Cells.enter, head, tail, previous, Forest.enter, hrow, centre, Option.map_some,
        Option.getD_some]
      refine ⟨?_, fun u hu => Cells.alter_of_ne _ _ hu⟩
      rw [Cells.alter_self, own, others _ other, stands]
      rfl

theorem enter_of_not_mem (h : cells.Awaits k separation p rs v cs later) {u : Nat} (hu : u ≠ v)
    (below : u ∉ preorderAll cs) : cells.enter k separation v u = cells u := by
  obtain ⟨-, others, -, -⟩ := h.below.settle h.children_eq h.apart.below
  rw [h.enter_eq.2 u hu]
  exact others u fun top => below ((Rose.map_label_sublist cs).subset top)

theorem before_enter (h : cells.Awaits k separation p rs v cs later) :
    (cells.enter k separation v).Reflects k separation p rs := by
  refine h.before.congr (fun u hu => h.enter_of_not_mem ?_ (h.apart.row_below u hu)) ?_
  · rintro rfl
    exact h.apart.own_row hu
  · rw [h.enter_of_not_mem h.apart.parent_own h.apart.parent_below]

theorem carries_enter (h : cells.Awaits k separation p rs v cs later) :
    (cells.enter k separation v).Carries k cs ((forest separation .empty cs).under v) := by
  obtain ⟨carries, -, -, -⟩ := h.below.settle h.children_eq h.apart.below
  refine carries.congr (hasEdges_block separation (.mk v cs)) (shown_under separation v cs) ?_
  intro u hu
  apply h.enter_eq.2
  rintro rfl
  exact h.apart.own_below hu

theorem enter_unwritten (h : cells.Awaits k separation p rs v cs later) (u : Nat) :
    cells.enter k separation v u =
      { cells u with
        coordinate := (cells.enter k separation v u).coordinate
        offset := (cells.enter k separation v u).offset } := by
  obtain ⟨-, -, unwritten, -⟩ := h.below.settle h.children_eq h.apart.below
  by_cases own : u = v
  · rw [own, h.enter_eq.1]
  · rw [h.enter_eq.2 u own]
    exact unwritten u

theorem next_enter (h : cells.Awaits k separation p rs v cs later) :
    (cells.enter k separation v v).thread = none ∧
      (cells.enter k separation v).nextLeft k v = cs.head?.map Rose.label ∧
      (cells.enter k separation v).nextRight k v = cs.getLast?.map Rose.label := by
  have free : (cells.enter k separation v v).thread = none := by
    rw [h.enter_unwritten, h.fresh]
    rfl
  refine ⟨free, ?_, ?_⟩
  · rw [Cells.nextLeft, free, Option.or_none, h.children_eq, List.head?_map]
  · rw [Cells.nextRight, free, Option.or_none, h.children_eq, List.getLast?_map]

end Cells.Awaits

def Forest.opening (f : Forest Nat α) (s : Slot (Block Nat α) α) : Stage α :=
  let offsetOf (k : Option (Knot Nat α)) : α := (k.map (·.offset)).getD 0
  { row := f.row ++ [s]
    sums := ⟨offsetOf (f.right.head?.map (·.2)), offsetOf f.left.head?, s.offset, s.offset⟩
    leftInner := f.right.tail
    leftOuter := f.left.tail
    rightInner := s.content.left
    rightOuter := s.content.right
    leftPassed := []
    rightPassed := [] }

theorem Forest.outcome_opening (separation : Nat → Nat → α) (f : Forest Nat α)
    (s : Slot (Block Nat α) α) :
    (f.opening s).outcome separation f.row.length =
      ((f.meet separation s).moves.foldl (fun row m => move row m.1 f.row.length m.2)
        (f.row ++ [s]), (f.meet separation s).sums, (f.meet separation s).leftRest,
        (f.meet separation s).rightRest) := rfl

theorem Forest.append_eq_of_outcome {separation : Nat → Nat → α} {f : Forest Nat α}
    {b : Block Nat α} {row : List (Slot (Block Nat α) α)} {sums : Sums α}
    {leftRest : List (Nat × Knot Nat α)} {rightRest : List (Knot Nat α)} (hne : f.row ≠ [])
    (h : (f.opening (f.enter separation b)).outcome separation f.row.length =
      (row, sums, leftRest, rightRest)) :
    f.append separation b =
      ⟨row,
        if rightRest.isEmpty then f.left
        else correctLast (sums.rightInner - sums.leftOuter) f.left ++ rightRest,
        if leftRest.isEmpty then
          (((row.getLast?).getD (f.enter separation b)).knot :: b.right).map (f.row.length, ·)
        else (correctLast (sums.leftInner - sums.rightOuter)
          (((row.getLast?).getD (f.enter separation b)).knot :: b.right)).map (f.row.length, ·) ++
            leftRest⟩ := by
  rw [Forest.outcome_opening, Prod.mk.injEq, Prod.mk.injEq, Prod.mk.injEq] at h
  obtain ⟨rfl, rfl, rfl, rfl⟩ := h
  have notEmpty : f.row.isEmpty = false := by simpa using hne
  simp only [Forest.append, notEmpty, Bool.false_eq_true, if_false]

theorem forest_concat (separation : Nat → Nat → α) (f : Forest Nat α) (rs : List (Rose Nat))
    (r : Rose Nat) :
    forest separation f (rs ++ [r]) =
      (forest separation f rs).append separation (block separation r) := by
  induction rs generalizing f with
  | nil => rfl
  | cons q rs ih =>
    rw [List.cons_append, forest, ih]
    rfl

namespace Cells.Awaits

variable {k : Kinship} {separation : Nat → Nat → α} {cells : Cells α} {p v : Nat}
  {rs cs later : List (Rose Nat)}

theorem length_row (separation : Nat → Nat → α) (rs : List (Rose Nat)) :
    (forest separation .empty rs).row.length = (rs.map Rose.label).length := by
  rw [← labels_row separation rs, List.length_map]

private theorem marks_enter (separation : Nat → Nat → α) (f : Forest Nat α) (b : Block Nat α) :
    (f.enter separation b).change = 0 ∧ (f.enter separation b).shift = 0 := by
  unfold Forest.enter
  split <;> exact ⟨rfl, rfl⟩

theorem label_enter (separation : Nat → Nat → α) (f : Forest Nat α) (b : Block Nat α) :
    (f.enter separation b).content.label = b.label := by
  rw [Forest.content_enter]

theorem stands_enter (h : cells.Awaits k separation p rs v cs later) :
    (cells.enter k separation v).Stands k ((forest separation .empty rs).enter separation
      ((forest separation .empty cs).under v)) := by
  have label := label_enter separation (forest separation .empty rs)
    ((forest separation .empty cs).under v)
  have marks := marks_enter separation (forest separation .empty rs)
    ((forest separation .empty cs).under v)
  have own : cells.enter k separation v ((forest separation .empty cs).under v).label = _ :=
    h.enter_eq.1
  constructor
  · rw [label, own]
  · intro _
    rw [label, own]
  · rw [label, own, marks.1, h.fresh]
    rfl
  · rw [label, own, marks.2, h.fresh]
    rfl

theorem knot_enter (h : cells.Awaits k separation p rs v cs later) :
    (cells.enter k separation v).knot v = ((forest separation .empty rs).enter separation
      ((forest separation .empty cs).under v)).knot := by
  rw [Cells.knot, h.enter_eq.1, Slot.knot, label_enter]
  rfl

theorem lies (h : cells.Awaits k separation p rs v cs later) (hne : rs ≠ []) :
    ((forest separation .empty rs).opening ((forest separation .empty rs).enter separation
      ((forest separation .empty cs).under v))).Lies k (cells.enter k separation v)
        (rs.map Rose.label) v ((cells.enter k separation v).rowFallback k v) := by
  have edges := hasEdges_block separation (.mk v cs)
  have inLeft : ∀ m ∈ (forest separation .empty rs).right.tail, m.2.label ∈ preorderAll rs := by
    intro m hm
    apply right_subset separation rs
    rw [List.map_map]
    exact List.mem_map_of_mem (f := fun m : Nat × Knot Nat α => m.2.label) (List.mem_of_mem_tail hm)
  constructor
  case once =>
    rw [List.nodup_append]
    refine ⟨h.apart.row.sublist (Rose.map_label_sublist rs), List.nodup_singleton v, ?_⟩
    rintro u hu w hw rfl
    obtain rfl := List.mem_singleton.mp hw
    exact h.apart.own_row ((Rose.map_label_sublist rs).subset hu)
  case place => exact fun i u hu => (h.place_eq i u hu).2
  case labels =>
    simp only [Forest.opening, List.map_append, List.map_singleton, Forest.content_enter]
    rw [labels_row separation rs]
    rfl
  case owner =>
    intro m hm
    obtain ⟨x, hx, belongs⟩ := h.before_enter.owner hne
    have listed := List.mem_of_mem_tail hm
    obtain ⟨t, ht, -⟩ := (edges_forest separation rs).owner m listed
    have owner := belongs m listed t ht
    rw [List.getElem?_map, ht, Option.map_some, ← owner, Cells.nextAncestor, Cells.rowFallback,
      h.parent_eq, hx]
    rfl
  case leftInner =>
    intro m hm
    have inside := inLeft m hm
    refine ⟨?_, List.not_mem_nil, ?_⟩
    · intro same
      exact h.apart.own_row (same ▸ inside)
    · intro n hn same
      simp only [Forest.opening, Forest.content_enter] at hn
      have below := edges.goesDown_right.subset (List.mem_map_of_mem hn)
      exact h.apart.row_below _ inside (same ▸ below)
  case leftOuter =>
    intro n hn same
    have inside := left_subset separation rs (List.mem_map_of_mem (List.mem_of_mem_tail hn))
    exact h.apart.own_row (same ▸ inside)
  case rightInner =>
    intro n hn same
    simp only [Forest.opening, Forest.content_enter] at hn
    exact h.apart.own_below (same ▸ edges.goesDown_left.subset (List.mem_map_of_mem hn))
  case rightOuter =>
    intro n hn same
    simp only [Forest.opening, Forest.content_enter] at hn
    exact h.apart.own_below (same ▸ edges.goesDown_right.subset (List.mem_map_of_mem hn))

theorem tracks (h : cells.Awaits k separation p rs v cs later) {w top : Nat}
    (hw : rs.getLast?.map Rose.label = some w) (htop : rs.head?.map Rose.label = some top) :
    (Descent.begin k (cells.enter k separation v) v w).Tracks k (cells.enter k separation v)
      (rs.map Rose.label) v top ((forest separation .empty rs).opening
        ((forest separation .empty rs).enter separation
          ((forest separation .empty cs).under v))) := by
  let entered := cells.enter k separation v
  let f : Forest Nat α := forest separation .empty rs
  let s : Slot (Block Nat α) α := f.enter separation ((forest separation .empty cs).under v)
  have first : k.firstSibling v = top := by
    rw [h.firstSibling_eq, htop, Option.getD_some]
  have left := h.before_enter.left
  have right := h.before_enter.right
  have carries := h.carries_enter
  rw [htop] at left
  rw [hw] at right
  obtain ⟨lk, lks, hleft⟩ : ∃ lk lks, (forest separation .empty rs).left = lk :: lks := by
    cases hleft : (forest separation .empty rs).left with
    | nil => simp [hleft, Cells.Traces] at left
    | cons lk lks => exact ⟨lk, lks, rfl⟩
  obtain ⟨rk, rks, hright⟩ : ∃ rk rks, (forest separation .empty rs).right = rk :: rks := by
    cases hright : (forest separation .empty rs).right with
    | nil => simp [hright, Cells.Traces] at right
    | cons rk rks => exact ⟨rk, rks, rfl⟩
  rw [hleft] at left
  rw [hright, List.map_cons] at right
  obtain ⟨leftTop, leftKnot, leftBelow⟩ := left
  obtain ⟨rightTop, rightKnot, rightBelow⟩ := right
  obtain rfl : top = lk.label := Option.some.inj leftTop
  obtain rfl : w = rk.2.label := Option.some.inj rightTop
  obtain ⟨-, nextLeft, nextRight⟩ := h.next_enter
  constructor
  case sums =>
    have leftOffset : (entered lk.label).offset = lk.offset := congrArg Knot.offset leftKnot
    have rightOffset : (entered rk.2.label).offset = rk.2.offset := congrArg Knot.offset rightKnot
    have ownOffset : (entered v).offset = s.offset := congrArg Knot.offset h.knot_enter
    simp only [Descent.begin, Forest.opening, first, hleft, hright, List.head?_cons,
      Option.map_some, Option.getD_some, Sums.mk.injEq]
    exact ⟨rightOffset, leftOffset, ownOffset, ownOffset⟩
  case leftInner =>
    simp only [Descent.begin, Forest.opening, hright, List.tail_cons]
    exact rightBelow
  case leftOuter =>
    simp only [Descent.begin, Forest.opening, hleft, List.tail_cons, first]
    exact leftBelow
  case rightInner =>
    simp only [Descent.begin, Forest.opening, Forest.content_enter]
    rw [nextLeft]
    exact carries.left
  case rightOuter =>
    simp only [Descent.begin, Forest.opening, Forest.content_enter]
    rw [nextRight]
    exact carries.right
  case leftEnd => exact congrArg some first.symm
  case rightEnd => rfl
  case thread => exact fun _ => rfl
  case fallback => exact fun _ => rfl
  case ancestor => exact fun u => (if_neg List.not_mem_nil).symm
  case knot => exact fun _ _ => rfl
  case marks => exact fun _ _ _ => ⟨rfl, rfl⟩
  case stands =>
    intro r hr
    rcases List.mem_append.mp hr with hr | hr
    · exact h.before_enter.stands r hr
    · obtain rfl := List.mem_singleton.mp hr
      exact h.stands_enter
  case own =>
    intro r hr
    obtain rfl : s = r := by
      simpa only [Forest.opening, List.getLast?_concat, Option.some.injEq] using hr
    exact h.knot_enter

def commonLevels (separation : Nat → Nat → α) (rs : List (Rose Nat)) (v : Nat)
    (cs : List (Rose Nat)) : Nat :=
  min (forest separation .empty rs).right.tail.length
    ((forest separation .empty cs).under v).left.length

/-- A walk of the node that has come to its end. -/
structure Walked (k : Kinship) (separation : Nat → Nat → α) (cells : Cells α) (rs : List (Rose Nat))
    (v w top : Nat) (cs : List (Rose Nat)) (u : Stage α) (d : Descent α) : Prop where
  last : lastState (Descent.step k separation v ((cells.enter k separation v).rowFallback k v))
    k.size (.begin k (cells.enter k separation v) v w) = some d
  tracks : d.Tracks k (cells.enter k separation v) (rs.map Rose.label) v top u
  outcome : ((forest separation .empty rs).opening ((forest separation .empty rs).enter separation
    ((forest separation .empty cs).under v))).outcome separation (rs.map Rose.label).length =
      (u.row, u.sums, u.leftInner, u.rightInner)
  leftInner : u.leftInner =
    (forest separation .empty rs).right.tail.drop (commonLevels separation rs v cs)
  leftOuter : u.leftOuter =
    (forest separation .empty rs).left.tail.drop (commonLevels separation rs v cs)
  rightInner : u.rightInner =
    ((forest separation .empty cs).under v).left.drop (commonLevels separation rs v cs)
  rightOuter : u.rightOuter =
    ((forest separation .empty cs).under v).right.drop (commonLevels separation rs v cs)
  leftPassed : u.leftPassed = ((forest separation .empty rs).left.tail.take
    (commonLevels separation rs v cs)).map (·.label)
  rightPassed : u.rightPassed = (((forest separation .empty cs).under v).right.take
    (commonLevels separation rs v cs)).map (·.label)

theorem exists_walked (h : cells.Awaits k separation p rs v cs later) {w top : Nat}
    (hw : rs.getLast?.map Rose.label = some w) (htop : rs.head?.map Rose.label = some top) :
    ∃ u d, Walked k separation cells rs v w top cs u d := by
  have hne : rs ≠ [] := by
    rintro rfl
    exact absurd htop (by simp)
  have edges := hasEdges_block separation (.mk v cs)
  have heights := (edges_forest separation rs).length_left
  have content : ((forest separation .empty rs).enter separation
      ((forest separation .empty cs).under v)).content = (forest separation .empty cs).under v :=
    Forest.content_enter _ _
  obtain ⟨u, d, states, ended, tracks, outcome, descends⟩ :=
    (h.tracks hw htop).run separation (h.lies hne)
      (by simp only [Forest.opening, List.length_tail, heights])
      (by
        simp only [Forest.opening, content]
        exact edges.length_left)
  have levels : min ((forest separation .empty rs).opening ((forest separation .empty rs).enter
      separation ((forest separation .empty cs).under v))).leftInner.length
        ((forest separation .empty rs).opening ((forest separation .empty rs).enter
          separation ((forest separation .empty cs).under v))).rightInner.length =
      commonLevels separation rs v cs := by
    simp only [Forest.opening, content, commonLevels]
  rw [levels] at states descends
  have rightInner := descends.rightInner
  have rightOuter := descends.rightOuter
  have rightPassed := descends.rightPassed
  simp only [Forest.opening, content, List.nil_append] at rightInner rightOuter rightPassed
  refine ⟨u, d, lastState_of_stateAfter states ended ?_, tracks, outcome, descends.leftInner,
    descends.leftOuter, rightInner, rightOuter, descends.leftPassed, rightPassed⟩
  have path := (edges.goesDown_left.nodup h.apart.below).subperm edges.goesDown_left.subset
  have height := path.length_le
  have room := h.room
  rw [Rose.children_mk, List.length_map] at height
  rw [Rose.preorder, Rose.preorderAll_append, preorderAll, Rose.preorder] at room
  simp only [List.length_cons, List.length_append] at room
  have below : ((forest separation .empty cs).under v).left.length ≤ (preorderAll cs).length :=
    height
  rw [commonLevels]
  omega

end Cells.Awaits

end TidyTree.Placement
