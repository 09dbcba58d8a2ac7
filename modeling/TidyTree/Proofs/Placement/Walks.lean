import TidyTree.Proofs.Placement.Lowering

set_option autoImplicit false
set_option relaxedAutoImplicit false

/-!
# Walks between neighbours

A walk for a node with subtrees on its left meets the inner and the outer nodes of every level that
both sides have, and ends below the last such level. It follows threads on the way, and reads the
subtree that a node belongs to off pointers which are not all up to date; that both lead to the
right nodes does not depend on the separation.
-/

namespace TidyTree.Rose

variable {ν : Type}

mutual

def height : Rose ν → Nat
  | mk _ children => if children.isEmpty then 0 else heightAll children + 1

def heightAll : List (Rose ν) → Nat
  | [] => 0
  | r :: rs => max r.height (heightAll rs)

end

mutual

private theorem level_ne_nil_iff : ∀ (r : Rose ν) (depth : Nat), r.level depth ≠
    [] ↔ depth ≤ r.height
  | mk label children, 0 => by
    rw [level]
    simp
  | mk label [], depth + 1 => by
    simp [level, levelAll, height]
  | mk label (r :: rs), depth + 1 => by
    have below := levelAll_ne_nil_iff (r :: rs) (by simp) depth
    rw [level, below, height, List.isEmpty_cons, if_neg Bool.false_ne_true,
      Nat.add_le_add_iff_right]

private theorem levelAll_ne_nil_iff : ∀ (rs : List (Rose ν)), rs ≠ [] → ∀ depth : Nat,
    levelAll rs depth ≠ [] ↔ depth ≤ heightAll rs
  | [], hne, _ => absurd rfl hne
  | [r], _, depth => by
    rw [levelAll, levelAll, List.append_nil, level_ne_nil_iff r depth, heightAll, heightAll,
      Nat.max_zero]
  | r :: q :: rs, _, depth => by
    have rest := levelAll_ne_nil_iff (q :: rs) (by simp) depth
    rw [levelAll, heightAll, ne_eq, List.append_eq_nil_iff, not_and_or, le_max_iff]
    exact or_congr (level_ne_nil_iff r depth) rest

end

end TidyTree.Rose

namespace TidyTree.Placement

open Rose (levelAll heightAll)

variable {α : Type}

/-- On a level, the walk for the node of `own` past the trees `before` compares the inner nodes of
both sides, goes on to the outer ones and finds the tree that is in the way. -/
structure Descent.Meets (k : Kinship) (before : List (Rose Nat)) (own : Rose Nat)
    (fallback depth : Nat) (d : Descent α) : Prop where
  leftInner : ∃ v, (levelAll before depth).getLast? = some v ∧ d.leftInner = some v
  rightInner : ∃ v, (own.level depth).head? = some v ∧ d.rightInner = some v
  leftOuter : ∃ v, (levelAll before depth).head? = some v ∧
    d.cells.nextLeft k d.leftOuter = some v
  rightOuter : ∃ v, (own.level depth).getLast? = some v ∧
    d.cells.nextRight k d.rightOuter = some v
  /-- The ancestor of the outer node on the right has been written by the time of the reading. -/
  owner : ∀ inner outer, d.leftInner = some inner → d.cells.nextRight k d.rightOuter = some outer →
    ∃ t ∈ before, inner ∈ t.preorder ∧
      (d.cells.alter outer fun c => { c with ancestor := own.label }).nextAncestor k own.label
        fallback inner = t.label ∧
      k.parent t.label = k.parent own.label ∧ k.place t.label < k.place own.label

variable [Scalar α]

/-- The walk for the node of `own` with the left neighbour `w` meets the edges of every level that
both sides have, and then it ends. -/
structure Cells.WalksEdges (k : Kinship) (separation : Nat → Nat → α) (entered : Cells α) (w : Nat)
    (before : List (Rose Nat)) (own : Rose Nat) (fallback : Nat) : Prop where
  meets : ∀ depth < min (heightAll before) own.height, ∃ d,
    stateAfter (Descent.step k separation own.label fallback) depth
      (.begin k entered own.label w) = some d ∧ d.Meets k before own fallback (depth + 1)
  ends : ∃ d, stateAfter (Descent.step k separation own.label fallback)
    (min (heightAll before) own.height) (.begin k entered own.label w) = some d ∧
      d.step k separation own.label fallback = none
  returns : ∃ joined, entered.apportion k separation own.label fallback = some joined

private theorem length_right_forest (separation : Nat → Nat → α) {rs : List (Rose Nat)}
    (hne : rs ≠ []) :
    (forest separation .empty rs).right.length = heightAll rs + 1 := by
  have inside : ∀ depth, depth < (forest separation .empty rs).right.length ↔
      depth ≤ heightAll rs := by
    intro depth
    have edge := congrArg Option.isSome ((edges_forest separation rs).right depth)
    rw [← Rose.levelAll_ne_nil_iff rs hne, ← List.isSome_head?, isSome_head?_eq,
      ← edge]
    simp
  have last := inside ((forest separation .empty rs).right.length - 1)
  have length := inside (forest separation .empty rs).right.length
  omega

private theorem length_left_under (separation : Nat → Nat → α) (v : Nat) (cs : List (Rose Nat)) :
    ((forest separation .empty cs).under v).left.length = (Rose.mk v cs).height := by
  have inside : ∀ depth, depth < ((forest separation .empty cs).under v).left.length ↔
      depth + 1 ≤ (Rose.mk v cs).height := by
    intro depth
    have edge := congrArg Option.isSome ((hasEdges_block separation (Rose.mk v cs)).left depth)
    rw [← Rose.level_ne_nil_iff, Rose.level_succ, ← List.isSome_head?, ← edge]
    simp [block]
  have last := inside (((forest separation .empty cs).under v).left.length - 1)
  have length := inside ((forest separation .empty cs).under v).left.length
  omega

namespace Cells.Awaits

variable {k : Kinship} {separation : Nat → Nat → α} {cells : Cells α} {p v w : Nat}
  {rs cs later : List (Rose Nat)}

private theorem meets_of_tracks (h : cells.Awaits k separation p rs v cs later) (hne : rs ≠ [])
    {top depth : Nat} {u : Stage α} {d : Descent α}
    (tracks : d.Tracks k (cells.enter k separation v) (rs.map Rose.label) v top u)
    (lies : u.Lies k (cells.enter k separation v) (rs.map Rose.label) v
      ((cells.enter k separation v).rowFallback k v))
    (descends : ((forest separation .empty rs).opening ((forest separation .empty rs).enter
      separation ((forest separation .empty cs).under v))).Descends separation
        (rs.map Rose.label).length depth u)
    (inRow : depth < heightAll rs) (inOwn : depth < (Rose.mk v cs).height) :
    d.Meets k rs (.mk v cs) ((cells.enter k separation v).rowFallback k v) (depth + 1) := by
  let entered : Cells α := cells.enter k separation v
  let f : Forest Nat α := forest separation .empty rs
  let b : Block Nat α := (forest separation .empty cs).under v
  have row : f.HasEdges rs := edges_forest separation rs
  have below : b.HasEdges cs := hasEdges_block separation (Rose.mk v cs)
  have rowLevel : levelAll rs (depth + 1) ≠ [] :=
    (Rose.levelAll_ne_nil_iff rs hne _).mpr inRow
  have ownLevel : (Rose.mk v cs).level (depth + 1) ≠ [] :=
    (Rose.level_ne_nil_iff _ _).mpr inOwn
  have atLeftInner : d.leftInner = (levelAll rs (depth + 1)).getLast? := by
    rw [tracks.leftInner.start_eq, descends.leftInner, ← row.right]
    simp [Forest.opening, List.head?_drop, Function.comp_def, f]
  have atLeftOuter : entered.nextLeft k d.leftOuter = (levelAll rs (depth + 1)).head? := by
    rw [tracks.leftOuter.start_eq, descends.leftOuter, ← row.left]
    simp [Forest.opening, List.head?_drop, f]
  have atRightInner : d.rightInner = ((Rose.mk v cs).level (depth + 1)).head? := by
    rw [tracks.rightInner.start_eq, descends.rightInner, Rose.level, ← below.left]
    simp [Forest.opening, List.head?_drop, b]
  have atRightOuter : entered.nextRight k d.rightOuter =
      ((Rose.mk v cs).level (depth + 1)).getLast? := by
    rw [tracks.rightOuter.start_eq, descends.rightOuter, Rose.level, ← below.right]
    simp [Forest.opening, List.head?_drop, b]
  constructor
  case leftInner =>
    have edge := List.getLast?_eq_getLast_of_ne_nil rowLevel
    exact ⟨_, edge, atLeftInner.trans edge⟩
  case rightInner =>
    have edge := List.head?_eq_some_head ownLevel
    exact ⟨_, edge, atRightInner.trans edge⟩
  case leftOuter =>
    have edge := List.head?_eq_some_head rowLevel
    rw [tracks.nextLeft_eq]
    exact ⟨_, edge, atLeftOuter.trans edge⟩
  case rightOuter =>
    have edge := List.getLast?_eq_getLast_of_ne_nil ownLevel
    rw [tracks.nextRight_eq]
    exact ⟨_, edge, atRightOuter.trans edge⟩
  case owner =>
    intro inner outer hinner houter
    rw [tracks.leftInner.start_eq] at hinner
    rw [tracks.nextRight_eq, tracks.rightOuter.start_eq] at houter
    obtain ⟨n, hn, rfl⟩ := Option.map_eq_some_iff.mp houter
    rw [List.head?_map, Option.map_map] at hinner
    obtain ⟨m, hm, rfl⟩ := Option.map_eq_some_iff.mp hinner
    have hm := List.mem_of_head? hm
    have hn := List.mem_of_head? hn
    have listed : m ∈ f.right := by
      rw [descends.leftInner] at hm
      exact List.mem_of_mem_tail (List.mem_of_mem_drop hm)
    obtain ⟨t, ht, inside⟩ := row.owner m listed
    have top := lies.owner m hm
    rw [List.getElem?_map, ht, Option.map_some, Option.some.injEq] at top
    have sibling := h.place_eq m.1 t.label (by
      rw [List.getElem?_append_left (by simpa using (List.getElem?_eq_some_iff.mp ht).1),
        List.getElem?_map, ht, Option.map_some])
    have own := h.place_eq rs.length v (by simp)
    refine ⟨t, List.mem_of_getElem? ht, inside, ?_, ?_, ?_⟩
    · rw [top]
      exact tracks.nextAncestor_marked lies hm hn
    · rw [sibling.1, Rose.label_mk, own.1]
    · rw [sibling.2, Rose.label_mk, own.2]
      exact (List.getElem?_eq_some_iff.mp ht).1

private theorem walksEdges (h : cells.Awaits k separation p rs v cs later)
    (hw : rs.getLast?.map Rose.label = some w) :
    (cells.enter k separation v).WalksEdges k separation w rs (.mk v cs)
      ((cells.enter k separation v).rowFallback k v) := by
  have hne : rs ≠ [] := by
    rintro rfl
    simp at hw
  obtain ⟨top, htop⟩ : ∃ top, rs.head?.map Rose.label = some top := by
    obtain ⟨r, rest, rfl⟩ := List.exists_cons_of_ne_nil hne
    exact ⟨r.label, rfl⟩
  let f : Forest Nat α := forest separation .empty rs
  let b : Block Nat α := (forest separation .empty cs).under v
  have content : (f.enter separation b).content = b := Forest.content_enter _ _
  have row : f.HasEdges rs := edges_forest separation rs
  have below : b.HasEdges cs := hasEdges_block separation (Rose.mk v cs)
  have tracks := h.tracks hw htop
  have lies := h.lies hne
  have leftInner : (f.opening (f.enter separation b)).leftInner.length = heightAll rs := by
    rw [Forest.opening, List.length_tail, length_right_forest separation hne, Nat.add_sub_cancel]
  have rightInner : (f.opening (f.enter separation b)).rightInner.length =
      (Rose.mk v cs).height := by
    rw [Forest.opening, content, length_left_under]
  have left : (f.opening (f.enter separation b)).leftInner.length =
      (f.opening (f.enter separation b)).leftOuter.length := by
    rw [Forest.opening, List.length_tail, List.length_tail, row.length_left]
  have right : (f.opening (f.enter separation b)).rightInner.length =
      (f.opening (f.enter separation b)).rightOuter.length := by
    rw [Forest.opening, content]
    exact below.length_left
  constructor
  case meets =>
    intro depth hdepth
    rw [lt_min_iff] at hdepth
    obtain ⟨u, d, states, tracksNow, liesNow, descends⟩ :=
      tracks.after separation lies left right (leftInner ▸ hdepth.1.le) (rightInner ▸ hdepth.2.le)
    exact ⟨d, states, h.meets_of_tracks hne tracksNow liesNow descends hdepth.1 hdepth.2⟩
  case ends =>
    obtain ⟨u, d, states, ended, -, -, -⟩ := tracks.run separation lies left right
    rw [leftInner, rightInner] at states
    exact ⟨d, states, ended⟩
  case returns =>
    obtain ⟨visited, visit, -⟩ := h.exists_visit
    obtain ⟨joined, apportioned, -⟩ := Option.map_eq_some_iff.mp visit
    exact ⟨joined, apportioned⟩

end Cells.Awaits

/-- Every walk that is made while the nodes of a tree are placed, for whatever separation, meets on
each level that both sides have the edges of that level, finds the subtree that is in the way, and
ends below the last such level. -/
theorem walksEdges_of_previousSibling {ν : Type} (separation : Nat → Nat → α) (r : Rose ν)
    {earlier later : List Nat} {v w : Nat}
    (order : (Kinship.ofChildren r.childLists).postorder = some (earlier ++ v :: later))
    (sibling : (Kinship.ofChildren r.childLists).previousSibling v = some w) :
    ∃ p before own after reached,
      Rose.mk p (before ++ own :: after) ∈ (r.numberFrom 0).subtrees ∧ own.label = v ∧
      before.getLast?.map Rose.label = some w ∧
      earlier.foldlM (Cells.visit (Kinship.ofChildren r.childLists) separation) .start =
        some reached ∧
      (reached.enter (Kinship.ofChildren r.childLists) separation v).WalksEdges
        (Kinship.ofChildren r.childLists) separation w before own
        ((reached.enter (Kinship.ofChildren r.childLists) separation v).rowFallback
          (Kinship.ofChildren r.childLists) v) := by
  obtain ⟨placed, places⟩ := exists_places separation r
  rw [postorder_ofChildren, Option.some.injEq] at order
  obtain ⟨reached, p, before, cs, after, visited, waits, site⟩ :=
    places.awaits earlier v later order
  have previous := waits.previousSibling_eq.symm.trans sibling
  refine ⟨p, before, .mk v cs, after, reached, ?_, rfl, previous, visited,
    waits.walksEdges previous⟩
  rw [List.nil_append, List.append_nil, Rose.subtrees, Rose.subtreesAll, Rose.subtreesAll,
    List.append_nil, List.mem_cons] at site
  rcases site with virtual | site
  · -- The virtual node has one child, which has no left neighbour.
    obtain ⟨-, single⟩ := Rose.mk.inj virtual
    have first : before = [] := by
      rcases before with _ | ⟨b, before⟩
      · rfl
      · simp at single
    simp [first] at previous
  · exact site

/-- A root above two nodes which have a child each. -/
def forked : Rose Unit := .mk () [.mk () [.mk () []], .mk () [.mk () []]]

/-- The second child of the root walks past the first one, even with separations below zero. -/
theorem walksEdges_forked :
    (Kinship.ofChildren forked.childLists).postorder = some ([2, 1, 4] ++ 3 :: [0]) ∧
    (Kinship.ofChildren forked.childLists).previousSibling 3 = some 1 ∧
    ∃ p before own after reached,
      Rose.mk p (before ++ own :: after) ∈ (forked.numberFrom 0).subtrees ∧ own.label = 3 ∧
      before.getLast?.map Rose.label = some 1 ∧
      [2, 1, 4].foldlM (Cells.visit (Kinship.ofChildren forked.childLists) fun _ _ => (-1 : Rat))
        .start = some reached ∧
      (reached.enter (Kinship.ofChildren forked.childLists) (fun _ _ => -1) 3).WalksEdges
        (Kinship.ofChildren forked.childLists) (fun _ _ => -1) 1 before own
        ((reached.enter (Kinship.ofChildren forked.childLists) (fun _ _ => -1) 3).rowFallback
          (Kinship.ofChildren forked.childLists) 3) := by
  have order : (Kinship.ofChildren forked.childLists).postorder = some ([2, 1, 4] ++ 3 :: [0]) := by
    decide +kernel
  have sibling : (Kinship.ofChildren forked.childLists).previousSibling 3 = some 1 := by
    decide +kernel
  exact ⟨order, sibling, walksEdges_of_previousSibling (fun _ _ => (-1 : Rat)) forked order sibling⟩

end TidyTree.Placement
