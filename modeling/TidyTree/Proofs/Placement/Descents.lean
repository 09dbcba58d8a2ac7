import TidyTree.Proofs.Placement.Tracing

set_option autoImplicit false
set_option relaxedAutoImplicit false

/-!
# Walks by threads

A walk down the cells takes the same levels as the walk down the contours that they trace: on every
level it meets the same nodes, finds the same overlap and makes the same move. What it writes on the
way, marks and ancestors, does not change what the contours are.
-/

namespace TidyTree.Placement

variable {α : Type}

/-- Where a walk down the contours stands: the row by now, what is left of the contours, and the
nodes of the outer ones that have been passed. -/
structure Stage (α : Type) where
  row : List (Slot (Block Nat α) α)
  sums : Sums α
  leftInner : List (Nat × Knot Nat α)
  leftOuter : List (Knot Nat α)
  rightInner : List (Knot Nat α)
  rightOuter : List (Knot Nat α)
  leftPassed : List Nat
  rightPassed : List Nat

/-- The surroundings of a walk for the node `v`, with the nodes `tops` on its left. -/
structure Stage.Lies (k : Kinship) (cells : Cells α) (tops : List Nat) (v fallback : Nat)
    (t : Stage α) : Prop where
  once : (tops ++ [v]).Nodup
  place : ∀ i u, (tops ++ [v])[i]? = some u → k.place u = i
  labels : t.row.map (·.content.label) = tops ++ [v]
  owner : ∀ m ∈ t.leftInner, tops[m.1]? = some (cells.nextAncestor k v fallback m.2.label)
  leftInner : ∀ m ∈ t.leftInner, m.2.label ≠ v ∧ m.2.label ∉ t.rightPassed ∧
    ∀ n ∈ t.rightOuter, m.2.label ≠ n.label
  leftOuter : ∀ n ∈ t.leftOuter, n.label ≠ v
  rightInner : ∀ n ∈ t.rightInner, n.label ≠ v
  rightOuter : ∀ n ∈ t.rightOuter, n.label ≠ v

/-- A walk down the cells stands where one down the contours does. It has begun with other cells,
`start`, and has changed no more than is said. -/
structure Descent.Tracks (k : Kinship) (start : Cells α) (tops : List Nat) (v top : Nat)
    (t : Stage α) (d : Descent α) : Prop where
  sums : d.sums = t.sums
  leftInner : Cells.Traces (start.nextRight k) start d.leftInner (t.leftInner.map (·.2))
  leftOuter : Cells.Traces (start.nextLeft k) start (start.nextLeft k d.leftOuter) t.leftOuter
  rightInner : Cells.Traces (start.nextLeft k) start d.rightInner t.rightInner
  rightOuter : Cells.Traces (start.nextRight k) start (start.nextRight k d.rightOuter) t.rightOuter
  leftEnd : (top :: t.leftPassed).getLast? = some d.leftOuter
  rightEnd : (v :: t.rightPassed).getLast? = some d.rightOuter
  thread : ∀ u, (d.cells u).thread = (start u).thread
  fallback : ∀ u, (d.cells u).fallback = (start u).fallback
  ancestor : ∀ u, (d.cells u).ancestor = if u ∈ t.rightPassed then v else (start u).ancestor
  knot : ∀ u, u ≠ v → d.cells.knot u = start.knot u
  marks : ∀ u, u ≠ v → u ∉ tops →
    (d.cells u).change = (start u).change ∧ (d.cells u).shift = (start u).shift
  stands : ∀ s ∈ t.row, d.cells.Stands k s
  own : ∀ s, t.row.getLast? = some s → d.cells.knot v = s.knot

theorem Descent.Tracks.nextLeft_eq {k : Kinship} {start : Cells α} {tops : List Nat} {v top : Nat}
    {t : Stage α} {d : Descent α} (h : d.Tracks k start tops v top t) :
    d.cells.nextLeft k = start.nextLeft k := by
  funext u
  rw [Cells.nextLeft, Cells.nextLeft, h.thread]

theorem Descent.Tracks.nextRight_eq {k : Kinship} {start : Cells α} {tops : List Nat} {v top : Nat}
    {t : Stage α} {d : Descent α} (h : d.Tracks k start tops v top t) :
    d.cells.nextRight k = start.nextRight k := by
  funext u
  rw [Cells.nextRight, Cells.nextRight, h.thread]

theorem Descent.Tracks.eq_of_aside {k : Kinship} {start : Cells α} {tops : List Nat} {v top : Nat}
    {t : Stage α} {d : Descent α} (h : d.Tracks k start tops v top t) {u : Nat} (hu : u ≠ v)
    (aside : u ∉ tops) (unpassed : u ∉ t.rightPassed) : d.cells u = start u := by
  have knot := h.knot u hu
  rw [Cells.knot, Cells.knot, Knot.mk.injEq] at knot
  have ancestor := h.ancestor u
  rw [if_neg unpassed] at ancestor
  have marks := h.marks u hu aside
  exact Cell.ext knot.2.1 knot.2.2 marks.1 marks.2 (h.thread u) ancestor (h.fallback u)

theorem Descent.Tracks.nextAncestor_marked {k : Kinship} {start : Cells α} {tops : List Nat}
    {v top fallback : Nat} {t : Stage α} {d : Descent α} (h : d.Tracks k start tops v top t)
    (lies : t.Lies k start tops v fallback) {m : Nat × Knot Nat α} {n : Knot Nat α}
    (hm : m ∈ t.leftInner) (hn : n ∈ t.rightOuter) :
    (d.cells.alter n.label fun c => { c with ancestor := v }).nextAncestor k v fallback m.2.label =
      start.nextAncestor k v fallback m.2.label := by
  obtain ⟨-, unpassed, below⟩ := lies.leftInner m hm
  have same : ((d.cells.alter n.label fun c => { c with ancestor := v }) m.2.label).ancestor =
      (start m.2.label).ancestor := by
    rw [Cells.alter_of_ne _ _ (below n hn), h.ancestor, if_neg unpassed]
  rw [Cells.nextAncestor, Cells.nextAncestor, same]

private theorem Stage.Lies.exists_concat {k : Kinship} {start : Cells α} {tops : List Nat}
    {v fallback : Nat} {t : Stage α} (h : t.Lies k start tops v fallback) :
    ∃ front s, t.row = front ++ [s] ∧ front.map (·.content.label) = tops ∧ s.content.label = v := by
  have labels := h.labels
  rw [List.map_eq_append_iff] at labels
  obtain ⟨front, back, row, hfront, hback⟩ := labels
  obtain ⟨s, rest, rfl, label, hrest⟩ := List.map_eq_cons_iff.mp hback
  obtain rfl : rest = [] := List.map_eq_nil_iff.mp hrest
  exact ⟨front, s, row, hfront, label⟩

variable [Scalar α]

private def Stage.next (separation : Nat → Nat → α) (mover : Nat) (t : Stage α)
    (li : Nat × Knot Nat α) (lo ri ro : Knot Nat α) : Stage α :=
  let distance := overlap separation t.sums li.2 ri
  { row := if 0 < distance then move t.row li.1 mover distance else t.row
    sums := (if 0 < distance then t.sums.push distance else t.sums).descend li.2 lo ri ro
    leftInner := t.leftInner.tail
    leftOuter := t.leftOuter.tail
    rightInner := t.rightInner.tail
    rightOuter := t.rightOuter.tail
    leftPassed := t.leftPassed ++ [lo.label]
    rightPassed := t.rightPassed ++ [ro.label] }

/-- What the rest of the walk comes to: the row, the sums, and what is left of the contours. -/
def Stage.outcome (separation : Nat → Nat → α) (mover : Nat) (t : Stage α) :
    List (Slot (Block Nat α) α) × Sums α × List (Nat × Knot Nat α) × List (Knot Nat α) :=
  let w := walk separation t.sums t.leftInner t.leftOuter t.rightInner t.rightOuter
  (w.moves.foldl (fun row m => move row m.1 mover m.2) t.row, w.sums, w.leftRest, w.rightRest)

private theorem Stage.outcome_next (separation : Nat → Nat → α) (mover : Nat) {t : Stage α}
    {li : Nat × Knot Nat α} {lo ri ro : Knot Nat α} {lis : List (Nat × Knot Nat α)}
    {los ris ros : List (Knot Nat α)} (hli : t.leftInner = li :: lis)
    (hlo : t.leftOuter = lo :: los) (hri : t.rightInner = ri :: ris) (hro : t.rightOuter = ro :: ros) :
    (t.next separation mover li lo ri ro).outcome separation mover =
      t.outcome separation mover := by
  obtain ⟨owner, li⟩ := li
  simp only [outcome, next, hli, hlo, hri, hro, List.tail_cons, walk]
  by_cases far : 0 < overlap separation t.sums li ri
  · simp only [far, if_true, List.foldl_cons]
  · simp only [far, if_false]

private theorem labels_move (row : List (Slot (Block Nat α) α)) (blocker mover : Nat)
    (distance : α) :
    (move row blocker mover distance).map (·.content.label) = row.map (·.content.label) := by
  have contents := congrArg (List.map Block.label) (map_content_move row blocker mover distance)
  rwa [List.map_map, List.map_map] at contents

section Step

variable {k : Kinship} {start : Cells α} {tops : List Nat} {v top fallback : Nat} {t : Stage α}
  {d : Descent α} {li : Nat × Knot Nat α} {lo ri ro : Knot Nat α} {lis : List (Nat × Knot Nat α)}
  {los ris ros : List (Knot Nat α)}

private theorem Stage.Lies.next (h : t.Lies k start tops v fallback) (separation : Nat → Nat → α)
    (hro : t.rightOuter = ro :: ros) :
    (t.next separation tops.length li lo ri ro).Lies k start tops v fallback := by
  constructor
  case once => exact h.once
  case place => exact h.place
  case labels =>
    rw [← h.labels]
    dsimp only [Stage.next]
    split
    · exact labels_move _ _ _ _
    · rfl
  case owner =>
    intro m hm
    exact h.owner m (List.mem_of_mem_tail hm)
  case leftInner =>
    intro m hm
    obtain ⟨other, unpassed, below⟩ := h.leftInner m (List.mem_of_mem_tail hm)
    refine ⟨other, ?_, fun n hn => below n (List.mem_of_mem_tail hn)⟩
    have first : m.2.label ≠ ro.label := below ro (hro ▸ List.mem_cons_self)
    simpa [Stage.next] using ⟨unpassed, first⟩
  case leftOuter => exact fun n hn => h.leftOuter n (List.mem_of_mem_tail hn)
  case rightInner => exact fun n hn => h.rightInner n (List.mem_of_mem_tail hn)
  case rightOuter => exact fun n hn => h.rightOuter n (List.mem_of_mem_tail hn)

private theorem Stage.Lies.push (h : t.Lies k start tops v fallback) {cells : Cells α}
    (stands : ∀ s ∈ t.row, cells.Stands k s)
    (own : ∀ s, t.row.getLast? = some s → cells.knot v = s.knot) {owner blocker : Nat}
    (hblocker : tops[owner]? = some blocker) (distance : α) :
    (∀ s ∈ move t.row owner tops.length distance,
        (cells.push k blocker v distance).Stands k s) ∧
      (∀ s, (move t.row owner tops.length distance).getLast? = some s →
        (cells.push k blocker v distance).knot v = s.knot) := by
  obtain ⟨front, s, row, rfl, rfl⟩ := h.exists_concat
  have inside : owner < front.length := by
    simpa using (List.getElem?_eq_some_iff.mp hblocker).1
  have frontOnce := h.once
  rw [List.nodup_append] at frontOnce
  obtain ⟨once, -, aside⟩ := frontOnce
  have blockerMem : blocker ∈ front.map (·.content.label) := List.mem_of_getElem? hblocker
  have blockerNe : s.content.label ≠ blocker :=
    (aside blocker blockerMem _ (List.mem_singleton_self _)).symm
  have blockerPlace : k.place blocker = owner :=
    h.place owner blocker (by rw [List.getElem?_append_left (by simpa using inside), hblocker])
  have ownPlace : k.place s.content.label = front.length :=
    h.place _ _ (by simp)
  have gap : ¬ front.length - owner = 0 := by omega
  rw [row, List.length_map, move_concat front s inside]
  simp only [Cells.push, blockerPlace, ownPlace, gap, if_false]
  generalize distance / ((front.length - owner : Nat) : α) = share
  have frontStands : ∀ u ∈ front, (cells.alter s.content.label fun c =>
      { c with
        coordinate := c.coordinate + distance
        offset := c.offset + distance
        change := c.change - share
        shift := c.shift + distance }).Stands k u := by
    intro u hu
    have other : u.content.label ≠ s.content.label :=
      aside _ (List.mem_map_of_mem hu) _ (List.mem_singleton_self _)
    obtain ⟨coordinate, offset, change, shift⟩ := stands u (row ▸ List.mem_append_left _ hu)
    refine ⟨?_, ?_, ?_, ?_⟩ <;> rwa [Cells.alter_of_ne _ _ other]
  obtain ⟨u, hu, label⟩ : ∃ u, front[owner]? = some u ∧ u.content.label = blocker := by
    rw [List.getElem?_map, Option.map_eq_some_iff] at hblocker
    exact hblocker
  constructor
  · intro r hr
    rcases List.mem_append.mp hr with hr | hr
    · subst label
      refine Cells.Stands.modify once frontStands hu rfl ?_ r hr
      obtain ⟨coordinate, offset, change, shift⟩ := frontStands u (List.mem_of_getElem? hu)
      constructor
      · rw [Slot.blocked, Cells.alter_self]; exact coordinate
      · rw [Slot.blocked, Cells.alter_self]; exact offset
      · rw [Slot.blocked, Cells.alter_self]; exact congrArg (· + share) change
      · rw [Slot.blocked, Cells.alter_self]; exact shift
    · obtain rfl := List.mem_singleton.mp hr
      obtain ⟨coordinate, offset, change, shift⟩ :=
        stands s (row ▸ List.mem_append_right _ (List.mem_singleton_self _))
      constructor <;> rw [Slot.moved, Cells.alter_of_ne _ _ blockerNe, Cells.alter_self]
      · exact congrArg (· + distance) coordinate
      · exact fun inner => congrArg (· + distance) (offset inner)
      · exact congrArg (· - share) change
      · exact congrArg (· + distance) shift
  · intro r hr
    rw [List.getLast?_concat, Option.some.injEq] at hr
    subst hr
    have before := own s (by rw [row, List.getLast?_concat])
    rw [Cells.knot, Slot.knot, Knot.mk.injEq] at before
    rw [Cells.knot, Slot.knot, Cells.alter_of_ne _ _ blockerNe, Cells.alter_self, Slot.moved,
      before.2.1, before.2.2]

private theorem Cells.field_push {β : Type} {field : Cell α → β}
    (kept : ∀ (c : Cell α) (x y m z : α),
      field { c with coordinate := x, offset := y, change := m, shift := z } = field c)
    (k : Kinship) (cells : Cells α) (blocker mover : Nat) (distance : α) (u : Nat) :
    field (cells.push k blocker mover distance u) = field (cells u) := by
  rw [Cells.push]
  exact (field_alter field (fun c => kept c _ _ _ _) _ _ _).trans
    (field_alter field (fun c => kept c _ _ _ _) _ _ _)

private theorem Cells.knot_push (k : Kinship) (cells : Cells α) (blocker : Nat) {mover u : Nat}
    (h : u ≠ mover) (distance : α) :
    (cells.push k blocker mover distance).knot u = cells.knot u := by
  rw [Cells.push, knot_alter, knot, knot, alter_of_ne _ _ h]
  intro c
  exact ⟨rfl, rfl⟩

section Compare

variable (k : Kinship) (separation : Nat → Nat → α) (v fallback : Nat) (cells : Cells α)
  (sums : Sums α) (leftInner rightInner : Nat)

private theorem Descent.field_compare {β : Type} (field : Cell α → β)
    (kept : ∀ (c : Cell α) (x y m z : α),
      field { c with coordinate := x, offset := y, change := m, shift := z } = field c) (u : Nat) :
    field ((compare k separation v fallback cells sums leftInner rightInner).1 u) =
      field (cells u) := by
  dsimp only [compare]
  split
  · exact Cells.field_push kept _ _ _ _ _ _
  · rfl

variable {u : Nat}

private theorem Descent.knot_compare (h : u ≠ v) :
    (compare k separation v fallback cells sums leftInner rightInner).1.knot u = cells.knot u := by
  dsimp only [compare]
  split
  · exact Cells.knot_push k cells _ h _
  · rfl

private theorem Descent.compare_of_ne (h : u ≠ v)
    (other : u ≠ cells.nextAncestor k v fallback leftInner) :
    (compare k separation v fallback cells sums leftInner rightInner).1 u = cells u := by
  dsimp only [compare]
  split
  · rw [Cells.push, Cells.alter_of_ne _ _ other, Cells.alter_of_ne _ _ h]
  · rfl

end Compare

private theorem Stage.Lies.compare (lies : t.Lies k start tops v fallback)
    (separation : Nat → Nat → α) (lo ro : Knot Nat α) {cells : Cells α}
    (left : cells.knot li.2.label = li.2) (right : cells.knot ri.label = ri)
    (owner : tops[li.1]? = some (cells.nextAncestor k v fallback li.2.label))
    (stands : ∀ s ∈ t.row, cells.Stands k s)
    (own : ∀ s, t.row.getLast? = some s → cells.knot v = s.knot) :
    let compared :=
      Descent.compare k separation v fallback cells t.sums li.2.label ri.label
    compared.2.descend li.2 lo ri ro = (t.next separation tops.length li lo ri ro).sums ∧
      (∀ s ∈ (t.next separation tops.length li lo ri ro).row, compared.1.Stands k s) ∧
      ∀ s, (t.next separation tops.length li lo ri ro).row.getLast? = some s →
        compared.1.knot v = s.knot := by
  dsimp only [Descent.compare, Stage.next]
  rw [left, right]
  split
  · exact ⟨rfl, lies.push stands own owner _⟩
  · exact ⟨rfl, stands, own⟩

private def Descent.below (k : Kinship) (separation : Nat → Nat → α) (v fallback : Nat)
    (d : Descent α) (leftInner leftOuter rightInner rightOuter : Nat) : Descent α :=
  let marked := d.cells.alter rightOuter fun c => { c with ancestor := v }
  let (cells, sums) := compare k separation v fallback marked d.sums leftInner rightInner
  { cells := cells
    sums := sums.descend (cells.knot leftInner) (cells.knot leftOuter) (cells.knot rightInner)
      (cells.knot rightOuter)
    leftInner := cells.nextRight k leftInner
    rightInner := cells.nextLeft k rightInner
    leftOuter := leftOuter
    rightOuter := rightOuter }

section Below

variable (separation : Nat → Nat → α) (v fallback : Nat) (d : Descent α)
  (leftInner leftOuter rightInner rightOuter : Nat)

private theorem Descent.step_eq_below {leftInner leftOuter rightInner rightOuter : Nat}
    (hli : d.leftInner = some leftInner) (hri : d.rightInner = some rightInner)
    (hlo : d.cells.nextLeft k d.leftOuter = some leftOuter)
    (hro : d.cells.nextRight k d.rightOuter = some rightOuter) :
    d.step k separation v fallback =
      some (d.below k separation v fallback leftInner leftOuter rightInner rightOuter) := by
  rw [Descent.step, hli, hri]
  simp only [hlo, hro, Option.getD_some]
  rfl

private theorem Descent.thread_below (u : Nat) :
    ((d.below k separation v fallback leftInner leftOuter rightInner rightOuter).cells u).thread =
      (d.cells u).thread :=
  (field_compare _ _ _ _ _ _ _ _ Cell.thread (fun _ _ _ _ _ => rfl) u).trans
    (Cells.field_alter Cell.thread (f := fun c => { c with ancestor := v }) (fun _ => rfl) _ _ _)

private theorem Descent.fallback_below (u : Nat) :
    ((d.below k separation v fallback leftInner leftOuter rightInner rightOuter).cells u).fallback =
      (d.cells u).fallback :=
  (field_compare _ _ _ _ _ _ _ _ Cell.fallback (fun _ _ _ _ _ => rfl) u).trans
    (Cells.field_alter Cell.fallback (f := fun c => { c with ancestor := v }) (fun _ => rfl) _ _ _)

private theorem Descent.ancestor_below (u : Nat) :
    ((d.below k separation v fallback leftInner leftOuter rightInner rightOuter).cells u).ancestor =
      if u = rightOuter then v else (d.cells u).ancestor := by
  refine (field_compare _ _ _ _ _ _ _ _ Cell.ancestor (fun _ _ _ _ _ => rfl) u).trans ?_
  split
  · next here => rw [here, Cells.alter_self]
  · next other => rw [Cells.alter_of_ne _ _ other]

private theorem Descent.knot_below {u : Nat} (hu : u ≠ v) :
    (d.below k separation v fallback leftInner leftOuter rightInner rightOuter).cells.knot u =
      d.cells.knot u := by
  refine (knot_compare _ _ _ _ _ _ _ _ hu).trans (Cells.AgreeInDrawing.knot_eq ?_ u)
  exact .alter _ _ fun _ => rfl

private theorem Descent.marks_below {u : Nat} (hu : u ≠ v)
    (other : u ≠ (d.cells.alter rightOuter fun c => { c with ancestor := v }).nextAncestor k v
      fallback leftInner) :
    let below := d.below k separation v fallback leftInner leftOuter rightInner rightOuter
    (below.cells u).change = (d.cells u).change ∧ (below.cells u).shift = (d.cells u).shift := by
  intro below
  have kept : below.cells u = (d.cells.alter rightOuter fun c => { c with ancestor := v }) u :=
    compare_of_ne _ _ _ _ _ _ _ _ hu other
  rw [kept]
  exact ⟨Cells.field_alter Cell.change (f := fun c => { c with ancestor := v }) (fun _ => rfl) _ _ _,
    Cells.field_alter Cell.shift (f := fun c => { c with ancestor := v }) (fun _ => rfl) _ _ _⟩

end Below

private theorem Descent.Tracks.step (h : d.Tracks k start tops v top t)
    (lies : t.Lies k start tops v fallback) (separation : Nat → Nat → α)
    (hli : t.leftInner = li :: lis) (hlo : t.leftOuter = lo :: los)
    (hri : t.rightInner = ri :: ris) (hro : t.rightOuter = ro :: ros) :
    ∃ d', d.step k separation v fallback = some d' ∧
      d'.Tracks k start tops v top (t.next separation tops.length li lo ri ro) := by
  obtain ⟨atLeftInner, knotLeftInner, belowLeftInner⟩ := List.map_cons ▸ hli ▸ h.leftInner
  obtain ⟨atLeftOuter, knotLeftOuter, belowLeftOuter⟩ := hlo ▸ h.leftOuter
  obtain ⟨atRightInner, knotRightInner, belowRightInner⟩ := hri ▸ h.rightInner
  obtain ⟨atRightOuter, knotRightOuter, belowRightOuter⟩ := hro ▸ h.rightOuter
  have liNe : li.2.label ≠ v := (lies.leftInner li (hli ▸ List.mem_cons_self)).1
  have loNe : lo.label ≠ v := lies.leftOuter lo (hlo ▸ List.mem_cons_self)
  have riNe : ri.label ≠ v := lies.rightInner ri (hri ▸ List.mem_cons_self)
  have roNe : ro.label ≠ v := lies.rightOuter ro (hro ▸ List.mem_cons_self)
  let below := d.below k separation v fallback li.2.label lo.label ri.label ro.label
  have knots : ∀ u, u ≠ v → below.cells.knot u = start.knot u := fun u hu =>
    (d.knot_below separation v fallback _ _ _ _ hu).trans (h.knot u hu)
  have threads : ∀ u, (below.cells u).thread = (start u).thread := fun u =>
    (d.thread_below separation v fallback _ _ _ _ u).trans (h.thread u)
  have nextRight : below.cells.nextRight k = start.nextRight k := by
    funext u
    rw [Cells.nextRight, Cells.nextRight, threads]
  have nextLeft : below.cells.nextLeft k = start.nextLeft k := by
    funext u
    rw [Cells.nextLeft, Cells.nextLeft, threads]
  -- The level writes an ancestor first, and none that its own comparison reads.
  have owner := h.nextAncestor_marked lies (hli ▸ List.mem_cons_self : li ∈ t.leftInner)
    (hro ▸ List.mem_cons_self : ro ∈ t.rightOuter)
  have blocker := lies.owner li (hli ▸ List.mem_cons_self)
  have unmoved : Cells.AgreeInDrawing d.cells
      (d.cells.alter ro.label fun c => { c with ancestor := v }) := .alter _ _ fun _ => rfl
  obtain ⟨sums, stands, own⟩ := lies.compare separation lo ro
    ((unmoved.knot_eq _).trans ((h.knot _ liNe).trans knotLeftInner))
    ((unmoved.knot_eq _).trans ((h.knot _ riNe).trans knotRightInner)) (owner ▸ blocker)
    (fun s hs => unmoved.stands (h.stands s hs))
    (fun s hs => (unmoved.knot_eq v).trans (h.own s hs))
  rw [← h.sums] at sums stands own
  refine ⟨below, Descent.step_eq_below separation v fallback d atLeftInner atRightInner
    (by rw [h.nextLeft_eq, atLeftOuter]) (by rw [h.nextRight_eq, atRightOuter]), ?_⟩
  constructor
  case sums =>
    rw [← sums, ← knotLeftInner, ← knotLeftOuter, ← knotRightInner, ← knotRightOuter,
      ← knots _ liNe, ← knots _ loNe, ← knots _ riNe, ← knots _ roNe]
    rfl
  case leftInner =>
    change Cells.Traces _ _ (below.cells.nextRight k li.2.label) (t.leftInner.tail.map _)
    rw [nextRight, hli]
    exact belowLeftInner
  case leftOuter =>
    change Cells.Traces _ _ (start.nextLeft k lo.label) t.leftOuter.tail
    rw [hlo]
    exact belowLeftOuter
  case rightInner =>
    change Cells.Traces _ _ (below.cells.nextLeft k ri.label) t.rightInner.tail
    rw [nextLeft, hri]
    exact belowRightInner
  case rightOuter =>
    change Cells.Traces _ _ (start.nextRight k ro.label) t.rightOuter.tail
    rw [hro]
    exact belowRightOuter
  case leftEnd =>
    change (top :: (t.leftPassed ++ [lo.label])).getLast? = some lo.label
    rw [← List.cons_append, List.getLast?_concat]
  case rightEnd =>
    change (v :: (t.rightPassed ++ [ro.label])).getLast? = some ro.label
    rw [← List.cons_append, List.getLast?_concat]
  case thread => exact threads
  case fallback =>
    exact fun u => (d.fallback_below separation v fallback _ _ _ _ u).trans (h.fallback u)
  case ancestor =>
    intro u
    rw [ancestor_below, h.ancestor]
    by_cases here : u = ro.label <;> simp [Stage.next, here]
  case knot => exact knots
  case marks =>
    intro u hu aside
    have other : u ≠ start.nextAncestor k v fallback li.2.label := by
      rintro rfl
      exact aside (List.mem_of_getElem? blocker)
    obtain ⟨change, shift⟩ :=
      d.marks_below separation v fallback li.2.label lo.label ri.label ro.label hu (owner ▸ other)
    exact ⟨change.trans (h.marks u hu aside).1, shift.trans (h.marks u hu aside).2⟩
  case stands => exact stands
  case own => exact own

end Step

/-- The stage `u` lies some levels below the stage `t`, and the walks from both come to the same. -/
structure Stage.Descends (separation : Nat → Nat → α) (mover levels : Nat) (t u : Stage α) :
    Prop where
  outcome : u.outcome separation mover = t.outcome separation mover
  leftInner : u.leftInner = t.leftInner.drop levels
  leftOuter : u.leftOuter = t.leftOuter.drop levels
  rightInner : u.rightInner = t.rightInner.drop levels
  rightOuter : u.rightOuter = t.rightOuter.drop levels
  leftPassed : u.leftPassed = t.leftPassed ++ (t.leftOuter.take levels).map (·.label)
  rightPassed : u.rightPassed = t.rightPassed ++ (t.rightOuter.take levels).map (·.label)

section Run

variable {k : Kinship} {start : Cells α} {tops : List Nat} {v top fallback : Nat} {t : Stage α}
  {d : Descent α} (separation : Nat → Nat → α)

/-- As far as both inner contours go, the walk down the cells keeps to the contours. -/
theorem Descent.Tracks.after (h : d.Tracks k start tops v top t)
    (lies : t.Lies k start tops v fallback) (left : t.leftInner.length = t.leftOuter.length)
    (right : t.rightInner.length = t.rightOuter.length) {levels : Nat}
    (inLeft : levels ≤ t.leftInner.length) (inRight : levels ≤ t.rightInner.length) :
    ∃ u d', stateAfter (Descent.step k separation v fallback) levels d = some d' ∧
      d'.Tracks k start tops v top u ∧ u.Lies k start tops v fallback ∧
      t.Descends separation tops.length levels u := by
  induction levels generalizing t d with
  | zero =>
    refine ⟨t, d, rfl, h, lies, ?_⟩
    constructor <;> simp
  | succ levels ih =>
    obtain ⟨li, lis, hli⟩ := List.exists_cons_of_length_pos (Nat.zero_lt_of_lt inLeft)
    obtain ⟨ri, ris, hri⟩ := List.exists_cons_of_length_pos (Nat.zero_lt_of_lt inRight)
    obtain ⟨lo, los, hlo⟩ := List.exists_cons_of_length_pos (left ▸ Nat.zero_lt_of_lt inLeft)
    obtain ⟨ro, ros, hro⟩ := List.exists_cons_of_length_pos (right ▸ Nat.zero_lt_of_lt inRight)
    obtain ⟨reached, stepped, tracks⟩ := h.step lies separation hli hlo hri hro
    have below : (t.next separation tops.length li lo ri ro).Lies k start tops v fallback :=
      lies.next separation hro
    obtain ⟨u, d', states, tracksAfter, liesAfter, descends⟩ := ih tracks below
      (by simp only [Stage.next, List.length_tail, left])
      (by simp only [Stage.next, List.length_tail, right])
      (by simpa only [Stage.next, List.length_tail] using Nat.le_sub_one_of_lt inLeft)
      (by simpa only [Stage.next, List.length_tail] using Nat.le_sub_one_of_lt inRight)
    refine ⟨u, d', ?_, tracksAfter, liesAfter, ?_⟩
    · rw [stateAfter, stepped, Option.bind_some, states]
    · constructor
      case outcome =>
        rw [descends.outcome, Stage.outcome_next separation tops.length hli hlo hri hro]
      case leftInner =>
        rw [descends.leftInner, hli]
        simp only [Stage.next, hli, List.tail_cons, List.drop_succ_cons]
      case leftOuter =>
        rw [descends.leftOuter, hlo]
        simp only [Stage.next, hlo, List.tail_cons, List.drop_succ_cons]
      case rightInner =>
        rw [descends.rightInner, hri]
        simp only [Stage.next, hri, List.tail_cons, List.drop_succ_cons]
      case rightOuter =>
        rw [descends.rightOuter, hro]
        simp only [Stage.next, hro, List.tail_cons, List.drop_succ_cons]
      case leftPassed =>
        rw [descends.leftPassed, hlo]
        simp only [Stage.next, hlo, List.tail_cons, List.take_succ_cons, List.map_cons,
          List.append_assoc, List.singleton_append]
      case rightPassed =>
        rw [descends.rightPassed, hro]
        simp only [Stage.next, hro, List.tail_cons, List.take_succ_cons, List.map_cons,
          List.append_assoc, List.singleton_append]

private theorem Stage.outcome_of_ended (mover : Nat)
    (h : t.leftInner = [] ∨ t.rightInner = []) :
    t.outcome separation mover = (t.row, t.sums, t.leftInner, t.rightInner) := by
  rcases h with ended | ended
  · simp [outcome, ended, walk]
  · cases hleft : t.leftInner <;> simp [outcome, ended, hleft, walk]

/-- The walk ends where one of the inner contours does. -/
theorem Descent.Tracks.run (h : d.Tracks k start tops v top t)
    (lies : t.Lies k start tops v fallback) (left : t.leftInner.length = t.leftOuter.length)
    (right : t.rightInner.length = t.rightOuter.length) :
    ∃ u d', stateAfter (Descent.step k separation v fallback)
        (min t.leftInner.length t.rightInner.length) d = some d' ∧
      d'.step k separation v fallback = none ∧ d'.Tracks k start tops v top u ∧
      t.outcome separation tops.length = (u.row, u.sums, u.leftInner, u.rightInner) ∧
      t.Descends separation tops.length (min t.leftInner.length t.rightInner.length) u := by
  obtain ⟨u, d', states, tracks, -, descends⟩ := h.after separation lies left right
    (Nat.min_le_left _ _) (Nat.min_le_right _ _)
  have ended : u.leftInner = [] ∨ u.rightInner = [] := by
    rw [descends.leftInner, descends.rightInner, List.drop_eq_nil_iff, List.drop_eq_nil_iff]
    rcases Nat.le_total t.leftInner.length t.rightInner.length with shallow | deep
    · exact Or.inl (Nat.min_eq_left shallow).ge
    · exact Or.inr (Nat.min_eq_right deep).ge
  refine ⟨u, d', states, ?_, tracks, ?_, descends⟩
  · have leftInner := tracks.leftInner.start_eq
    have rightInner := tracks.rightInner.start_eq
    rw [Descent.step]
    rcases ended with ended | ended
    · rw [leftInner, ended]
      rfl
    · rw [rightInner, ended]
      cases d'.leftInner <;> rfl
  · rw [← descends.outcome, Stage.outcome_of_ended separation tops.length ended]

end Run

end TidyTree.Placement
