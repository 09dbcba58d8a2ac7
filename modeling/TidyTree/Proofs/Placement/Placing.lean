import TidyTree.Proofs.Placement.Joining

set_option autoImplicit false
set_option relaxedAutoImplicit false

/-!
# Placing a tree in memory

After a visit the cells stand for the forest with one more subtree. By induction on the tree, the
visits in post-order leave the cells of every tree standing for its drawing, and they touch no other
cells.
-/

namespace TidyTree.Placement

open Rose (preorderAll)

variable {α : Type} [Scalar α]

/-- The cells when the contours of the node `v` and of the row on its left have been joined. -/
structure Cells.Joins (k : Kinship) (separation : Nat → Nat → α) (cells : Cells α) (p : Nat)
    (rs : List (Rose Nat)) (v : Nat) (cs : List (Rose Nat)) (joined : Cells α) (fallback : Nat) :
    Prop where
  stands : ∀ s ∈ (forest separation .empty (rs ++ [Rose.mk v cs])).row, joined.Stands k s
  alike : ∀ x, x ≠ v → (cells.enter k separation v).DrawsAlike k joined x
  left : joined.Traces (joined.nextLeft k) ((rs ++ [Rose.mk v cs]).head?.map Rose.label)
    (forest separation .empty (rs ++ [Rose.mk v cs])).left
  right : joined.Traces (joined.nextRight k) (some v)
    ((forest separation .empty (rs ++ [Rose.mk v cs])).right.map (·.2))
  owner : ∀ m ∈ (forest separation .empty (rs ++ [Rose.mk v cs])).right, ∀ t,
    (rs ++ [Rose.mk v cs])[m.1]? = some t → joined.BelongsTo k p fallback t.label m.2.label
  ancestor : ∀ x, (joined x).ancestor = (cells x).ancestor ∨
    x ∈ preorderAll cs ∧ (joined x).ancestor = v
  others : ∀ x, x ∉ preorderAll (rs ++ [Rose.mk v cs]) → joined x = cells x

namespace Cells.Awaits

variable {k : Kinship} {separation : Nat → Nat → α} {cells : Cells α} {p v w top : Nat}
  {rs cs later : List (Rose Nat)} {u : Stage α} {d : Descent α}

private theorem preorderAll_concat (rs : List (Rose Nat)) (v : Nat) (cs : List (Rose Nat))
    (x : Nat) :
    x ∈ preorderAll (rs ++ [Rose.mk v cs]) ↔ x ∈ preorderAll rs ∨ x = v ∨ x ∈ preorderAll cs := by
  rw [Rose.preorderAll_append, preorderAll, preorderAll, Rose.preorder, List.append_nil,
    List.mem_append, List.mem_cons]

section Visit

variable (h : cells.Awaits k separation p rs v cs later)

include h

private theorem parent_ne {x : Nat} (hx : x ∈ preorderAll cs) : k.parent x ≠ p := by
  have member : Rose.mk v cs ∈ (Rose.mk p (rs ++ Rose.mk v cs :: later)).children := by simp
  have inside := (h.fits.of_mem member).parent_mem hx
  rintro rfl
  rw [Rose.preorder, List.mem_cons] at inside
  exact inside.elim h.apart.parent_own h.apart.parent_below

private theorem ancestor_below {x : Nat} (hx : x ∈ preorderAll cs) :
    (cells x).ancestor ∈ preorderAll cs := by
  rw [Rose.preorderAll_eq_flatMap, List.mem_flatMap] at hx
  obtain ⟨t, ht, hx⟩ := hx
  exact Rose.preorder_subset_preorderAll ht (h.below.inside t ht x hx)

private theorem ancestor_self : (cells v).ancestor = v := by
  rw [h.fresh]
  rfl

private theorem ancestor_enter (x : Nat) :
    (cells.enter k separation v x).ancestor = (cells x).ancestor := by
  rw [h.enter_unwritten]

private theorem belongsTo_self {joined : Cells α} {fallback x : Nat}
    (ancestor : (joined x).ancestor = (cells x).ancestor ∨ (joined x).ancestor = v)
    (own : x = v ∨ x ∈ preorderAll cs ∧ (fallback = v ∨ (joined x).ancestor = v)) :
    joined.BelongsTo k p fallback v x := by
  have parent := h.parent_eq
  have toOwn : (joined x).ancestor = v → joined.BelongsTo k p fallback v x := by
    intro same
    rw [Cells.BelongsTo, same, if_pos parent]
  rcases own with rfl | ⟨below, rfl | same⟩
  · apply toOwn
    rcases ancestor with kept | same
    · exact kept.trans h.ancestor_self
    · exact same
  · rcases ancestor with kept | same
    · have other := h.parent_ne (h.ancestor_below below)
      rw [Cells.BelongsTo, kept, if_neg other]
    · exact toOwn same
  · exact toOwn same

private theorem joins_first (first : rs = []) : cells.Joins k separation p rs v cs
    (cells.enter k separation v) v := by
  subst first
  let s : Slot (Block Nat α) α :=
    Forest.empty.enter separation ((forest separation .empty cs).under v)
  have label : s.content.label = v := label_enter _ _ _
  have knot : (cells.enter k separation v).knot v = s.knot := h.knot_enter
  have edges := hasEdges_block separation (Rose.mk v cs)
  obtain ⟨-, nextLeft, nextRight⟩ := h.next_enter
  have appended : forest separation .empty ([] ++ [Rose.mk v cs]) = ⟨[s],
      s.knot :: ((forest separation .empty cs).under v).left,
      (s.knot :: ((forest separation .empty cs).under v).right).map (0, ·)⟩ := rfl
  rw [List.nil_append] at appended
  constructor
  case stands =>
    intro r hr
    rw [List.nil_append, appended, List.mem_singleton] at hr
    subst hr
    exact h.stands_enter
  case alike => exact fun x _ => .of_eq rfl
  case left =>
    rw [List.nil_append, appended]
    refine ⟨congrArg some label.symm, (congrArg _ label).trans knot, ?_⟩
    rw [show s.knot.label = v from label, nextLeft]
    exact h.carries_enter.left
  case right =>
    rw [List.nil_append, appended, List.map_map,
      show (Prod.snd ∘ fun n : Knot Nat α => (0, n)) = id from rfl, List.map_id]
    refine ⟨congrArg some label.symm, (congrArg _ label).trans knot, ?_⟩
    rw [show s.knot.label = v from label, nextRight]
    exact h.carries_enter.right
  case owner =>
    intro m hm t ht
    rw [List.nil_append, appended] at hm
    obtain ⟨n, hn, rfl⟩ := List.mem_map.mp hm
    obtain rfl : Rose.mk v cs = t := by simpa using ht
    apply h.belongsTo_self (Or.inl (h.ancestor_enter _))
    rcases List.mem_cons.mp hn with rfl | hn
    · exact Or.inl label
    · exact Or.inr ⟨edges.goesDown_right.subset (List.mem_map_of_mem hn), Or.inl rfl⟩
  case ancestor => exact fun x => Or.inl (h.ancestor_enter x)
  case others =>
    intro x hx
    rw [List.nil_append, preorderAll, preorderAll, Rose.preorder, List.append_nil, List.mem_cons,
      not_or] at hx
    exact h.enter_of_not_mem hx.1 hx.2

section Later

variable (walked : Walked k separation cells rs v w top cs u d) (hne : rs ≠ [])

include walked

private theorem ancestor_walked (x : Nat) : (d.cells x).ancestor = (cells x).ancestor ∨
    x ∈ preorderAll cs ∧ (d.cells x).ancestor = v := by
  rw [walked.tracks.ancestor]
  by_cases passed : x ∈ u.rightPassed
  · exact Or.inr ⟨passed_subset walked passed, if_pos passed⟩
  · rw [if_neg passed]
    exact Or.inl (h.ancestor_enter x)

private theorem belongsTo_row {m : Nat × Knot Nat α} {t : Rose Nat} {joined : Cells α}
    (hm : m ∈ (forest separation .empty rs).right) (ht : rs[m.1]? = some t)
    (same : ∀ x, (joined x).ancestor = (d.cells x).ancestor) :
    joined.BelongsTo k p ((cells.enter k separation v).rowFallback k v) t.label m.2.label := by
  have inside : m.2.label ∈ preorderAll rs := by
    apply right_subset separation rs
    rw [List.map_map]
    exact List.mem_map_of_mem (f := fun m : Nat × Knot Nat α => m.2.label) hm
  have nonempty : rs ≠ [] := by
    rintro rfl
    simp at ht
  obtain ⟨x, hx, belongs⟩ := h.before_enter.owner nonempty
  have fallback : (cells.enter k separation v).rowFallback k v = x := by
    rw [Cells.rowFallback, h.parent_eq, hx]
    rfl
  have unpassed : m.2.label ∉ u.rightPassed := fun passed =>
    h.apart.row_below _ inside (passed_subset walked passed)
  have kept : (joined m.2.label).ancestor =
      (cells.enter k separation v m.2.label).ancestor := by
    rw [same, walked.tracks.ancestor, if_neg unpassed]
  rw [fallback, Cells.BelongsTo, kept]
  exact belongs m hm t ht

private theorem belongsTo_subtree {joined : Cells α} {fallback x : Nat}
    (same : ∀ y, (joined y).ancestor = (d.cells y).ancestor)
    (deep : u.rightInner = [] ∨ fallback = v)
    (hx : x ∈ (topKnot separation rs v cs u ::
      ((forest separation .empty cs).under v).right).map (·.label)) :
    joined.BelongsTo k p fallback v x := by
  have ancestor := h.ancestor_walked walked x
  rw [← same] at ancestor
  apply h.belongsTo_self (ancestor.imp_right And.right)
  rw [labels_subtree walked, List.mem_cons] at hx
  rcases hx with rfl | hx
  · exact Or.inl rfl
  · have below := (hasEdges_block separation (Rose.mk v cs)).goesDown_right.subset hx
    refine Or.inr ⟨below, deep.symm.imp_right fun shallow => ?_⟩
    rw [same, walked.tracks.ancestor, (passed_right walked shallow).2, if_pos hx]

private theorem belongsTo_joined (hne : rs ≠ []) {joined : Cells α} {fallback : Nat}
    (same : ∀ x, (joined x).ancestor = (d.cells x).ancestor)
    (deep : u.rightInner = [] ∨ fallback = v)
    (kept : u.leftInner ≠ [] → fallback = (cells.enter k separation v).rowFallback k v)
    {m : Nat × Knot Nat α} (hm : m ∈ (forest separation .empty (rs ++ [Rose.mk v cs])).right)
    {t : Rose Nat} (ht : (rs ++ [Rose.mk v cs])[m.1]? = some t) :
    joined.BelongsTo k p fallback t.label m.2.label := by
  have ofSubtree : ∀ n : Knot Nat α, n.label ∈ (topKnot separation rs v cs u ::
      ((forest separation .empty cs).under v).right).map (·.label) → m = (rs.length, n) →
        joined.BelongsTo k p fallback t.label m.2.label := by
    rintro n hn rfl
    obtain rfl : Rose.mk v cs = t := by simpa using ht
    exact h.belongsTo_subtree walked same deep hn
  rw [append_of_walked hne walked] at hm
  cases hrest : u.leftInner with
  | nil =>
    simp only [hrest, List.isEmpty_nil, if_true] at hm
    obtain ⟨n, hn, rfl⟩ := List.mem_map.mp hm
    exact ofSubtree n (List.mem_map_of_mem hn) rfl
  | cons l ls =>
    simp only [hrest, List.isEmpty_cons, Bool.false_eq_true, if_false] at hm
    rcases List.mem_append.mp hm with new | old
    · obtain ⟨n, hn, rfl⟩ := List.mem_map.mp new
      apply ofSubtree n _ rfl
      rw [← map_label_correctLast]
      exact List.mem_map_of_mem hn
    · have listed : m ∈ (forest separation .empty rs).right := by
        rw [← hrest, walked.leftInner] at old
        exact List.mem_of_mem_tail (List.mem_of_mem_drop old)
      obtain ⟨t', ht', -⟩ := (edges_forest separation rs).owner m listed
      rw [List.getElem?_append_left (List.getElem?_eq_some_iff.mp ht').1] at ht
      rw [kept (hrest ▸ List.cons_ne_nil l ls)]
      exact h.belongsTo_row walked listed ht same

private theorem joins_walked (htop : rs.head?.map Rose.label = some top) :
    cells.Joins k separation p rs v cs
      (d.finish k v ((cells.enter k separation v).rowFallback k v)).1
      (d.finish k v ((cells.enter k separation v).rowFallback k v)).2 := by
  have hne : rs ≠ [] := by
    rintro rfl
    exact absurd htop (by simp)
  obtain ⟨left, right, leaf, ties, leafOf⟩ := traces_finish h walked hne htop
    ((cells.enter k separation v).rowFallback k v)
  have cases := finish_cases walked ((cells.enter k separation v).rowFallback k v)
  generalize before : (cells.enter k separation v).rowFallback k v = fallback at *
  generalize hfinish : d.finish k v fallback = finished at *
  obtain ⟨joined, fallback'⟩ := finished
  dsimp only at left right ties ⊢
  constructor
  case stands =>
    intro s hs
    rw [append_of_walked hne walked] at hs
    exact ties.stands (walked.tracks.stands s hs)
  case alike =>
    intro x hx
    have knot := walked.tracks.knot x hx
    rw [Cells.knot, Cells.knot, Knot.mk.injEq] at knot
    refine ⟨?_, fun inner => ?_⟩
    · rw [ties.written]
      exact knot.2.1
    · rw [ties.untied inner]
      exact knot.2.2
  case left =>
    rw [List.head?_append_of_ne_nil _ hne]
    exact left
  case right => exact right
  case owner =>
    intro m hm t ht
    refine h.belongsTo_joined walked hne (fun x => by rw [ties.written]) ?_ ?_ hm ht
    · rcases cases with ⟨-, shallow, -⟩ | ⟨_, _, -, shallow, -⟩ | ⟨n, ns, -, -, -, finished⟩
      · exact Or.inl shallow
      · exact Or.inl shallow
      · exact Or.inr (Prod.mk.inj finished).2
    · intro deep
      rcases cases with ⟨ended, -⟩ | ⟨_, _, -, -, -, finished⟩ | ⟨n, ns, ended, -⟩
      · exact absurd ended deep
      · exact (Prod.mk.inj finished).2.trans before.symm
      · exact absurd ended deep
  case ancestor =>
    intro x
    rw [ties.written]
    exact h.ancestor_walked walked x
  case others =>
    intro x hx
    have listed := hx
    rw [preorderAll_concat, not_or, not_or] at hx
    have apart : joined x = d.cells x := by
      apply ties.others
      intro same
      exact listed (leafOf x same.symm)
    rw [apart, walked.tracks.eq_of_aside hx.2.1, h.enter_of_not_mem hx.2.1 hx.2.2]
    · exact fun top => hx.1 ((Rose.map_label_sublist rs).subset top)
    · exact fun passed => hx.2.2 (passed_subset walked passed)

end Later

private theorem reflects_of_joins {joined : Cells α} {fallback : Nat}
    (joins : cells.Joins k separation p rs v cs joined fallback) :
    (joined.alter p fun c => { c with fallback := some fallback }).Reflects k separation p
      (rs ++ [Rose.mk v cs]) := by
  let final : Cells α := joined.alter p fun c => { c with fallback := some fallback }
  have agree : Cells.AgreeInDrawing joined final := .alter _ _ fun _ => rfl
  have ancestor : ∀ x, (final x).ancestor = (joined x).ancestor := fun x =>
    Cells.field_alter Cell.ancestor (f := fun c => { c with fallback := some fallback })
      (fun _ => rfl) _ _ _
  have drawsAlike : ∀ x, x ≠ v → (cells.enter k separation v).DrawsAlike k final x := by
    intro x hx
    rw [Cells.DrawsAlike, agree]
    exact joins.alike x hx
  constructor
  case stands => exact fun s hs => agree.stands (joins.stands s hs)
  case draws =>
    intro s hs
    have content : s.content ∈ (forest separation .empty rs).row.map (·.content) ++
        [(forest separation .empty cs).under v] := by
      have contents := (forest separation .empty rs).contents_append separation
        (block separation (Rose.mk v cs))
      rw [← forest_concat] at contents
      rw [← show block separation (Rose.mk v cs) = (forest separation .empty cs).under v from rfl,
        ← contents]
      exact List.mem_map_of_mem hs
    rcases List.mem_append.mp content with old | new
    · obtain ⟨t, ht, same⟩ := List.mem_map.mp old
      rw [← same]
      refine (h.before_enter.draws t ht).congr fun x hx => drawsAlike x ?_
      rintro rfl
      exact h.apart.own_row (below_mem_of_row ht hx)
    · rw [List.mem_singleton.mp new]
      refine h.carries_enter.draws.congr fun x hx => drawsAlike x ?_
      rw [shown_under] at hx
      rintro rfl
      exact h.apart.own_below hx
  case left =>
    exact joins.left.congr fun x _ => ⟨congrFun agree.nextLeft_eq x, agree.knot_eq x⟩
  case right =>
    rw [List.getLast?_concat, Option.map_some]
    exact joins.right.congr fun x _ => ⟨congrFun agree.nextRight_eq x, agree.knot_eq x⟩
  case fresh => exact fun none => absurd none (by simp)
  case owner =>
    intro _
    refine ⟨fallback, congrArg Cell.fallback (Cells.alter_self _ _ _), fun m hm t ht => ?_⟩
    rw [Cells.BelongsTo, ancestor]
    exact joins.owner m hm t ht
  case inside =>
    intro t ht x hx
    rw [ancestor]
    rcases List.mem_append.mp ht with old | new
    · rcases joins.ancestor x with kept | ⟨below, own⟩
      · exact (congrArg (· ∈ t.preorder) kept).mpr (h.before.inside t old x hx)
      · exact absurd below (h.apart.row_below x
          (Rose.preorder_subset_preorderAll old hx))
    · obtain rfl := List.mem_singleton.mp new
      rcases joins.ancestor x with kept | ⟨-, own⟩
      · refine (congrArg (· ∈ (Rose.mk v cs).preorder) kept).mpr ?_
        rw [Rose.preorder, List.mem_cons] at hx ⊢
        rcases hx with rfl | hx
        · exact Or.inl h.ancestor_self
        · exact Or.inr (h.ancestor_below hx)
      · exact (congrArg (· ∈ (Rose.mk v cs).preorder) own).mpr (Rose.label_mem_preorder _)

/-- A visit comes to an end. It leaves the cells standing for the longer forest and touches no cells
outside of that, but for the fallback of the parent. -/
theorem exists_visit : ∃ visited, cells.visit k separation v = some visited ∧
    visited.Reflects k separation p (rs ++ [Rose.mk v cs]) ∧
    (∀ x, x ∉ preorderAll (rs ++ [Rose.mk v cs]) → x ≠ p → visited x = cells x) ∧
    visited p = { cells p with fallback := (visited p).fallback } := by
  have pAside : p ∉ preorderAll (rs ++ [Rose.mk v cs]) := by
    rw [preorderAll_concat, not_or, not_or]
    exact ⟨h.apart.parent_row, h.apart.parent_own, h.apart.parent_below⟩
  obtain ⟨joined, fallback, apportioned, joins⟩ : ∃ joined fallback,
      (cells.enter k separation v).apportion k separation v
        ((cells.enter k separation v).rowFallback k v) = some (joined, fallback) ∧
      cells.Joins k separation p rs v cs joined fallback := by
    rcases rs.eq_nil_or_concat' with first | ⟨front, last, split⟩
    · refine ⟨cells.enter k separation v, v, ?_, h.joins_first first⟩
      have noPrevious := h.previousSibling_eq
      have own : (cells.enter k separation v).rowFallback k v = v := by
        rw [Cells.rowFallback, h.parent_eq,
          h.enter_of_not_mem h.apart.parent_own h.apart.parent_below, h.before.fresh first,
          Option.getD_none, h.firstSibling_eq, first]
        rfl
      rw [first] at noPrevious
      simp only [Cells.apportion, noPrevious, List.getLast?_nil, Option.map_none, own]
    · have hw : rs.getLast?.map Rose.label = some last.label := by
        rw [split, List.getLast?_concat, Option.map_some]
      obtain ⟨top, htop⟩ : ∃ top, rs.head?.map Rose.label = some top := by
        cases hrs : rs with
        | nil => simp [hrs] at hw
        | cons r rs => exact ⟨r.label, rfl⟩
      obtain ⟨u, d, walked⟩ := h.exists_walked hw htop
      refine ⟨_, _, ?_, h.joins_walked walked htop⟩
      have previous := h.previousSibling_eq.trans hw
      simp only [Cells.apportion, previous, walked.last, Option.map_some]
  refine ⟨joined.alter p fun c => { c with fallback := some fallback }, ?_,
    h.reflects_of_joins joins, ?_, ?_⟩
  · simp only [Cells.visit, apportioned, Option.map_some, h.parent_eq]
  · intro x hx other
    rw [Cells.alter_of_ne _ _ other]
    exact joins.others x hx
  · rw [Cells.alter_self, joins.others p pAside]

end Visit

end Cells.Awaits

/-- The visits of `order` place the subtrees `cs` right of the subtrees `rs` below `p`. -/
structure Cells.Places (k : Kinship) (separation : Nat → Nat → α) (cells placed : Cells α) (p : Nat)
    (rs cs later : List (Rose Nat)) (order : List Nat) : Prop where
  visits : order.foldlM (Cells.visit k separation) cells = some placed
  reflects : placed.Reflects k separation p (rs ++ cs)
  others : ∀ x, x ∉ preorderAll (rs ++ cs) → x ≠ p → placed x = cells x
  parent : placed p = { cells p with fallback := (placed p).fallback }
  /-- Every visit comes when all before it in the tree have been made. -/
  awaits : ∀ before v after, order = before ++ v :: after → ∃ reached q qs ds qs',
    before.foldlM (Cells.visit k separation) cells = some reached ∧
      reached.Awaits k separation q qs v ds qs' ∧
      Rose.mk q (qs ++ Rose.mk v ds :: qs') ∈ (Rose.mk p (rs ++ cs ++ later)).subtrees

namespace Cells.Places

variable {k : Kinship} {separation : Nat → Nat → α} {cells placed more : Cells α} {p : Nat}
  {rs cs ds later : List (Rose Nat)} {order further : List Nat}

private theorem trans (first : Places k separation cells placed p rs cs (ds ++ later) order)
    (second : Places k separation placed more p (rs ++ cs) ds later further) :
    Places k separation cells more p rs (cs ++ ds) later (order ++ further) := by
  constructor
  case visits =>
    rw [List.foldlM_append, first.visits]
    exact second.visits
  case reflects =>
    rw [← List.append_assoc]
    exact second.reflects
  case others =>
    intro x hx other
    rw [← List.append_assoc] at hx
    have aside : x ∉ preorderAll (rs ++ cs) := by
      rw [Rose.preorderAll_append, List.mem_append, not_or] at hx
      exact hx.1
    rw [second.others x hx other, first.others x aside other]
  case parent => rw [second.parent, first.parent]
  case awaits =>
    intro before v after split
    have inFurther : ∀ middle, before = order ++ middle → further = middle ++ v :: after →
        ∃ reached q qs es qs', before.foldlM (Cells.visit k separation) cells = some reached ∧
          reached.Awaits k separation q qs v es qs' ∧
          Rose.mk q (qs ++ Rose.mk v es :: qs') ∈
            (Rose.mk p (rs ++ (cs ++ ds) ++ later)).subtrees := by
      rintro middle rfl rest
      obtain ⟨reached, q, qs, es, qs', visited, waits, inside⟩ :=
        second.awaits middle v after rest
      refine ⟨reached, q, qs, es, qs', ?_, waits, ?_⟩
      · rw [List.foldlM_append, first.visits]
        exact visited
      · rwa [← List.append_assoc rs cs ds]
    rcases List.append_eq_append_iff.mp split with ⟨middle, begun, rest⟩ | ⟨middle, begun, rest⟩
    · exact inFurther middle begun rest
    · cases middle with
      | nil =>
        rw [List.append_nil] at begun
        exact inFurther [] (by rw [begun, List.append_nil]) rest.symm
      | cons w middle =>
        obtain ⟨rfl, rfl⟩ := List.cons.inj rest
        obtain ⟨reached, q, qs, es, qs', visited, waits, inside⟩ :=
          first.awaits before v middle begun
        refine ⟨reached, q, qs, es, qs', visited, waits, ?_⟩
        rwa [← List.append_assoc rs cs ds, List.append_assoc (rs ++ cs) ds later]

private theorem nil (reflects : cells.Reflects k separation p rs) :
    Places k separation cells cells p rs [] later [] := by
  constructor
  case visits => rfl
  case reflects => rwa [List.append_nil]
  case others => exact fun _ _ _ => rfl
  case parent => rfl
  case awaits => exact fun before v after split => absurd split (by simp)

end Cells.Places

variable {k : Kinship} {separation : Nat → Nat → α}

def Cells.AreFresh (cells : Cells α) (rs : List (Rose Nat)) : Prop :=
  ∀ x ∈ preorderAll rs, cells x = Cells.start x

theorem reflects_nil (k : Kinship) (separation : Nat → Nat → α) {cells : Cells α} {p : Nat}
    (fresh : (cells p).fallback = none) : cells.Reflects k separation p [] := by
  constructor
  case stands => exact fun s hs => absurd hs List.not_mem_nil
  case draws => exact fun s hs => absurd hs List.not_mem_nil
  case left => rfl
  case right => rfl
  case fresh => exact fun _ => fresh
  case owner => exact fun none => absurd rfl none
  case inside => exact fun t ht => absurd ht List.not_mem_nil

private theorem awaits_of_places {v p : Nat} {rs ds later : List (Rose Nat)}
    {cells placed : Cells α} (fits : k.Fits (Rose.mk p (rs ++ Rose.mk v ds :: later)))
    (once : (Rose.mk p (rs ++ Rose.mk v ds :: later)).preorder.Nodup)
    (room : (Rose.mk p (rs ++ Rose.mk v ds :: later)).preorder.length ≤ k.size + 1)
    (before : cells.Reflects k separation p rs) (fresh : cells v = Cells.start v)
    (places : cells.Places k separation placed v [] ds [] (Rose.postorderAll ds)) :
    placed.Awaits k separation p rs v ds later := by
  have parts := once
  rw [Rose.preorder, Rose.preorderAll_append, preorderAll, Rose.preorder] at parts
  simp only [List.nodup_cons, List.nodup_append, List.mem_append, List.mem_cons, List.cons_append,
    not_or] at parts
  obtain ⟨⟨-, pv, pDs, -⟩, -, -, apart⟩ := parts
  have untouched : ∀ x, x ≠ v → x ∉ preorderAll ds → placed x = cells x := by
    intro x other aside
    exact places.others x aside other
  refine ⟨fits, once, room, ?_, places.reflects, ?_⟩
  · refine before.congr (fun x hx => untouched x ?_ ?_) (by rw [untouched p pv pDs])
    · rintro rfl
      exact apart x hx x (Or.inl rfl) rfl
    · intro below
      exact apart x hx x (Or.inr (Or.inl below)) rfl
  · rw [places.parent, fresh]

mutual

/-- The visits of a tree in post-order place it. -/
theorem exists_places_tree (k : Kinship) (separation : Nat → Nat → α) :
    ∀ (c : Rose Nat) {p : Nat} {rs later : List (Rose Nat)} {cells : Cells α},
      k.Fits (Rose.mk p (rs ++ c :: later)) → (Rose.mk p (rs ++ c :: later)).preorder.Nodup →
      (Rose.mk p (rs ++ c :: later)).preorder.length ≤ k.size + 1 →
      cells.Reflects k separation p rs → cells.AreFresh [c] →
      ∃ placed, cells.Places k separation placed p rs [c] later c.postorder
  | .mk v ds, p, rs, later, cells, fits, once, room, before, fresh => by
    have member : Rose.mk v ds ∈ (Rose.mk p (rs ++ Rose.mk v ds :: later)).children := by simp
    have inner : Rose.mk v ([] ++ ds ++ []) = Rose.mk v ds := by
      rw [List.nil_append, List.append_nil]
    have sublist : (Rose.mk v ds).preorder.Sublist
        (Rose.mk p (rs ++ Rose.mk v ds :: later)).preorder := by
      rw [Rose.preorder.eq_1 p, Rose.preorderAll_append, preorderAll]
      exact ((List.sublist_append_left _ _).trans (List.sublist_append_right _ _)).cons p
    have freshRoot : cells v = Cells.start v := fresh v (by
      rw [preorderAll, List.mem_append]
      exact Or.inl (Rose.label_mem_preorder _))
    obtain ⟨placed, places⟩ := exists_places_list k separation ds (inner ▸ fits.of_mem member)
      (inner ▸ once.sublist sublist) (inner ▸ sublist.length_le.trans room)
      (reflects_nil k separation (freshRoot ▸ rfl))
      (fun x hx => fresh x (by
        rw [preorderAll, List.mem_append, Rose.preorder]
        exact Or.inl (List.mem_cons_of_mem _ hx)))
    have waits := awaits_of_places fits once room before freshRoot places
    obtain ⟨visited, visit, reflects, others, parent⟩ := waits.exists_visit
    refine ⟨visited, ?_, reflects, ?_, ?_, ?_⟩
    · rw [Rose.postorder, List.foldlM_append, places.visits]
      simpa using visit
    · intro x hx other
      rw [others x hx other]
      rw [Cells.Awaits.preorderAll_concat, not_or, not_or] at hx
      exact places.others x hx.2.2 hx.2.1
    · rw [parent, places.others p waits.apart.parent_below waits.apart.parent_own]
    · intro first w after split
      have whole : rs ++ [Rose.mk v ds] ++ later = rs ++ Rose.mk v ds :: later := by
        rw [List.append_assoc, List.singleton_append]
      rw [whole]
      rw [Rose.postorder] at split
      -- The last visit is that of the root itself, and all before it are visits below the root.
      rcases after.eq_nil_or_concat' with rfl | ⟨front, y, rfl⟩
      · obtain ⟨rfl, last⟩ := List.append_inj' split rfl
        obtain rfl := List.singleton_inj.mp last
        exact ⟨placed, p, rs, ds, later, places.visits, waits, List.mem_cons_self⟩
      · rw [← List.cons_append, ← List.append_assoc] at split
        obtain ⟨begun, -⟩ := List.append_inj' split rfl
        obtain ⟨reached, q, qs, es, qs', visited', waits', inside⟩ :=
          places.awaits first w front begun
        refine ⟨reached, q, qs, es, qs', visited', waits', ?_⟩
        rw [inner] at inside
        rw [Rose.subtrees, Rose.subtreesAll_eq_flatMap]
        exact List.mem_cons_of_mem _ (List.mem_flatMap.mpr ⟨_, member, inside⟩)

private theorem exists_places_list (k : Kinship) (separation : Nat → Nat → α) :
    ∀ (cs : List (Rose Nat)) {p : Nat} {rs later : List (Rose Nat)} {cells : Cells α},
      k.Fits (Rose.mk p (rs ++ cs ++ later)) → (Rose.mk p (rs ++ cs ++ later)).preorder.Nodup →
      (Rose.mk p (rs ++ cs ++ later)).preorder.length ≤ k.size + 1 →
      cells.Reflects k separation p rs → cells.AreFresh cs →
      ∃ placed, cells.Places k separation placed p rs cs later (Rose.postorderAll cs)
  | [], p, rs, later, cells, _, _, _, before, _ => ⟨cells, .nil before⟩
  | c :: cs, p, rs, later, cells, fits, once, room, before, fresh => by
    have split : rs ++ c :: cs ++ later = rs ++ c :: (cs ++ later) := by
      rw [List.append_assoc, List.cons_append]
    have splitAfter : rs ++ c :: cs ++ later = rs ++ [c] ++ cs ++ later := by
      rw [List.append_assoc rs [c] cs, List.singleton_append]
    obtain ⟨first, firstPlaces⟩ := exists_places_tree k separation c (split ▸ fits) (split ▸ once)
      (split ▸ room) before fun x hx => fresh x (by
        rw [preorderAll, preorderAll, List.append_nil] at hx
        rw [preorderAll]
        exact List.mem_append_left _ hx)
    have parts := once
    rw [split, Rose.preorder, Rose.preorderAll_append, preorderAll, Rose.preorderAll_append]
      at parts
    simp only [List.nodup_cons, List.nodup_append, List.mem_append, not_or] at parts
    obtain ⟨⟨-, -, pCs, -⟩, -, ⟨-, -, apartTree⟩, apartRow⟩ := parts
    have restFresh : first.AreFresh cs := by
      intro x hx
      have aside : x ∉ preorderAll (rs ++ [c]) := by
        rw [Rose.preorderAll_append, preorderAll, preorderAll, List.append_nil, List.mem_append]
        rintro (inRow | inTree)
        · exact apartRow x inRow x (Or.inr (Or.inl hx)) rfl
        · exact apartTree x inTree x (Or.inl hx) rfl
      have other : x ≠ p := by
        rintro rfl
        exact pCs hx
      rw [firstPlaces.others x aside other]
      apply fresh
      rw [preorderAll]
      exact List.mem_append_right _ hx
    obtain ⟨placed, restPlaces⟩ := exists_places_list k separation cs (splitAfter ▸ fits)
      (splitAfter ▸ once) (splitAfter ▸ room) firstPlaces.reflects restFresh
    exact ⟨placed, firstPlaces.trans restPlaces⟩

end

end TidyTree.Placement
