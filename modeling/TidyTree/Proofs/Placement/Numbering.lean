import TidyTree.Placement.Threads
import TidyTree.Proofs.Placement.Levels

set_option autoImplicit false
set_option relaxedAutoImplicit false

namespace TidyTree.Rose

variable {ν : Type}

mutual

/-- The tree with its nodes numbered in pre-order, from a number on. -/
def numberFrom (first : Nat) : Rose ν → Rose Nat
  | mk _ children => mk first (numberAllFrom (first + 1) children)

def numberAllFrom (first : Nat) : List (Rose ν) → List (Rose Nat)
  | [] => []
  | r :: rs => r.numberFrom first :: numberAllFrom (first + r.preorder.length) rs

end

def childLabels (r : Rose ν) : List ν := r.children.map label

/-- The children of each node, with the nodes numbered in pre-order. -/
def childLists (r : Rose ν) : List (List Nat) := (r.numberFrom 0).subtrees.map childLabels

mutual

def postorder : Rose ν → List ν
  | mk label children => postorderAll children ++ [label]

def postorderAll : List (Rose ν) → List ν
  | [] => []
  | r :: rs => r.postorder ++ postorderAll rs

end

theorem preorderAll_eq_flatMap (rs : List (Rose ν)) : preorderAll rs = rs.flatMap preorder := by
  induction rs with
  | nil => rfl
  | cons r rs ih => rw [preorderAll, ih, List.flatMap_cons]

theorem preorderAll_append (rs qs : List (Rose ν)) :
    preorderAll (rs ++ qs) = preorderAll rs ++ preorderAll qs := by
  simp only [preorderAll_eq_flatMap, List.flatMap_append]

private theorem postorderAll_append (rs qs : List (Rose ν)) :
    postorderAll (rs ++ qs) = postorderAll rs ++ postorderAll qs := by
  induction rs with
  | nil => rfl
  | cons r rs ih => rw [List.cons_append, postorderAll, ih, postorderAll, List.append_assoc]

private theorem preorderAll_reverse_perm (rs : List (Rose ν)) :
    (preorderAll rs.reverse).Perm (preorderAll rs) := by
  induction rs with
  | nil => exact .refl _
  | cons r rs ih =>
    rw [List.reverse_cons, preorderAll_append, preorderAll, preorderAll, preorderAll,
      List.append_nil]
    exact List.perm_append_comm.trans (ih.append_left _)

theorem preorder_eq (r : Rose ν) : r.preorder = r.label :: preorderAll r.children := by
  cases r
  rfl

theorem label_mem_preorder (r : Rose ν) : r.label ∈ r.preorder := by
  rw [preorder_eq]
  exact List.mem_cons_self

theorem preorder_subset_preorderAll {r : Rose ν} {rs : List (Rose ν)} (h : r ∈ rs) :
    r.preorder ⊆ preorderAll rs := by
  intro v hv
  rw [preorderAll_eq_flatMap]
  exact List.mem_flatMap.mpr ⟨r, h, hv⟩

mutual

theorem map_label_subtrees : ∀ r : Rose ν, r.subtrees.map label = r.preorder
  | mk v children => by
    rw [subtrees, List.map_cons, map_label_subtreesAll children]
    rfl

theorem map_label_subtreesAll : ∀ rs : List (Rose ν), (subtreesAll rs).map label = preorderAll rs
  | [] => rfl
  | r :: rs => by
    rw [subtreesAll, List.map_append, map_label_subtrees r, map_label_subtreesAll rs, preorderAll]

end

theorem length_subtrees (r : Rose ν) : r.subtrees.length = r.preorder.length := by
  rw [← map_label_subtrees, List.length_map]

mutual

theorem preorder_numberFrom (first : Nat) :
    ∀ r : Rose ν, (r.numberFrom first).preorder = List.range' first r.preorder.length
  | mk v children => by
    rw [numberFrom, preorder, preorderAll_numberAllFrom (first + 1) children, preorder,
      List.length_cons, List.range'_succ]

theorem preorderAll_numberAllFrom (first : Nat) :
    ∀ rs : List (Rose ν),
      preorderAll (numberAllFrom first rs) = List.range' first (preorderAll rs).length
  | [] => rfl
  | r :: rs => by
    rw [numberAllFrom, preorderAll, preorder_numberFrom first r,
      preorderAll_numberAllFrom (first + r.preorder.length) rs, preorderAll, List.length_append,
      List.range'_append_1]

end

private theorem nodup_numberFrom (first : Nat) (r : Rose ν) : (r.numberFrom first).preorder.Nodup
    := by
  rw [preorder_numberFrom]
  exact List.nodup_range'

mutual

theorem getElem?_subtrees_numberFrom (first : Nat) :
    ∀ (r : Rose ν) (i : Nat),
      (r.numberFrom first).subtrees[i]? = r.subtrees[i]?.map (numberFrom (first + i))
  | mk v children, 0 => rfl
  | mk v children, i + 1 => by
    rw [numberFrom, subtrees, List.getElem?_cons_succ,
      getElem?_subtreesAll_numberAllFrom (first + 1) children i, subtrees, List.getElem?_cons_succ,
      Nat.add_assoc, Nat.add_comm 1 i]

private theorem getElem?_subtreesAll_numberAllFrom (first : Nat) :
    ∀ (rs : List (Rose ν)) (i : Nat),
      (subtreesAll (numberAllFrom first rs))[i]? = (subtreesAll rs)[i]?.map (numberFrom (first + i))
  | [], _ => rfl
  | r :: rs, i => by
    have length : (r.numberFrom first).subtrees.length = r.subtrees.length := by
      rw [length_subtrees, length_subtrees, preorder_numberFrom, List.length_range']
    rw [numberAllFrom, subtreesAll, subtreesAll]
    by_cases inside : i < r.subtrees.length
    · rw [List.getElem?_append_left (length ▸ inside), List.getElem?_append_left inside,
        getElem?_subtrees_numberFrom first r i]
    · have outside : r.subtrees.length ≤ i := Nat.le_of_not_lt inside
      have place : first + r.preorder.length + (i - r.subtrees.length) = first + i := by
        rw [← length_subtrees]
        omega
      rw [List.getElem?_append_right (length ▸ outside), List.getElem?_append_right outside, length,
        getElem?_subtreesAll_numberAllFrom (first + r.preorder.length) rs, place]

end

mutual

theorem map_add_numberFrom (more first : Nat) :
    ∀ r : Rose ν, (r.numberFrom first).map (more + ·) = r.numberFrom (more + first)
  | mk v children => by
    rw [numberFrom, map, mapAll_add_numberAllFrom more (first + 1) children]
    rfl

private theorem mapAll_add_numberAllFrom (more first : Nat) :
    ∀ rs : List (Rose ν),
      mapAll (more + ·) (numberAllFrom first rs) = numberAllFrom (more + first) rs
  | [] => rfl
  | r :: rs => by
    rw [numberAllFrom, mapAll, map_add_numberFrom more first r,
      mapAll_add_numberAllFrom more (first + r.preorder.length) rs, ← Nat.add_assoc]
    rfl

end

mutual

theorem childLabels_subtrees_perm :
    ∀ r : Rose ν, (r.subtrees.flatMap childLabels).Perm (preorderAll r.children)
  | mk _ children => childLabels_subtreesAll_perm children

private theorem childLabels_subtreesAll_perm :
    ∀ rs : List (Rose ν),
      (rs.map label ++ (subtreesAll rs).flatMap childLabels).Perm (preorderAll rs)
  | [] => .refl _
  | r :: rs => by
    have first := childLabels_subtrees_perm r
    have rest := childLabels_subtreesAll_perm rs
    rw [subtreesAll, List.flatMap_append, List.map_cons, List.cons_append, preorderAll, preorder_eq,
      List.cons_append]
    refine .cons _ (.trans ?_ (first.append rest))
    rw [← List.append_assoc, ← List.append_assoc]
    exact List.perm_append_comm.append_right _

end

end TidyTree.Rose

namespace TidyTree.Placement

open Rose (numberFrom childLists childLabels subtrees subtreesAll preorderAll postorderAll)

@[simp] theorem write_self {β : Type} (f : Nat → β) (i : Nat) (b : β) : write f i b i = b := by
  simp [write]

private theorem write_of_ne {β : Type} (f : Nat → β) (b : β) {i j : Nat} (h : j ≠ i) :
    write f i b j = f j := by
  simp [write, h]

/-- The kinship is that of a tree. -/
structure Kinship.Fits (k : Kinship) (r : Rose Nat) : Prop where
  children : ∀ t ∈ r.subtrees, k.children t.label = t.childLabels
  parent : ∀ t ∈ r.subtrees, ∀ i c, t.children[i]? = some c →
    k.parent c.label = t.label ∧ k.place c.label = i

theorem Kinship.Fits.of_mem {k : Kinship} {r c : Rose Nat} (h : k.Fits r) (hc : c ∈ r.children) :
    k.Fits c := by
  have below : ∀ t ∈ c.subtrees, t ∈ r.subtrees := by
    intro t ht
    obtain ⟨v, children⟩ := r
    rw [subtrees, Rose.subtreesAll_eq_flatMap]
    exact List.mem_cons_of_mem _ (List.mem_flatMap.mpr ⟨c, hc, ht⟩)
  exact ⟨fun t ht => h.children t (below t ht), fun t ht => h.parent t (below t ht)⟩

theorem Kinship.Fits.root_children {k : Kinship} {r : Rose Nat} (h : k.Fits r) :
    k.children r.label = r.childLabels := by
  obtain ⟨v, children⟩ := r
  exact h.children _ List.mem_cons_self

theorem Kinship.Fits.root_parent {k : Kinship} {r c : Rose Nat} {i : Nat} (h : k.Fits r)
    (hc : r.children[i]? = some c) : k.parent c.label = r.label ∧ k.place c.label = i := by
  obtain ⟨v, children⟩ := r
  exact h.parent _ List.mem_cons_self i c hc

theorem Kinship.Fits.parent_mem {k : Kinship} {r : Rose Nat} (h : k.Fits r) {v : Nat}
    (hv : v ∈ preorderAll r.children) : k.parent v ∈ r.preorder := by
  rw [← (Rose.childLabels_subtrees_perm r).mem_iff, List.mem_flatMap] at hv
  obtain ⟨t, ht, listed⟩ := hv
  obtain ⟨c, hc, rfl⟩ := List.mem_map.mp listed
  obtain ⟨i, hi⟩ := List.getElem?_of_mem hc
  rw [(h.parent t ht i c hi).1, ← Rose.map_label_subtrees]
  exact List.mem_map_of_mem ht

section Reading

private def adoptions (lists : List (List Nat)) : List (Nat × Nat × Nat) :=
  lists.zipIdx.flatMap fun list => list.1.zipIdx.map fun child => (list.2, child)

private def adoptAll (k : Kinship) (adoptions : List (Nat × Nat × Nat)) : Kinship :=
  adoptions.foldl (fun k a => k.adopt a.1 a.2) k

private theorem ofChildren_eq (lists : List (List Nat)) :
    Kinship.ofChildren lists = adoptAll
      ⟨lists.length, fun v => (lists ++ [[0]]).getD v [], fun _ => lists.length, fun _ => 0⟩
      (adoptions lists) := by
  simp only [adoptAll, adoptions, List.foldl_flatMap, List.foldl_map]
  rfl

private theorem children_adoptAll (k : Kinship) (as : List (Nat × Nat × Nat)) :
    (adoptAll k as).children = k.children := by
  induction as generalizing k with
  | nil => rfl
  | cons a as ih => exact ih _

private theorem adoptAll_of_not_mem {k : Kinship} {as : List (Nat × Nat × Nat)} {c : Nat}
    (h : c ∉ as.map (·.2.1)) :
    (adoptAll k as).parent c = k.parent c ∧ (adoptAll k as).place c = k.place c := by
  induction as generalizing k with
  | nil => exact ⟨rfl, rfl⟩
  | cons a as ih =>
    rw [List.map_cons, List.mem_cons, not_or] at h
    obtain ⟨parent, place⟩ := ih h.2 (k := k.adopt a.1 a.2)
    exact ⟨parent.trans (write_of_ne _ _ h.1), place.trans (write_of_ne _ _ h.1)⟩

private theorem adoptAll_of_mem {k : Kinship} {as : List (Nat × Nat × Nat)} {p c i : Nat}
    (once : (as.map (·.2.1)).Nodup) (h : (p, c, i) ∈ as) :
    (adoptAll k as).parent c = p ∧ (adoptAll k as).place c = i := by
  induction as generalizing k with
  | nil => exact absurd h List.not_mem_nil
  | cons a as ih =>
    rw [List.map_cons, List.nodup_cons] at once
    rcases List.mem_cons.mp h with rfl | h
    · obtain ⟨parent, place⟩ := adoptAll_of_not_mem once.1 (k := k.adopt p (c, i))
      exact ⟨parent.trans (write_self _ _ _), place.trans (write_self _ _ _)⟩
    · exact ih once.2 h

private theorem children_adoptions (lists : List (List Nat)) :
    (adoptions lists).map (·.2.1) = lists.flatten := by
  have inner : ∀ list : List Nat × Nat,
      (list.1.zipIdx.map fun child => (list.2, child)).map (·.2.1) = list.1 := by
    intro list
    rw [List.map_map]
    exact List.zipIdx_map_fst 0 list.1
  rw [adoptions, List.map_flatMap]
  simp only [inner]
  rw [List.flatMap_def, List.zipIdx_map_fst]

theorem children_ofChildren (lists : List (List Nat)) (v : Nat) :
    (Kinship.ofChildren lists).children v = (lists ++ [[0]]).getD v [] := by
  rw [ofChildren_eq, children_adoptAll]

/-- The lists of a tree are read as its kinship. -/
theorem fits_ofChildren {ν : Type} (r : Rose ν) :
    (Kinship.ofChildren r.childLists).Fits (r.numberFrom 0) := by
  have labels : (r.numberFrom 0).subtrees.map Rose.label = List.range r.preorder.length := by
    rw [Rose.map_label_subtrees, Rose.preorder_numberFrom, List.range_eq_range']
  have numbered : ∀ {i : Nat} {t : Rose Nat}, (r.numberFrom 0).subtrees[i]? = some t →
      t.label = i := by
    intro i t ht
    have at_place := congrArg (·[i]?) labels
    rw [List.getElem?_map, ht] at at_place
    obtain ⟨inside, same⟩ := List.getElem?_eq_some_iff.mp at_place.symm
    rw [List.getElem_range] at same
    exact same.symm
  have once : ((adoptions r.childLists).map (·.2.1)).Nodup := by
    have all := Rose.nodup_numberFrom 0 r
    rw [Rose.preorder_eq, List.nodup_cons] at all
    rw [children_adoptions, childLists, ← List.flatMap_def]
    exact (Rose.childLabels_subtrees_perm _).nodup_iff.mpr all.2
  constructor
  · intro t ht
    obtain ⟨i, hi⟩ := List.getElem?_of_mem ht
    have inside : i < r.childLists.length := by
      rw [childLists, List.length_map]
      exact (List.getElem?_eq_some_iff.mp hi).1
    have listed : r.childLists[i]? = some t.childLabels := by
      rw [childLists, List.getElem?_map, hi, Option.map_some]
    rw [children_ofChildren, numbered hi, List.getD_eq_getElem?_getD,
      List.getElem?_append_left inside, listed, Option.getD_some]
  · intro t ht i c hc
    obtain ⟨p, hp⟩ := List.getElem?_of_mem ht
    have listed : (t.childLabels, p) ∈ r.childLists.zipIdx := by
      rw [List.mk_mem_zipIdx_iff_getElem?, childLists, List.getElem?_map, hp, Option.map_some]
    have child : (c.label, i) ∈ t.childLabels.zipIdx := by
      rw [List.mk_mem_zipIdx_iff_getElem?, childLabels, List.getElem?_map, hc, Option.map_some]
    rw [ofChildren_eq, numbered hp]
    exact adoptAll_of_mem once (List.mem_flatMap.mpr ⟨_, listed, List.mem_map_of_mem child⟩)

theorem length_childLists {ν : Type} (r : Rose ν) : r.childLists.length = r.preorder.length := by
  rw [childLists, List.length_map, Rose.length_subtrees, Rose.preorder_numberFrom,
    List.length_range']

theorem root_ofChildren {ν : Type} (r : Rose ν) :
    (Kinship.ofChildren r.childLists).children r.preorder.length = [0] ∧
      (Kinship.ofChildren r.childLists).parent 0 = r.preorder.length ∧
      (Kinship.ofChildren r.childLists).place 0 = 0 := by
  have length := length_childLists r
  have root : 0 ∉ (adoptions r.childLists).map (·.2.1) := by
    have all := Rose.nodup_numberFrom 0 r
    have top : (r.numberFrom 0).label = 0 := by
      cases r
      rfl
    rw [Rose.preorder_eq, List.nodup_cons, top] at all
    rw [children_adoptions, childLists, ← List.flatMap_def]
    exact fun listed => all.1 ((Rose.childLabels_subtrees_perm _).mem_iff.mp listed)
  refine ⟨?_, ?_, ?_⟩
  · rw [children_ofChildren, ← length, List.getD_eq_getElem?_getD, List.getElem?_concat_length,
      Option.getD_some]
  · rw [ofChildren_eq]
    exact (adoptAll_of_not_mem root).1.trans length
  · rw [ofChildren_eq]
    exact (adoptAll_of_not_mem root).2

end Reading

theorem lastState_of_stateAfter {σ : Type} {step : σ → Option σ} {n bound : Nat} {s t : σ}
    (h : stateAfter step n s = some t) (ends : step t = none) (le : n ≤ bound) :
    lastState step bound s = some t := by
  induction n generalizing s bound with
  | zero =>
    obtain rfl : s = t := Option.some.inj h
    cases bound <;> simp [lastState, ends]
  | succ n ih =>
    obtain ⟨u, hu, rest⟩ := Option.bind_eq_some_iff.mp h
    obtain ⟨bound, rfl⟩ := Nat.exists_eq_add_one.mpr (Nat.lt_of_lt_of_le n.succ_pos le)
    rw [lastState, hu]
    exact ih rest (Nat.le_of_succ_le_succ le)

theorem size_ofChildren (lists : List (List Nat)) :
    (Kinship.ofChildren lists).size = lists.length := by
  have kept : ∀ (k : Kinship) (as : List (Nat × Nat × Nat)), (adoptAll k as).size = k.size := by
    intro k as
    induction as generalizing k with
    | nil => rfl
    | cons a as ih => exact ih _
  rw [ofChildren_eq, kept]

private theorem stateAfter_postorder {k : Kinship} (n : Nat) (stack : List (Rose Nat))
    (taken : List Nat) (fits : ∀ t ∈ stack, k.Fits t) (length : (preorderAll stack).length = n) :
    stateAfter (Kinship.postorder.step k) n (taken, stack.map Rose.label) =
      some (postorderAll stack.reverse ++ taken, []) := by
  induction n generalizing stack taken with
  | zero =>
    cases stack with
    | nil => rfl
    | cons t stack =>
      rw [preorderAll, Rose.preorder_eq] at length
      simp at length
  | succ n ih =>
    cases stack with
    | nil => simp [preorderAll] at length
    | cons t stack =>
      obtain ⟨v, children⟩ := t
      have root := (fits _ List.mem_cons_self).root_children
      have rest := ih (children.reverse ++ stack) (v :: taken)
        (by
          intro u hu
          rcases List.mem_append.mp hu with hu | hu
          · exact (fits _ List.mem_cons_self).of_mem (List.mem_reverse.mp hu)
          · exact fits u (List.mem_cons_of_mem _ hu))
        (by
          have same := (Rose.preorderAll_reverse_perm children).length_eq
          rw [preorderAll, Rose.preorder, List.length_append, List.length_cons] at length
          rw [Rose.preorderAll_append, List.length_append, same]
          omega)
      rw [stateAfter, List.map_cons]
      simp only [Kinship.postorder.step, Option.bind_some]
      rw [root, childLabels, Rose.children_mk, ← List.map_reverse, ← List.map_append,
        Rose.label_mk, rest, List.reverse_append, List.reverse_reverse, List.reverse_cons,
        Rose.postorderAll_append, Rose.postorderAll_append, postorderAll, postorderAll,
        Rose.postorder]
      simp

/-- The stack visits a tree in post-order. -/
theorem postorder_ofChildren {ν : Type} (r : Rose ν) :
    (Kinship.ofChildren r.childLists).postorder = some (r.numberFrom 0).postorder := by
  have length : (preorderAll [r.numberFrom 0]).length = r.childLists.length := by
    rw [preorderAll, preorderAll, List.append_nil, childLists, List.length_map,
      Rose.length_subtrees]
  have root : [r.numberFrom 0].map Rose.label = [0] := by
    cases r
    rfl
  have taken := stateAfter_postorder r.childLists.length [r.numberFrom 0] []
    (fun t ht => List.mem_singleton.mp ht ▸ fits_ofChildren r) length
  rw [root] at taken
  rw [Kinship.postorder, size_ofChildren, lastState_of_stateAfter taken rfl le_rfl]
  simp [postorderAll]

end TidyTree.Placement
