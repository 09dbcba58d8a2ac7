import TidyTree.Proofs.Placement.Lowering
import TidyTree.Proofs.Placement.Tidiness

set_option autoImplicit false
set_option relaxedAutoImplicit false

namespace TidyTree

namespace Rose

variable {ν : Type}

private theorem mem_preorder_of_mem_subtrees {r t : Rose ν} (ht : t ∈ r.subtrees) :
    t.label ∈ r.preorder := by
  rw [← map_label_subtrees]
  exact List.mem_map_of_mem ht

private theorem mem_preorder_of_mem_children {r t c : Rose ν} (ht : t ∈ r.subtrees)
    (hc : c ∈ t.children) : c.label ∈ r.preorder := by
  have listed : c.label ∈ r.subtrees.flatMap childLabels :=
    List.mem_flatMap.mpr ⟨t, ht, List.mem_map_of_mem hc⟩
  rw [preorder_eq]
  exact List.mem_cons_of_mem _ ((childLabels_subtrees_perm r).subset listed)

private theorem exists_of_childLists {r : Rose ν} {v : Nat} {children : List Nat}
    (h : r.childLists[v]? = some children) :
    ∃ t ∈ (r.numberFrom 0).subtrees, t.label = v ∧ t.childLabels = children := by
  rw [childLists, List.getElem?_map, Option.map_eq_some_iff] at h
  obtain ⟨t, ht, rfl⟩ := h
  refine ⟨t, List.mem_of_getElem? ht, ?_, rfl⟩
  rw [getElem?_subtrees_numberFrom, Option.map_eq_some_iff] at ht
  obtain ⟨⟨label, children⟩, -, rfl⟩ := ht
  exact Nat.zero_add v

end Rose

namespace Placement

variable {ν : Type}

private theorem exists_coordinate {r : Rose ν} {drawing : Rose (Nat × Rat)}
    (shown : drawing.map Prod.fst = r.numberFrom 0) :
    ∃ x : Nat → Rat, (∀ p ∈ drawing.preorder, p.2 = x p.1) ∧
      drawing.preorder.map Prod.snd = (List.range r.childLists.length).map x := by
  have numbers : drawing.preorder.map Prod.fst = List.range r.preorder.length := by
    rw [← Rose.preorder_map, shown, Rose.preorder_numberFrom, List.range_eq_range']
  let x (v : Nat) : Rat := (drawing.preorder[v]?.map Prod.snd).getD 0
  have known : ∀ p ∈ drawing.preorder, p.2 = x p.1 := by
    intro p hp
    obtain ⟨i, hi⟩ := List.getElem?_of_mem hp
    have place := congrArg (fun l => l[i]?) numbers
    rw [List.getElem?_map, hi, Option.map_some] at place
    obtain ⟨_, same⟩ := List.getElem?_eq_some_iff.mp place.symm
    rw [List.getElem_range] at same
    change p.2 = (drawing.preorder[p.1]?.map Prod.snd).getD 0
    rw [← same, hi]
    rfl
  refine ⟨x, known, ?_⟩
  rw [length_childLists, ← numbers, List.map_map]
  exact List.map_congr_left known

/-- Placement by threads ends with a coordinate for every node. The root is at zero, every node with
children exactly at the mean of its first and last child, and two nodes that follow each other on a
level, be they siblings or cousins of any degree, are at least their separation apart. -/
theorem positions_centred_and_apart (separation : Nat → Nat → Rat) (r : Rose ν) :
    ∃ x : Nat → Rat,
      positions separation r.childLists = some ((List.range r.childLists.length).map x) ∧
      x 0 = 0 ∧
      (∀ v children, r.childLists[v]? = some children → ∀ first ∈ children.head?,
        ∀ last ∈ children.getLast?, x v = (x first + x last) / 2) ∧
      ∀ depth, ((r.numberFrom 0).level depth).IsChain fun a b => x b - x a ≥ separation a b := by
  let drawing : Rose (Nat × Rat) := tidy separation (r.numberFrom 0)
  obtain ⟨shown, root, centred, apart⟩ := tidy_centred_and_apart separation (r.numberFrom 0)
  obtain ⟨x, known, all⟩ := exists_coordinate shown
  refine ⟨x, ?_, ?_, ?_, ?_⟩
  · rw [positions_eq, all]
  · have top := known _ (Rose.label_mem_preorder _)
    have zero := congrArg Rose.label shown
    rw [Rose.label_map] at zero
    rw [root, zero] at top
    cases r
    exact top.symm
  · intro v children listed first hfirst last hlast
    obtain ⟨u, hu, rfl, rfl⟩ := Rose.exists_of_childLists listed
    rw [← shown, Rose.subtrees_map] at hu
    obtain ⟨t, ht, rfl⟩ := List.mem_map.mp hu
    rw [Rose.childLabels, Rose.children_map, List.map_map] at hfirst hlast
    rw [List.head?_map, Option.mem_def, Option.map_eq_some_iff] at hfirst
    rw [List.getLast?_map, Option.mem_def, Option.map_eq_some_iff] at hlast
    obtain ⟨c, hc, rfl⟩ := hfirst
    obtain ⟨d, hd, rfl⟩ := hlast
    simp only [Function.comp_apply, Rose.label_map]
    rw [← known _ (Rose.mem_preorder_of_mem_subtrees ht),
      ← known _ (Rose.mem_preorder_of_mem_children ht (List.mem_of_mem_head? hc)),
      ← known _ (Rose.mem_preorder_of_mem_children ht (List.mem_of_getLast? hd))]
    exact centred t ht c hc d hd
  · intro depth
    rw [← shown, Rose.level_map]
    refine (List.isChain_map _).mpr ((apart depth).imp_of_mem_imp ?_)
    intro p q hp hq far
    rw [← known p (Rose.level_subset_preorder _ _ hp),
      ← known q (Rose.level_subset_preorder _ _ hq)]
    exact far

/-- The first child has one child, the second has none and the third has two: the only child and the
first of the two are cousins, with nothing between them on their level. -/
example :
    positions (fun a b => if a = 2 ∧ b = 5 then 3 else (1 : Rat))
        [[1, 3, 4], [2], [], [], [5, 6], [], []] =
      some [0, -7 / 4, -7 / 4, 0, 7 / 4, 5 / 4, 9 / 4] := by
  decide +kernel

end Placement

end TidyTree
