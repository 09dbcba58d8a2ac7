import TidyTree.Proofs.Placement.Outlines

set_option autoImplicit false
set_option relaxedAutoImplicit false

namespace TidyTree.Placement

variable {ν μ γ δ α : Type}

private def Knot.map (g : ν → μ) (n : Knot ν α) : Knot μ α := ⟨g n.label, n.coordinate, n.offset⟩

mutual

private def Draft.map (g : ν → μ) : Draft ν α → Draft μ α
  | .mk label coordinate offset children => .mk (g label) coordinate offset (mapAll g children)

private def Draft.mapAll (g : ν → μ) : List (Draft ν α) → List (Draft μ α)
  | [] => []
  | d :: ds => d.map g :: mapAll g ds

end

private theorem Draft.mapAll_eq_map (g : ν → μ) (ds : List (Draft ν α)) :
    mapAll g ds = ds.map (Draft.map g) := by
  induction ds with
  | nil => rfl
  | cons d ds ih => rw [mapAll, ih, List.map_cons]

private def Block.map (g : ν → μ) (b : Block ν α) : Block μ α :=
  ⟨g b.label, b.children.map (Draft.map g), b.middle, b.left.map (Knot.map g),
    b.right.map (Knot.map g)⟩

private def Slot.map (f : γ → δ) (s : Slot γ α) : Slot δ α :=
  ⟨f s.content, s.coordinate, s.offset, s.change, s.shift⟩

private def Forest.map (g : ν → μ) (f : Forest ν α) : Forest μ α :=
  ⟨f.row.map (Slot.map (Block.map g)), f.left.map (Knot.map g),
    f.right.map (Prod.map id (Knot.map g))⟩

private def Walk.map (g : ν → μ) (w : Walk ν α) : Walk μ α :=
  ⟨w.sums, w.moves, w.leftRest.map (Prod.map id (Knot.map g)), w.rightRest.map (Knot.map g)⟩

private theorem draft_map (g : ν → μ) (s : Slot (Block ν α) α) :
    (s.map (Block.map g)).draft = s.draft.map g := by
  rw [Slot.draft, Slot.draft, Draft.map, Draft.mapAll_eq_map]
  rfl

variable [Scalar α]

/-- The separation of two nodes by their new labels. -/
def separationOf (separation : μ → μ → α) (g : ν → μ) (a b : ν) : α := separation (g a) (g b)

section Row

private theorem map_move (f : γ → δ) (row : List (Slot γ α)) (blocker mover : Nat) (distance : α) :
    move (row.map (Slot.map f)) blocker mover distance =
      (move row blocker mover distance).map (Slot.map f) := by
  apply List.ext_getElem?
  intro i
  simp only [move, List.getElem?_modify, List.getElem?_map]
  cases row[i]? <;> split <;> split <;> rfl

private theorem spread_map (f : γ → δ) (row : List (Slot γ α)) :
    spread (row.map (Slot.map f)) = spread row := by
  induction row with
  | nil => rfl
  | cons s row ih =>
    rw [List.map_cons, spread, spread, ih]
    rfl

private theorem settle_map (f : γ → δ) (row : List (Slot γ α)) :
    settle (row.map (Slot.map f)) = (settle row).map (Slot.map f) := by
  rw [settle, settle, ways, spread_map, ways, List.zipWith_map_left, List.map_zipWith]
  rfl

end Row

section Labels

variable (separation : μ → μ → α) (g : ν → μ)

private theorem walk_map (s : Sums α) (lis : List (Nat × Knot ν α)) (los ris ros : List (Knot ν α))
    :
    walk separation s (lis.map (Prod.map id (Knot.map g))) (los.map (Knot.map g))
        (ris.map (Knot.map g)) (ros.map (Knot.map g)) =
      (walk (separationOf separation g) s lis los ris ros).map g := by
  induction lis generalizing s los ris ros with
  | nil => rfl
  | cons li lis ih =>
    obtain ⟨owner, li⟩ := li
    rcases los with _ | ⟨lo, los⟩
    · rfl
    rcases ris with _ | ⟨ri, ris⟩
    · rfl
    rcases ros with _ | ⟨ro, ros⟩
    · rfl
    have distance : overlap separation s (li.map g) (ri.map g) =
        overlap (separationOf separation g) s li ri := rfl
    have below : ∀ t : Sums α, t.descend (li.map g) (lo.map g) (ri.map g) (ro.map g) =
        t.descend li lo ri ro := fun _ => rfl
    simp only [List.map_cons, Prod.map, id_eq, walk, distance, below, ih]
    split <;> rfl

private theorem correctLast_map (correction : α) (ks : List (Knot ν α)) :
    correctLast correction (ks.map (Knot.map g)) =
      (correctLast correction ks).map (Knot.map g) := by
  induction ks with
  | nil => rfl
  | cons k ks ih =>
    cases ks with
    | nil => rfl
    | cons l ks => exact congrArg (List.cons (k.map g)) ih

private theorem shiftHead_map (way : Option α) (ks : List (Knot ν α)) :
    shiftHead way (ks.map (Knot.map g)) = (shiftHead way ks).map (Knot.map g) := by
  cases way <;> cases ks <;> rfl

private theorem enter_map (f : Forest ν α) (b : Block ν α) :
    (f.map g).enter separation (b.map g) =
      (f.enter (separationOf separation g) b).map (Block.map g) := by
  simp only [Forest.enter, Forest.map, List.getLast?_map]
  cases f.row.getLast? <;> rfl

private theorem meet_map (f : Forest ν α) (s : Slot (Block ν α) α) :
    (f.map g).meet separation (s.map (Block.map g)) =
      (f.meet (separationOf separation g) s).map g := by
  rw [Forest.meet, Forest.meet, ← walk_map]
  simp only [Forest.map, Slot.map, Block.map, List.head?_map, List.map_tail, Option.map_map]
  rfl

private theorem foldl_move_map (f : γ → δ) (row : List (Slot γ α)) (moves : List (Nat × α))
    (mover : Nat) :
    moves.foldl (fun row m => move row m.1 mover m.2) (row.map (Slot.map f)) =
      (moves.foldl (fun row m => move row m.1 mover m.2) row).map (Slot.map f) := by
  induction moves generalizing row with
  | nil => rfl
  | cons m moves ih => rw [List.foldl_cons, map_move, ih, List.foldl_cons]

private theorem append_map (f : Forest ν α) (b : Block ν α) :
    (f.map g).append separation (b.map g) = (f.append (separationOf separation g) b).map g := by
  have empty : (f.map g).row.isEmpty = f.row.isEmpty := List.isEmpty_map
  have length : (f.map g).row.length = f.row.length := List.length_map _
  have placed : ∀ ks : List (Knot ν α), (ks.map (Knot.map g)).map (f.row.length, ·) =
      (ks.map (f.row.length, ·)).map (Prod.map id (Knot.map g)) := by
    intro ks
    simp [Function.comp_def]
  simp only [Forest.append, empty, length, enter_map, meet_map]
  generalize f.enter (separationOf separation g) b = entered
  have knot : ∀ s : Slot (Block ν α) α, (s.map (Block.map g)).knot = s.knot.map g := fun _ => rfl
  split
  · rw [Forest.map, Forest.mk.injEq]
    refine ⟨rfl, rfl, ?_⟩
    rw [← placed]
    rfl
  · generalize f.meet (separationOf separation g) entered = w
    have row : (f.map g).row ++ [entered.map (Block.map g)] =
        (f.row ++ [entered]).map (Slot.map (Block.map g)) := by
      rw [List.map_append]
      rfl
    simp only [row, Walk.map, foldl_move_map, List.getLast?_map, Option.getD_map, knot,
      List.isEmpty_map]
    generalize w.moves.foldl (fun row m => move row m.1 f.row.length m.2) (f.row ++ [entered]) = row
    simp only [Forest.map, Forest.mk.injEq, true_and]
    constructor
    · split
      · rfl
      · rw [List.map_append, correctLast_map]
    · split
      · exact placed ((row.getLast?.getD entered).knot :: b.right)
      · rw [List.map_append, ← placed, ← correctLast_map]
        rfl

private theorem under_map (f : Forest ν α) (label : ν) :
    (f.map g).under (g label) = (f.under label).map g := by
  have ways : ways (f.map g).row = ways f.row := congrArg Prod.fst (spread_map _ f.row)
  have settled : settle (f.map g).row = (settle f.row).map (Slot.map (Block.map g)) :=
    settle_map _ f.row
  simp only [Forest.under, Block.map, ways, settled, Block.mk.injEq, true_and]
  refine ⟨?_, ?_, ?_, ?_⟩
  · simp only [List.map_map, Function.comp_def, draft_map]
  · rw [List.head?_map, List.getLast?_map]
    cases (settle f.row).head? <;> cases (settle f.row).getLast? <;> rfl
  · exact shiftHead_map g _ _
  · rw [← shiftHead_map]
    simp only [Forest.map, List.map_map]
    rfl

mutual

private theorem block_map : ∀ r : Rose ν,
    block separation (r.map g) = (block (separationOf separation g) r).map g
  | .mk label children => by
    have row := forest_map .empty children
    rw [Rose.map, block, block, ← under_map, ← row]
    rfl

private theorem forest_map (f : Forest ν α) : ∀ rs : List (Rose ν),
    forest separation (f.map g) (Rose.mapAll g rs) =
      (forest (separationOf separation g) f rs).map g
  | [] => rfl
  | r :: rs => by
    rw [Rose.mapAll, forest, block_map r, append_map, forest_map _ rs, forest]

end

mutual

private theorem place_map (base : α) : ∀ d : Draft ν α,
    (d.map g).place base = (d.place base).map (Prod.map g id)
  | .mk label coordinate offset children => by
    rw [Draft.map, Draft.place, placeAll_map (offset + base) children]
    rfl

private theorem placeAll_map (base : α) : ∀ ds : List (Draft ν α),
    Draft.placeAll base (Draft.mapAll g ds) = Rose.mapAll (Prod.map g id) (Draft.placeAll base ds)
  | [] => rfl
  | d :: ds => by
    rw [Draft.mapAll, Draft.placeAll, place_map base d, placeAll_map base ds]
    rfl

end

theorem tidy_map (r : Rose ν) :
    tidy separation (r.map g) =
      (tidy (separationOf separation g) r).map (Prod.map g id) := by
  have entered := enter_map separation g .empty (block (separationOf separation g) r)
  rw [← block_map] at entered
  rw [tidy, show (Forest.empty : Forest μ α) = Forest.empty.map g from rfl, entered, draft_map,
    place_map]
  rfl

end Labels

mutual

private theorem exists_map_val {p : ν → Prop} :
    ∀ {r : Rose ν}, (∀ a ∈ r.preorder, p a) → ∃ s : Rose {a // p a}, s.map Subtype.val = r
  | .mk label children, h => by
    rw [Rose.preorder, List.forall_mem_cons] at h
    obtain ⟨below, same⟩ := exists_mapAll_val h.2
    exact ⟨.mk ⟨label, h.1⟩ below, by rw [Rose.map, same]⟩

private theorem exists_mapAll_val {p : ν → Prop} : ∀ {rs : List (Rose ν)},
    (∀ a ∈ Rose.preorderAll rs, p a) →
      ∃ ss : List (Rose {a // p a}), Rose.mapAll Subtype.val ss = rs
  | [], _ => ⟨[], rfl⟩
  | r :: rs, h => by
    rw [Rose.preorderAll, List.forall_mem_append] at h
    obtain ⟨first, same⟩ := exists_map_val h.1
    obtain ⟨rest, sameRest⟩ := exists_mapAll_val h.2
    exact ⟨first :: rest, by rw [Rose.mapAll, same, sameRest]⟩

end

theorem tidy_congr {separation separation' : ν → ν → α} {r : Rose ν}
    (h : ∀ a ∈ r.preorder, ∀ b ∈ r.preorder, separation a b = separation' a b) :
    tidy separation r = tidy separation' r := by
  obtain ⟨s, hs⟩ := exists_map_val (p := (· ∈ r.preorder)) fun _ ha => ha
  have agree : separationOf separation (Subtype.val : {a // a ∈ r.preorder} → ν) =
      separationOf separation' Subtype.val := by
    funext a b
    exact h a a.2 b b.2
  rw [← hs, tidy_map, tidy_map, agree]

end TidyTree.Placement
