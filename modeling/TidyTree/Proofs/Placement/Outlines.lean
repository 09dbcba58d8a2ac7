import TidyTree.Proofs.Placement.Spreading

set_option autoImplicit false
set_option relaxedAutoImplicit false

namespace TidyTree.Placement

variable {ν γ α : Type}

mutual

/-- The tree that a draft is a drawing of. -/
def Draft.outline : Draft ν α → Rose ν
  | .mk label _ _ children => .mk label (outlineAll children)

def Draft.outlineAll : List (Draft ν α) → List (Rose ν)
  | [] => []
  | d :: ds => d.outline :: outlineAll ds

end

theorem Draft.outlineAll_eq_map (ds : List (Draft ν α)) : outlineAll ds = ds.map outline := by
  induction ds with
  | nil => rfl
  | cons d ds ih => rw [outlineAll, ih, List.map_cons]

def Block.outline (b : Block ν α) : Rose ν := .mk b.label (b.children.map Draft.outline)

def Forest.outlines (f : Forest ν α) : List (Rose ν) := (f.row.map (·.content)).map Block.outline

theorem Slot.outline_draft (s : Slot (Block ν α) α) : s.draft.outline = s.content.outline := by
  rw [draft, Draft.outline, Draft.outlineAll_eq_map, Block.outline]

private theorem map_modify {f : Slot γ α → Slot γ α} (h : ∀ s, (f s).content = s.content)
    (row : List (Slot γ α)) (i : Nat) :
    (row.modify i f).map (·.content) = row.map (·.content) := by
  induction row generalizing i with
  | nil => cases i <;> rfl
  | cons s row ih =>
    cases i with
    | zero => rw [List.modify_zero_cons, List.map_cons, List.map_cons, h]
    | succ i => rw [List.modify_succ_cons, List.map_cons, List.map_cons, ih]

variable [Scalar α]

mutual

private theorem Draft.map_fst_place (base : α) :
    ∀ d : Draft ν α, (d.place base).map Prod.fst = d.outline
  | .mk label coordinate offset children => by
    rw [place, Rose.map, outline, mapAll_fst_placeAll (offset + base) children]

private theorem Draft.mapAll_fst_placeAll (base : α) :
    ∀ ds : List (Draft ν α), Rose.mapAll Prod.fst (placeAll base ds) = outlineAll ds
  | [] => rfl
  | d :: ds => by
    rw [placeAll, Rose.mapAll, outlineAll, map_fst_place base d, mapAll_fst_placeAll base ds]

end

theorem map_content_move (row : List (Slot γ α)) (blocker mover : Nat) (distance : α) :
    (move row blocker mover distance).map (·.content) = row.map (·.content) := by
  rw [move, map_modify, map_modify] <;> exact fun _ => rfl

theorem move_concat (row : List (Slot γ α)) (s : Slot γ α) {blocker : Nat}
    (h : blocker < row.length) (distance : α) :
    move (row ++ [s]) blocker row.length distance =
      row.modify blocker (·.blocked (distance / ((row.length - blocker : Nat) : α))) ++
        [s.moved distance (distance / ((row.length - blocker : Nat) : α))] := by
  apply List.ext_getElem?
  intro i
  simp only [move, List.getElem?_modify]
  rcases lt_trichotomy i row.length with inside | rfl | outside
  · rw [List.getElem?_append_left inside, List.getElem?_append_left (by simpa using inside),
      List.getElem?_modify]
    simp [inside.ne']
  · rw [List.getElem?_append_right (by simp)]
    simp [h.ne]
  · rw [List.getElem?_eq_none (by simpa using outside),
      List.getElem?_eq_none (by simpa using outside)]
    rfl

theorem map_content_foldl_move (row : List (Slot γ α)) (moves : List (Nat × α)) (mover : Nat) :
    (moves.foldl (fun row m => move row m.1 mover m.2) row).map (·.content) =
      row.map (·.content) := by
  induction moves generalizing row with
  | nil => rfl
  | cons m moves ih => rw [List.foldl_cons, ih, map_content_move]

private theorem map_content_settle (row : List (Slot γ α)) :
    (settle row).map (·.content) = row.map (·.content) := by
  apply List.ext_getElem?
  intro i
  rw [settle, List.getElem?_map, List.getElem?_map, List.getElem?_zipWith]
  cases hs : row[i]? with
  | none => rfl
  | some s =>
    have inside : i < (ways row).length := by
      rw [length_ways]
      exact (List.getElem?_eq_some_iff.mp hs).1
    rw [List.getElem?_eq_getElem inside]
    rfl

@[simp] theorem Forest.content_enter {separation : ν → ν → α} (f : Forest ν α) (b : Block ν α) :
    (f.enter separation b).content = b := by
  unfold enter
  split <;> rfl

theorem Forest.contents_append (separation : ν → ν → α) (f : Forest ν α) (b : Block ν α) :
    (f.append separation b).row.map (·.content) = f.row.map (·.content) ++ [b] := by
  unfold append
  split
  · next hrow => simp [List.isEmpty_iff.mp hrow]
  · simp [map_content_foldl_move]

theorem Forest.outlines_append (separation : ν → ν → α) (f : Forest ν α) (b : Block ν α) :
    (f.append separation b).outlines = f.outlines ++ [b.outline] := by
  rw [outlines, contents_append, List.map_append, List.map_singleton, ← outlines]

private theorem Forest.outline_under (f : Forest ν α) (label : ν) :
    (f.under label).outline = .mk label f.outlines := by
  rw [outlines, ← map_content_settle]
  simp [Block.outline, under, Function.comp_def, Slot.outline_draft]

mutual

theorem outline_block (separation : ν → ν → α) : ∀ r : Rose ν, (block separation r).outline = r
  | .mk label children => by
    rw [block, Forest.outline_under, outlines_forest separation .empty children]
    rfl

theorem outlines_forest (separation : ν → ν → α) (f : Forest ν α) :
    ∀ rs : List (Rose ν), (forest separation f rs).outlines = f.outlines ++ rs
  | [] => (List.append_nil _).symm
  | r :: rs => by
    rw [forest, outlines_forest separation _ rs, Forest.outlines_append, outline_block separation r,
      List.append_assoc, List.singleton_append]

end

theorem contents_forest (separation : ν → ν → α) (f : Forest ν α) (rs : List (Rose ν)) :
    (forest separation f rs).row.map (·.content) =
      f.row.map (·.content) ++ rs.map (block separation) := by
  induction rs generalizing f with
  | nil => exact (List.append_nil _).symm
  | cons r rs ih =>
    rw [forest, ih, Forest.contents_append, List.append_assoc, List.singleton_append, List.map_cons]

theorem map_fst_tidy (separation : ν → ν → α) (r : Rose ν) :
    (tidy separation r).map Prod.fst = r := by
  rw [tidy, Draft.map_fst_place, Slot.draft, Forest.content_enter, Draft.outline,
    Draft.outlineAll_eq_map]
  exact outline_block separation r

end TidyTree.Placement
