import Mathlib
import TidyTree.Placement.Tidy
import TidyTree.Scalar.Exact

set_option autoImplicit false
set_option relaxedAutoImplicit false

namespace TidyTree.Rose

variable {ν μ : Type}

mutual

/-- The labels at a depth, in pre-order. -/
def level : Rose ν → Nat → List ν
  | mk label _, 0 => [label]
  | mk _ children, depth + 1 => levelAll children depth

def levelAll : List (Rose ν) → Nat → List ν
  | [], _ => []
  | r :: rs, depth => r.level depth ++ levelAll rs depth

end

mutual

/-- A tree and all trees below its root. -/
def subtrees : Rose ν → List (Rose ν)
  | mk label children => mk label children :: subtreesAll children

def subtreesAll : List (Rose ν) → List (Rose ν)
  | [] => []
  | r :: rs => r.subtrees ++ subtreesAll rs

end

theorem levelAll_eq_flatMap (rs : List (Rose ν)) (depth : Nat) :
    levelAll rs depth = rs.flatMap (·.level depth) := by
  induction rs with
  | nil => rfl
  | cons r rs ih => simp [levelAll, ih]

theorem subtreesAll_eq_flatMap (rs : List (Rose ν)) : subtreesAll rs = rs.flatMap subtrees := by
  induction rs with
  | nil => rfl
  | cons r rs ih => simp [subtreesAll, ih]

private theorem mapAll_eq_map (f : ν → μ) (rs : List (Rose ν)) : mapAll f rs = rs.map (map f) := by
  induction rs with
  | nil => rfl
  | cons r rs ih => simp [mapAll, ih]

theorem level_zero (r : Rose ν) : r.level 0 = [r.label] := by
  cases r
  rfl

theorem level_succ (r : Rose ν) (depth : Nat) : r.level (depth + 1) = levelAll r.children depth := by
  cases r
  rfl

@[simp] theorem label_mk (label : ν) (children : List (Rose ν)) : (mk label children).label = label :=
  rfl

@[simp] theorem children_mk (label : ν) (children : List (Rose ν)) :
    (mk label children).children = children := rfl

@[simp] theorem label_map (f : ν → μ) (r : Rose ν) : (r.map f).label = f r.label := by
  cases r
  rfl

@[simp] theorem children_map (f : ν → μ) (r : Rose ν) :
    (r.map f).children = r.children.map (map f) := by
  obtain ⟨label, children⟩ := r
  exact mapAll_eq_map f children

mutual

theorem map_map {ξ : Type} (f : ν → μ) (g : μ → ξ) :
    ∀ r : Rose ν, (r.map f).map g = r.map fun label => g (f label)
  | mk label children => by
    simp only [map, mapAll_mapAll f g children]

private theorem mapAll_mapAll {ξ : Type} (f : ν → μ) (g : μ → ξ) :
    ∀ rs : List (Rose ν), mapAll g (mapAll f rs) = mapAll (fun label => g (f label)) rs
  | [] => rfl
  | r :: rs => by
    simp only [mapAll, map_map f g r, mapAll_mapAll f g rs]

end

mutual

theorem map_id : ∀ r : Rose ν, r.map (fun label => label) = r
  | mk label children => by
    rw [map, mapAll_id children]

private theorem mapAll_id : ∀ rs : List (Rose ν), mapAll (fun label => label) rs = rs
  | [] => rfl
  | r :: rs => by
    rw [mapAll, map_id r, mapAll_id rs]

end

mutual

theorem preorder_map (f : ν → μ) : ∀ r : Rose ν, (r.map f).preorder = r.preorder.map f
  | mk label children => by
    rw [map, preorder, preorder, List.map_cons, preorderAll_mapAll f children]

private theorem preorderAll_mapAll (f : ν → μ) :
    ∀ rs : List (Rose ν), preorderAll (mapAll f rs) = (preorderAll rs).map f
  | [] => rfl
  | r :: rs => by
    rw [mapAll, preorderAll, preorderAll, List.map_append, preorder_map f r,
      preorderAll_mapAll f rs]

end

mutual

theorem exists_mem_level {v : ν} : ∀ {r : Rose ν}, v ∈ r.preorder → ∃ depth, v ∈ r.level depth
  | mk label children, h => by
    rw [preorder, List.mem_cons] at h
    rcases h with rfl | h
    · exact ⟨0, List.mem_singleton_self _⟩
    · obtain ⟨depth, below⟩ := exists_mem_levelAll h
      exact ⟨depth + 1, below⟩

theorem exists_mem_levelAll {v : ν} :
    ∀ {rs : List (Rose ν)}, v ∈ preorderAll rs → ∃ depth, v ∈ levelAll rs depth
  | [], h => absurd h List.not_mem_nil
  | r :: rs, h => by
    rw [preorderAll, List.mem_append] at h
    rcases h with h | h
    · obtain ⟨depth, here⟩ := exists_mem_level h
      exact ⟨depth, List.mem_append_left _ here⟩
    · obtain ⟨depth, there⟩ := exists_mem_levelAll h
      exact ⟨depth, List.mem_append_right _ there⟩

end

mutual

theorem level_subset_preorder : ∀ (r : Rose ν) (depth : Nat), r.level depth ⊆ r.preorder
  | mk label children, 0 => by
    rw [level, preorder]
    exact List.cons_subset_cons _ (List.nil_subset _)
  | mk label children, depth + 1 => by
    rw [level, preorder]
    exact List.subset_cons_of_subset _ (levelAll_subset_preorderAll children depth)

private theorem levelAll_subset_preorderAll :
    ∀ (rs : List (Rose ν)) (depth : Nat), levelAll rs depth ⊆ preorderAll rs
  | [], _ => List.nil_subset _
  | r :: rs, depth => by
    rw [levelAll, preorderAll]
    exact List.append_subset.mpr
      ⟨List.subset_append_of_subset_left _ (level_subset_preorder r depth),
        List.subset_append_of_subset_right _ (levelAll_subset_preorderAll rs depth)⟩

end

private theorem levelAll_unique {v : ν} : ∀ {rs : List (Rose ν)} {i j : Nat},
    (preorderAll rs).Nodup →
    v ∈ levelAll rs i → v ∈ levelAll rs j → i = j
  | [], _, _, _, hi, _ => absurd hi List.not_mem_nil
  | mk label children :: rs, i, j, once, hi, hj => by
    rw [preorderAll, preorder, List.cons_append, List.nodup_cons, List.nodup_append] at once
    obtain ⟨top, below, rest, apart⟩ := once
    have inside {k : Nat} (hk : v ∈ levelAll children k) : v ∈ preorderAll children :=
      levelAll_subset_preorderAll children k hk
    have beside {k : Nat} (hk : v ∈ levelAll rs k) : v ∈ preorderAll rs :=
      levelAll_subset_preorderAll rs k hk
    have cases {k : Nat} (hk : v ∈ levelAll (mk label children :: rs) k) :
        (k = 0 ∧ v = label) ∨ (∃ n, k = n + 1 ∧ v ∈ levelAll children n) ∨ v ∈ levelAll rs k := by
      rw [levelAll, List.mem_append] at hk
      rcases hk with hk | hk
      · cases k with
        | zero => exact Or.inl ⟨rfl, List.mem_singleton.mp hk⟩
        | succ n => exact Or.inr (Or.inl ⟨n, rfl, hk⟩)
      · exact Or.inr (Or.inr hk)
    rw [List.mem_append, not_or] at top
    rcases cases hi with ⟨rfl, rfl⟩ | ⟨n, rfl, hn⟩ | hi <;>
      rcases cases hj with ⟨rfl, same⟩ | ⟨m, rfl, hm⟩ | hj
    · rfl
    · exact absurd (inside hm) top.1
    · exact absurd (beside hj) top.2
    · exact absurd (inside hn) (same ▸ top.1)
    · exact congrArg (· + 1) (levelAll_unique below hn hm)
    · exact absurd rfl (apart v (inside hn) v (beside hj))
    · exact absurd (beside hi) (same ▸ top.2)
    · exact absurd rfl (apart v (inside hm) v (beside hi))
    · exact levelAll_unique rest hi hj

/-- A node from each level, from the top on. -/
def GoesDown (rs : List (Rose ν)) (path : List ν) : Prop :=
  ∀ (depth : Nat) (v : ν), path[depth]? = some v → v ∈ levelAll rs depth

theorem GoesDown.subset {rs : List (Rose ν)} {path : List ν} (h : GoesDown rs path) :
    path ⊆ preorderAll rs := by
  intro v hv
  obtain ⟨depth, hdepth⟩ := List.getElem?_of_mem hv
  exact levelAll_subset_preorderAll rs depth (h depth v hdepth)

theorem GoesDown.nodup {rs : List (Rose ν)} {path : List ν} (h : GoesDown rs path)
    (once : (preorderAll rs).Nodup) : path.Nodup := by
  rw [List.nodup_iff_getElem?_ne_getElem?]
  intro i j hij hj same
  have hv := List.getElem?_eq_getElem hj
  have here := levelAll_unique once (h i _ (same.trans hv)) (h j _ hv)
  exact hij.ne here

private theorem mem_levelAll_zero {rs : List (Rose ν)} {v : ν} :
    v ∈ levelAll rs 0 ↔ v ∈ rs.map label := by
  simp [levelAll_eq_flatMap, level_zero, eq_comm]

theorem GoesDown.tail_aside {rs : List (Rose ν)} {path : List ν} (h : GoesDown rs path)
    (once : (preorderAll rs).Nodup) {v : ν} (hv : v ∈ path.tail) : v ∉ rs.map label := by
  intro top
  obtain ⟨depth, hdepth⟩ := List.getElem?_of_mem hv
  rw [List.getElem?_tail] at hdepth
  have here := levelAll_unique once (h (depth + 1) v hdepth) (mem_levelAll_zero.mpr top)
  exact Nat.succ_ne_zero depth here

theorem label_not_mem_below {rs : List (Rose ν)} (once : (preorderAll rs).Nodup) {c : Rose ν}
    (hc : c ∈ rs) {v : ν} (hv : v ∈ preorderAll c.children) : v ∉ rs.map label := by
  intro top
  obtain ⟨depth, hdepth⟩ := exists_mem_levelAll hv
  have below : v ∈ levelAll rs (depth + 1) := by
    rw [levelAll_eq_flatMap]
    exact List.mem_flatMap.mpr ⟨c, hc, by rwa [level_succ]⟩
  have here := levelAll_unique once below (mem_levelAll_zero.mpr top)
  exact Nat.succ_ne_zero depth here

theorem map_label_sublist (rs : List (Rose ν)) : (rs.map label).Sublist (preorderAll rs) := by
  induction rs with
  | nil => exact .slnil
  | cons r rs ih =>
    obtain ⟨v, children⟩ := r
    exact .cons_cons v (ih.trans (List.sublist_append_right _ _))

mutual

theorem level_map (f : ν → μ) : ∀ (r : Rose ν) (depth : Nat), (r.map f).level depth = (r.level depth).map f
  | mk _ _, 0 => rfl
  | mk _ children, depth + 1 => levelAll_mapAll f children depth

private theorem levelAll_mapAll (f : ν → μ) :
    ∀ (rs : List (Rose ν)) (depth : Nat), levelAll (mapAll f rs) depth = (levelAll rs depth).map f
  | [], _ => rfl
  | r :: rs, depth => by
    simp only [mapAll, levelAll, List.map_append, level_map f r depth, levelAll_mapAll f rs depth]

end

theorem levelAll_map (f : ν → μ) (rs : List (Rose ν)) (depth : Nat) :
    levelAll (rs.map (map f)) depth = (levelAll rs depth).map f := by
  rw [← mapAll_eq_map, levelAll_mapAll]

mutual

theorem subtrees_map (f : ν → μ) : ∀ r : Rose ν, (r.map f).subtrees = r.subtrees.map (map f)
  | mk label children => by
    simp only [map, subtrees, List.map_cons, subtreesAll_mapAll f children]

private theorem subtreesAll_mapAll (f : ν → μ) :
    ∀ rs : List (Rose ν), subtreesAll (mapAll f rs) = (subtreesAll rs).map (map f)
  | [] => rfl
  | r :: rs => by
    simp only [mapAll, subtreesAll, List.map_append, subtrees_map f r, subtreesAll_mapAll f rs]

end

mutual

private theorem level_ne_nil_of_succ :
    ∀ (r : Rose ν) (depth : Nat), r.level (depth + 1) ≠ [] → r.level depth ≠ []
  | mk _ _, 0 => by simp [level]
  | mk _ children, depth + 1 => levelAll_ne_nil_of_succ children depth

private theorem levelAll_ne_nil_of_succ :
    ∀ (rs : List (Rose ν)) (depth : Nat), levelAll rs (depth + 1) ≠ [] → levelAll rs depth ≠ []
  | [], _ => by simp [levelAll]
  | r :: rs, depth => by
    simp only [levelAll, ne_eq, List.append_eq_nil_iff, not_and_or]
    exact Or.imp (level_ne_nil_of_succ r depth) (levelAll_ne_nil_of_succ rs depth)

end

theorem level_ne_nil_of_le (r : Rose ν) {shallow deep : Nat} (h : shallow ≤ deep)
    (hdeep : r.level deep ≠ []) : r.level shallow ≠ [] := by
  induction h with
  | refl => exact hdeep
  | step _ ih => exact ih (level_ne_nil_of_succ r _ hdeep)

/-- The coordinate of a root is the mean of those of its first and last child. -/
def IsCentredAt (r : Rose (ν × Rat)) : Prop :=
  ∀ first ∈ r.children.head?, ∀ last ∈ r.children.getLast?,
    r.label.2 = (first.label.2 + last.label.2) / 2

/-- Every node with children stands in the middle above its first and last child. -/
def IsCentred (r : Rose (ν × Rat)) : Prop := ∀ t ∈ r.subtrees, t.IsCentredAt

theorem isCentred_mk {label : ν × Rat} {children : List (Rose (ν × Rat))}
    (root : (mk label children).IsCentredAt) (below : ∀ r ∈ children, r.IsCentred) :
    (mk label children).IsCentred := by
  intro t ht
  simp only [subtrees, subtreesAll_eq_flatMap, List.mem_cons, List.mem_flatMap] at ht
  rcases ht with rfl | ⟨r, hr, ht⟩
  · exact root
  · exact below r hr t ht

end TidyTree.Rose

namespace TidyTree.Placement

variable {ν : Type}

def shiftBy (way : Rat) (p : ν × Rat) : ν × Rat := (p.1, p.2 + way)

@[simp] theorem shiftBy_fst (way : Rat) (p : ν × Rat) : (shiftBy way p).1 = p.1 := rfl

@[simp] theorem shiftBy_snd (way : Rat) (p : ν × Rat) : (shiftBy way p).2 = p.2 + way := rfl

@[simp] theorem shiftBy_zero (p : ν × Rat) : shiftBy 0 p = p := by
  simp [shiftBy]

theorem shiftBy_shiftBy (way more : Rat) (p : ν × Rat) :
    shiftBy way (shiftBy more p) = shiftBy (more + way) p := by
  simp [shiftBy, add_assoc]

/-- Two neighbours on a level are at least their separation apart. -/
def IsApart (separation : ν → ν → Rat) (p q : ν × Rat) : Prop := separation p.1 q.1 ≤ q.2 - p.2

private theorem isApart_shift (separation : ν → ν → Rat) (way : Rat) (p q : ν × Rat) :
    IsApart separation (shiftBy way p) (shiftBy way q) ↔ IsApart separation p q := by
  simp [IsApart]

theorem isChain_map_shift (separation : ν → ν → Rat) (way : Rat) (ps : List (ν × Rat)) :
    (ps.map (shiftBy way)).IsChain (IsApart separation) ↔ ps.IsChain (IsApart separation) := by
  rw [List.isChain_map]
  simp only [isApart_shift]

theorem isCentred_shift {r : Rose (ν × Rat)} (way : Rat) (h : r.IsCentred) :
    (r.map (shiftBy way)).IsCentred := by
  intro t ht
  rw [Rose.subtrees_map] at ht
  obtain ⟨u, hu, rfl⟩ := List.mem_map.mp ht
  intro first hfirst last hlast
  simp only [Rose.children_map, List.head?_map, List.getLast?_map, Option.mem_def,
    Option.map_eq_some_iff] at hfirst hlast
  obtain ⟨first, hfirst, rfl⟩ := hfirst
  obtain ⟨last, hlast, rfl⟩ := hlast
  have centred := h u hu first hfirst last hlast
  simp only [Rose.label_map, shiftBy_snd]
  rw [centred]
  ring

theorem placeAll_eq_map (base : Rat) (ds : List (Draft ν Rat)) :
    Draft.placeAll base ds = ds.map (Draft.place base) := by
  induction ds with
  | nil => rfl
  | cons d ds ih => simp [Draft.placeAll, ih]

mutual

theorem place_add (base way : Rat) :
    ∀ d : Draft ν Rat, d.place (base + way) = (d.place base).map (shiftBy way)
  | .mk label coordinate offset children => by
    simp only [Draft.place, Rose.map, shiftBy]
    rw [show offset + (base + way) = (offset + base) + way by ring,
      placeAll_add (offset + base) way children, add_assoc]

private theorem placeAll_add (base way : Rat) :
    ∀ ds : List (Draft ν Rat),
      Draft.placeAll (base + way) ds = Rose.mapAll (shiftBy way) (Draft.placeAll base ds)
  | [] => rfl
  | d :: ds => by
    simp only [Draft.placeAll, Rose.mapAll, place_add base way d, placeAll_add base way ds]

end

/-- A drawing at a base is the drawing at zero, shifted. -/
theorem placeAll_eq_shift (base : Rat) (ds : List (Draft ν Rat)) :
    Draft.placeAll base ds = (Draft.placeAll 0 ds).map (Rose.map (shiftBy base)) := by
  rw [← Rose.mapAll_eq_map, ← placeAll_add, zero_add]

end TidyTree.Placement
