import Mathlib
import TidyTree.Table

set_option autoImplicit false
set_option relaxedAutoImplicit false

namespace TidyTree

namespace Key

variable {κ : Type} [Key κ]

theorem ne_of_lt {a b : κ} (h : a < b) : a ≠ b := by
  rintro rfl
  exact Key.irrefl a h

private theorem not_lt_of_lt {a b : κ} (h : a < b) : ¬ b < a := fun h' => Key.irrefl a
    (Key.trans h h')

private theorem lt_or_lt_of_ne {a b : κ} (h : a ≠ b) : a < b ∨ b < a :=
  (Key.total a b).imp_right fun rest => rest.resolve_left h

end Key

namespace Table

variable {κ β γ : Type} [Key κ]

private theorem lookup_eq_some_iff {k : κ} {v : β} {entries : List (κ × β)}
    (sorted : entries.Pairwise fun a b => a.1 < b.1) :
    lookup k entries = some v ↔ (k, v) ∈ entries := by
  induction entries with
  | nil => simp [lookup]
  | cons e rest ih =>
    obtain ⟨j, w⟩ := e
    obtain ⟨first, sorted⟩ := List.pairwise_cons.mp sorted
    have behind : (k, v) ∈ rest → j < k := fun h => first _ h
    rw [lookup, List.mem_cons, Prod.mk.injEq]
    rcases Key.total j k with less | rfl | more
    · rw [if_pos less, ih sorted]
      exact (or_iff_right fun h => Key.ne_of_lt less h.1.symm).symm
    · rw [if_neg (Key.irrefl j), if_neg (Key.irrefl j), Option.some.injEq]
      exact ⟨fun h => Or.inl ⟨rfl, h.symm⟩,
        fun h => h.elim (fun h => h.2.symm) fun h => absurd (behind h) (Key.irrefl j)⟩
    · rw [if_neg (Key.not_lt_of_lt more), if_pos more]
      refine ⟨fun h => absurd h (by simp), fun h => ?_⟩
      rcases h with h | h
      · exact absurd h.1 (Key.ne_of_lt more)
      · exact absurd (behind h) (Key.not_lt_of_lt more)

theorem get?_eq_some_iff {t : Table κ β} {k : κ} {v : β} :
    t.get? k = some v ↔ (k, v) ∈ t.entries := lookup_eq_some_iff t.sorted

private theorem mem_put_iff {k : κ} {v : β} {entries : List (κ × β)}
    (sorted : entries.Pairwise fun a b => a.1 < b.1) (e : κ × β) :
    e ∈ put k v entries ↔ e = (k, v) ∨ (e ∈ entries ∧ e.1 ≠ k) := by
  induction entries with
  | nil => simp [put]
  | cons head rest ih =>
    obtain ⟨j, w⟩ := head
    obtain ⟨first, sorted⟩ := List.pairwise_cons.mp sorted
    rcases Key.total j k with less | rfl | more
    · rw [put, if_pos less, List.mem_cons, ih sorted, List.mem_cons]
      have other : e = (j, w) → e.1 ≠ k := fun h => h ▸ Key.ne_of_lt less
      tauto
    · rw [put, if_neg (Key.irrefl j), if_neg (Key.irrefl j), List.mem_cons, List.mem_cons]
      have other : e ∈ rest → e.1 ≠ j := fun h => (Key.ne_of_lt (first e h)).symm
      have same : e = (j, w) → e.1 = j := fun h => h ▸ rfl
      tauto
    · have other : e ∈ (j, w) :: rest → e.1 ≠ k := by
        intro h
        rcases List.mem_cons.mp h with rfl | h
        · exact (Key.ne_of_lt more).symm
        · exact (Key.ne_of_lt (Key.trans more (first e h))).symm
      rw [put, if_neg (Key.not_lt_of_lt more), if_pos more, List.mem_cons]
      tauto

theorem mem_keys_iff {t : Table κ β} {k : κ} :
    k ∈ t.entries.map Prod.fst ↔ t.contains k = true := by
  rw [contains, Option.isSome_iff_exists, List.mem_map]
  constructor
  · rintro ⟨⟨_, v⟩, h, rfl⟩
    exact ⟨v, get?_eq_some_iff.mpr h⟩
  · rintro ⟨v, h⟩
    exact ⟨(k, v), get?_eq_some_iff.mp h, rfl⟩

theorem pairwise_keys (t : Table κ β) : (t.entries.map Prod.fst).Pairwise (· < ·) :=
  List.pairwise_map.mpr t.sorted

@[simp] theorem get?_empty (k : κ) : (empty : Table κ β).get? k = none := rfl

@[simp] theorem get?_insert_self (t : Table κ β) (k : κ) (v : β) :
    (t.insert k v).get? k = some v :=
  get?_eq_some_iff.mpr ((mem_put_iff t.sorted _).mpr (Or.inl rfl))

theorem get?_insert_of_ne (t : Table κ β) {j k : κ} (v : β) (h : j ≠ k) :
    (t.insert k v).get? j = t.get? j := by
  apply Option.ext
  intro w
  rw [get?_eq_some_iff, get?_eq_some_iff, insert, mem_put_iff t.sorted]
  have other : (j, w) ≠ (k, v) := fun same => h (congrArg Prod.fst same)
  exact (or_iff_right other).trans (and_iff_left h)

@[simp] theorem get?_filter (t : Table κ β) (p : κ → β → Bool) (k : κ) :
    (t.filter p).get? k = (t.get? k).filter (p k) := by
  apply Option.ext
  intro w
  rw [get?_eq_some_iff, filter, List.mem_filter, ← get?_eq_some_iff, Option.filter_eq_some_iff]

@[simp] theorem get?_map (t : Table κ β) (f : κ → β → γ) (k : κ) :
    (t.map f).get? k = (t.get? k).map (f k) := by
  apply Option.ext
  intro w
  simp only [get?_eq_some_iff, map, List.mem_map, Option.map_eq_some_iff]
  constructor
  · rintro ⟨⟨j, v⟩, h, same⟩
    obtain ⟨rfl, rfl⟩ := Prod.mk.inj same
    exact ⟨v, h, rfl⟩
  · rintro ⟨v, h, rfl⟩
    exact ⟨(k, v), h, rfl⟩

theorem get?_erase_self (t : Table κ β) (k : κ) : (t.erase k).get? k = none := by
  rw [erase, get?_filter, decide_eq_false (Key.irrefl k)]
  cases t.get? k <;> rfl

theorem get?_erase_of_ne (t : Table κ β) {j k : κ} (h : j ≠ k) :
    (t.erase k).get? j = t.get? j := by
  have apart : (decide (j < k) || decide (k < j)) = true := by
    simpa using Key.lt_or_lt_of_ne h
  rw [erase, get?_filter, apart]
  cases t.get? j <;> rfl

theorem get?_modify_self (t : Table κ β) (k : κ) (f : β → β) :
    (t.modify k f).get? k = (t.get? k).map f := by
  rw [modify, get?_map]
  simp [Key.irrefl k]

theorem get?_modify_of_ne (t : Table κ β) {j k : κ} (f : β → β) (h : j ≠ k) :
    (t.modify k f).get? j = t.get? j := by
  rw [modify, get?_map]
  simp [Key.lt_or_lt_of_ne h]

theorem any_eq_false_iff {t : Table κ β} {p : κ → β → Bool} :
    t.any p = false ↔ ∀ k v, t.get? k = some v → p k v = false := by
  simp only [any, List.any_eq_false, get?_eq_some_iff, Prod.forall, Bool.not_eq_true]

theorem get?_foldl_insert_of_not_mem (key : β → κ) (bs : List β) (t : Table κ β) {k : κ}
    (h : k ∉ bs.map key) :
    (bs.foldl (fun table b => table.insert (key b) b) t).get? k = t.get? k := by
  induction bs generalizing t with
  | nil => rfl
  | cons b bs ih =>
    rw [List.map_cons, List.mem_cons, not_or] at h
    rw [List.foldl_cons, ih _ h.2, get?_insert_of_ne t b h.1]

theorem get?_foldl_insert_of_mem (key : β → κ) {bs : List β} (t : Table κ β)
    (nodup : (bs.map key).Nodup) {b : β} (h : b ∈ bs) :
    (bs.foldl (fun table b => table.insert (key b) b) t).get? (key b) = some b := by
  induction bs generalizing t with
  | nil => exact absurd h List.not_mem_nil
  | cons c bs ih =>
    obtain ⟨fresh, nodup⟩ := List.nodup_cons.mp nodup
    rw [List.foldl_cons]
    rcases List.mem_cons.mp h with rfl | h
    · rw [get?_foldl_insert_of_not_mem key bs _ fresh, get?_insert_self]
    · exact ih _ nodup h

theorem get?_foldl_insert_const [DecidableEq κ] {ι : Type} (key : ι → κ) (is : List ι)
    (t : Table κ β) (v : β) (k : κ) :
    (is.foldl (fun table i => table.insert (key i) v) t).get? k =
      if k ∈ is.map key then some v else t.get? k := by
  induction is generalizing t with
  | nil => rfl
  | cons i is ih =>
    rw [List.foldl_cons, ih, List.map_cons]
    by_cases later : k ∈ is.map key
    · rw [if_pos later, if_pos (List.mem_cons_of_mem _ later)]
    rw [if_neg later]
    by_cases here : k = key i
    · rw [here, get?_insert_self, if_pos List.mem_cons_self]
    · rw [get?_insert_of_ne t v here, if_neg (List.not_mem_cons_of_ne_of_not_mem here later)]

theorem ext {t u : Table κ β} (h : ∀ k, t.get? k = u.get? k) : t = u := by
  have same : ∀ e : κ × β, e ∈ t.entries ↔ e ∈ u.entries := by
    rintro ⟨k, v⟩
    rw [← get?_eq_some_iff, h, get?_eq_some_iff]
  have nodup : ∀ t : Table κ β, t.entries.Nodup := fun t =>
    t.sorted.imp fun less eq => Key.ne_of_lt less (congrArg Prod.fst eq)
  have perm := (List.perm_ext_iff_of_nodup (nodup t) (nodup u)).mpr same
  have entries : t.entries = u.entries :=
    perm.eq_of_pairwise (fun _ _ _ _ less more => absurd more (Key.not_lt_of_lt less)) t.sorted
      u.sorted
  cases t
  cases u
  cases entries
  rfl

end Table

end TidyTree
