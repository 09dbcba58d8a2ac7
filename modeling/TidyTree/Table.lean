set_option autoImplicit false
set_option relaxedAutoImplicit false

namespace TidyTree

class Key (κ : Type) extends LT κ where
  decideLT : DecidableLT κ
  irrefl : ∀ a : κ, ¬ a < a
  trans : ∀ {a b c : κ}, a < b → b < c → a < c
  total : ∀ a b : κ, a < b ∨ a = b ∨ b < a

instance : Key Nat where
  decideLT := inferInstance
  irrefl := Nat.lt_irrefl
  trans := Nat.lt_trans
  total := Nat.lt_trichotomy

structure Table (κ β : Type) [Key κ] where
  entries : List (κ × β)
  sorted : entries.Pairwise (fun a b => a.1 < b.1)

namespace Table

variable {κ β γ : Type} [Key κ]

instance : DecidableLT κ := Key.decideLT

def lookup (k : κ) : List (κ × β) → Option β
  | [] => none
  | (j, v) :: rest => if j < k then lookup k rest else if k < j then none else some v

/-- Put a value into a list at the place of its key. -/
def put (k : κ) (v : β) : List (κ × β) → List (κ × β)
  | [] => [(k, v)]
  | (j, w) :: rest =>
    if j < k then (j, w) :: put k v rest
    else if k < j then (k, v) :: (j, w) :: rest
    else (k, v) :: rest

private theorem mem_put {k : κ} {v : β} {entries : List (κ × β)} {e : κ × β}
    (h : e ∈ put k v entries) :
    e = (k, v) ∨ e ∈ entries := by
  induction entries with
  | nil => simpa [put] using h
  | cons head rest ih =>
    obtain ⟨j, w⟩ := head
    simp only [put] at h
    split at h
    · rcases List.mem_cons.1 h with rfl | h
      · exact Or.inr List.mem_cons_self
      · exact (ih h).imp_right (List.mem_cons_of_mem _)
    · split at h
      · rcases List.mem_cons.1 h with rfl | h
        · exact Or.inl rfl
        · exact Or.inr h
      · rcases List.mem_cons.1 h with rfl | h
        · exact Or.inl rfl
        · exact Or.inr (List.mem_cons_of_mem _ h)

private theorem sorted_put (k : κ) (v : β) {entries : List (κ × β)}
    (h : entries.Pairwise (fun a b => a.1 < b.1)) :
    (put k v entries).Pairwise (fun a b => a.1 < b.1) := by
  induction entries with
  | nil => simp [put]
  | cons head rest ih =>
    obtain ⟨j, w⟩ := head
    obtain ⟨hj, hrest⟩ := List.pairwise_cons.1 h
    simp only [put]
    split
    · rename_i hjk
      refine List.pairwise_cons.2 ⟨fun e he => ?_, ih hrest⟩
      rcases mem_put he with rfl | he
      · exact hjk
      · exact hj e he
    · split
      · rename_i hkj
        refine List.pairwise_cons.2 ⟨fun e he => ?_, h⟩
        rcases List.mem_cons.1 he with rfl | he
        · exact hkj
        · exact Key.trans hkj (hj e he)
      · rename_i hjk hkj
        have hk : j = k := (Key.total j k).resolve_left hjk |>.resolve_right hkj
        subst hk
        exact List.pairwise_cons.2 ⟨hj, hrest⟩

def empty : Table κ β := ⟨[], .nil⟩

instance : Inhabited (Table κ β) := ⟨empty⟩

def get? (t : Table κ β) (k : κ) : Option β := lookup k t.entries

def contains (t : Table κ β) (k : κ) : Bool := (t.get? k).isSome

def insert (t : Table κ β) (k : κ) (v : β) : Table κ β := ⟨put k v t.entries, sorted_put k v t.sorted⟩

def filter (t : Table κ β) (p : κ → β → Bool) : Table κ β :=
  ⟨t.entries.filter (fun e => p e.1 e.2), t.sorted.filter _⟩

def map (t : Table κ β) (f : κ → β → γ) : Table κ γ :=
  ⟨t.entries.map (fun e => (e.1, f e.1 e.2)), List.pairwise_map.2 t.sorted⟩

def erase (t : Table κ β) (k : κ) : Table κ β := t.filter (fun j _ => j < k || k < j)

def modify (t : Table κ β) (k : κ) (f : β → β) : Table κ β :=
  t.map (fun j v => if j < k || k < j then v else f v)

def size (t : Table κ β) : Nat := t.entries.length

def any (t : Table κ β) (p : κ → β → Bool) : Bool := t.entries.any (fun e => p e.1 e.2)

end Table

end TidyTree
