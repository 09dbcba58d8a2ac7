import TidyTree.Placement.Threads
import TidyTree.Proofs.Placement.Edges

set_option autoImplicit false
set_option relaxedAutoImplicit false

/-!
# Drawings in memory

How the cells of the nodes stand for a row of slots, a drawing and a contour. A contour is traced by
going from node to node; the thread of its last node is free, so it can be tied to what comes below.
The offset of a leaf is never used for a drawing, and takes the correction of the contour.
-/

namespace TidyTree.Placement

variable {α : Type}

namespace Cells

@[simp] theorem alter_self (cells : Cells α) (v : Nat) (f : Cell α → Cell α) :
    cells.alter v f v = f (cells v) := by
  simp [alter, write]

theorem alter_of_ne (cells : Cells α) (f : Cell α → Cell α) {v u : Nat} (h : u ≠ v) :
    cells.alter v f u = cells u := by
  simp [alter, write, h]

theorem field_alter {β : Type} (field : Cell α → β) {f : Cell α → Cell α}
    (kept : ∀ c, field (f c) = field c) (cells : Cells α) (v u : Nat) :
    field (cells.alter v f u) = field (cells u) := by
  by_cases h : u = v
  · rw [h, alter_self, kept]
  · rw [alter_of_ne _ _ h]

theorem knot_alter {f : Cell α → Cell α} (kept : ∀ c, (f c).coordinate = c.coordinate ∧
    (f c).offset = c.offset) (cells : Cells α) (v u : Nat) :
    (cells.alter v f).knot u = cells.knot u := by
  rw [knot, knot, field_alter Cell.coordinate fun c => (kept c).1,
    field_alter Cell.offset fun c => (kept c).2]

/-- The cells follow a contour from node to node. -/
def Traces (next : Nat → Option Nat) (cells : Cells α) : Option Nat → List (Knot Nat α) → Prop
  | start, [] => start = none
  | start, n :: ns =>
    start = some n.label ∧ cells.knot n.label = n ∧ Traces next cells (next n.label) ns

variable {next next' : Nat → Option Nat} {cells cells' : Cells α} {start : Option Nat}
  {ns : List (Knot Nat α)}

theorem Traces.start_eq (h : Traces next cells start ns) : start = ns.head?.map (·.label) := by
  cases ns with
  | nil => exact h
  | cons n ns => exact h.1

theorem Traces.knot_eq (h : Traces next cells start ns) {n : Knot Nat α} (hn : n ∈ ns) :
    cells.knot n.label = n := by
  induction ns generalizing start with
  | nil => exact absurd hn List.not_mem_nil
  | cons m ns ih =>
    rcases List.mem_cons.mp hn with rfl | hn
    · exact h.2.1
    · exact ih h.2.2 hn

theorem Traces.congr (h : Traces next cells start ns)
    (same : ∀ v ∈ ns.map (·.label), next' v = next v ∧ cells'.knot v = cells.knot v) :
    Traces next' cells' start ns := by
  induction ns generalizing start with
  | nil => exact h
  | cons n ns ih =>
    obtain ⟨first, knot, rest⟩ := h
    obtain ⟨sameNext, sameKnot⟩ := same n.label (by simp)
    refine ⟨first, sameKnot.trans knot, ?_⟩
    rw [sameNext]
    exact ih rest fun v hv => same v (List.mem_cons_of_mem _ hv)

private theorem Traces.next_of_last {last : Nat} (h : Traces next cells start ns)
    (ends : (ns.map (·.label)).getLast? = some last) : next last = none := by
  induction ns generalizing start with
  | nil => simp at ends
  | cons n ns ih =>
    cases ns with
    | nil =>
      obtain rfl : n.label = last := by simpa using ends
      exact h.2.2
    | cons m ns =>
      rw [List.map_cons, List.map_cons, List.getLast?_cons_cons, ← List.map_cons] at ends
      exact ih h.2.2 ends

/-- The node below a node on one of the contours: its child at the edge, and its thread without
children. -/
def nextBy (edge : List Nat → Option Nat) (k : Kinship) (cells : Cells α) (v : Nat) : Option Nat :=
  (edge (k.children v)).or (cells v).thread

section Tie

variable [Add α] {k : Kinship} {leaf below : Nat} {correction : α}

theorem tie_self (cells : Cells α) (leaf below : Nat) (correction : α) :
    cells.tie leaf below correction leaf =
      { cells leaf with thread := some below, offset := (cells leaf).offset + correction } :=
  alter_self _ _ _

theorem tie_of_ne (cells : Cells α) (below : Nat) (correction : α) {leaf u : Nat} (h : u ≠ leaf) :
    cells.tie leaf below correction u = cells u :=
  alter_of_ne _ _ h

theorem Traces.untied (edge : List Nat → Option Nat)
    (h : cells.Traces (cells.nextBy edge k) start ns) (aside : leaf ∉ ns.map (·.label)) :
    (cells.tie leaf below correction).Traces ((cells.tie leaf below correction).nextBy edge k)
      start ns := by
  refine h.congr fun v hv => ?_
  have other : v ≠ leaf := by
    rintro rfl
    exact aside hv
  rw [nextBy, nextBy, knot, knot, tie_of_ne _ _ _ other]
  exact ⟨rfl, rfl⟩

end Tie

/-- The cell of a child is as its slot in the row. -/
structure Stands (k : Kinship) (cells : Cells α) (s : Slot (Block Nat α) α) : Prop where
  coordinate : (cells s.content.label).coordinate = s.coordinate
  offset : k.children s.content.label ≠ [] → (cells s.content.label).offset = s.offset
  change : (cells s.content.label).change = s.change
  shift : (cells s.content.label).shift = s.shift

/-- The cells agree but for whom the nodes belong to. -/
def AgreeInDrawing (cells cells' : Cells α) : Prop :=
  ∀ v, cells' v =
    { cells v with ancestor := (cells' v).ancestor, fallback := (cells' v).fallback }

namespace AgreeInDrawing

theorem alter (cells : Cells α) (v : Nat) {f : Cell α → Cell α}
    (kept : ∀ c, f c = { c with ancestor := (f c).ancestor, fallback := (f c).fallback }) :
    AgreeInDrawing cells (cells.alter v f) := by
  intro u
  by_cases here : u = v
  · rw [here, alter_self]
    exact kept _
  · rw [alter_of_ne _ _ here]

variable {k : Kinship} (h : AgreeInDrawing cells cells')

include h

theorem knot_eq (v : Nat) : cells'.knot v = cells.knot v := by
  rw [knot, h]
  rfl

private theorem thread_eq (v : Nat) : (cells' v).thread = (cells v).thread := by
  rw [h]

theorem nextLeft_eq : cells'.nextLeft k = cells.nextLeft k := by
  funext v
  rw [nextLeft, nextLeft, h.thread_eq]

theorem nextRight_eq : cells'.nextRight k = cells.nextRight k := by
  funext v
  rw [nextRight, nextRight, h.thread_eq]

theorem stands {s : Slot (Block Nat α) α} (standing : Stands k cells s) : Stands k cells' s := by
  obtain ⟨coordinate, offset, change, shift⟩ := standing
  constructor <;> rw [h]
  exacts [coordinate, offset, change, shift]

end AgreeInDrawing

def DrawsAlike (k : Kinship) (cells cells' : Cells α) (v : Nat) : Prop :=
  (cells' v).coordinate = (cells v).coordinate ∧
    (k.children v ≠ [] → (cells' v).offset = (cells v).offset)

theorem DrawsAlike.of_eq {k : Kinship} {v : Nat} (h : cells' v = cells v) :
    DrawsAlike k cells cells' v := by
  rw [DrawsAlike, h]
  exact ⟨rfl, fun _ => rfl⟩

mutual

def Draws (k : Kinship) (cells : Cells α) : Draft Nat α → Prop
  | .mk label coordinate offset children =>
    (cells label).coordinate = coordinate ∧
      (k.children label ≠ [] → (cells label).offset = offset) ∧ DrawsAll k cells children

def DrawsAll (k : Kinship) (cells : Cells α) : List (Draft Nat α) → Prop
  | [] => True
  | d :: ds => Draws k cells d ∧ DrawsAll k cells ds

end

theorem drawsAll_iff {k : Kinship} {ds : List (Draft Nat α)} :
    DrawsAll k cells ds ↔ ∀ d ∈ ds, Draws k cells d := by
  induction ds with
  | nil => simp [DrawsAll]
  | cons d ds ih => rw [DrawsAll, ih, List.forall_mem_cons]

mutual

theorem Draws.congr {k : Kinship} : ∀ {d : Draft Nat α}, Draws k cells d →
    (∀ v ∈ d.outline.preorder, DrawsAlike k cells cells' v) → Draws k cells' d
  | .mk label coordinate offset children, ⟨atLabel, atOffset, below⟩, same => by
    rw [Draft.outline, Rose.preorder] at same
    obtain ⟨sameCoordinate, sameOffset⟩ := same label List.mem_cons_self
    refine ⟨sameCoordinate.trans atLabel, ?_, ?_⟩
    · exact fun inner => (sameOffset inner).trans (atOffset inner)
    · exact below.congr fun v hv => same v (List.mem_cons_of_mem _ hv)

theorem DrawsAll.congr {k : Kinship} : ∀ {ds : List (Draft Nat α)}, DrawsAll k cells ds →
    (∀ v ∈ Rose.preorderAll (Draft.outlineAll ds), DrawsAlike k cells cells' v) →
    DrawsAll k cells' ds
  | [], _, _ => trivial
  | d :: ds, ⟨first, rest⟩, same => by
    rw [Draft.outlineAll, Rose.preorderAll] at same
    exact ⟨first.congr fun v hv => same v (List.mem_append_left _ hv),
      rest.congr fun v hv => same v (List.mem_append_right _ hv)⟩

end

theorem Stands.modify {k : Kinship} {row : List (Slot (Block Nat α) α)} {place : Nat}
    {s : Slot (Block Nat α) α} {g : Slot (Block Nat α) α → Slot (Block Nat α) α}
    {f : Cell α → Cell α} (once : (row.map (·.content.label)).Nodup)
    (standing : ∀ t ∈ row, Stands k cells t) (hs : row[place]? = some s)
    (content : (g s).content = s.content)
    (alike : Stands k (cells.alter s.content.label f) (g s)) :
    ∀ t ∈ row.modify place g, Stands k (cells.alter s.content.label f) t := by
  induction row generalizing place with
  | nil => simp at hs
  | cons u row ih =>
    rw [List.map_cons, List.nodup_cons] at once
    have untouched : ∀ t : Slot (Block Nat α) α, t.content.label ≠ s.content.label →
        Stands k cells t → Stands k (cells.alter s.content.label f) t := by
      intro t other standing
      obtain ⟨coordinate, offset, change, shift⟩ := standing
      refine ⟨?_, ?_, ?_, ?_⟩ <;> rwa [alter_of_ne _ _ other]
    intro t ht
    cases place with
    | zero =>
      obtain rfl : u = s := by simpa using hs
      rcases List.mem_cons.mp ht with rfl | ht
      · exact alike
      · refine untouched t ?_ (standing t (List.mem_cons_of_mem _ ht))
        rintro same
        exact once.1 (same ▸ List.mem_map_of_mem ht)
    | succ place =>
      rw [List.getElem?_cons_succ] at hs
      rcases List.mem_cons.mp ht with rfl | ht
      · refine untouched t ?_ (standing t List.mem_cons_self)
        rintro same
        exact once.1 (same ▸ List.mem_map_of_mem (List.mem_of_getElem? hs))
      · exact ih once.2 (fun t ht => standing t (List.mem_cons_of_mem _ ht)) hs t ht

variable [Scalar α]

private theorem Traces.goOver {last below : Nat} {correction : α} {ls : List (Knot Nat α)}
    (h : Traces next cells start ns) (ends : (ns.map (·.label)).getLast? = some last)
    (once : (ns.map (·.label)).Nodup) (rest : Traces next' cells' (some below) ls)
    (tied : next' last = some below)
    (corrected : cells'.knot last =
      { cells.knot last with offset := (cells.knot last).offset + correction })
    (same : ∀ v ∈ ns.map (·.label), v ≠ last → next' v = next v ∧ cells'.knot v = cells.knot v) :
    Traces next' cells' start (correctLast correction ns ++ ls) := by
  induction ns generalizing start with
  | nil => simp at ends
  | cons n ns ih =>
    obtain ⟨first, knot, below⟩ := h
    rw [List.map_cons, List.nodup_cons] at once
    cases ns with
    | nil =>
      obtain rfl : n.label = last := by simpa using ends
      rw [knot] at corrected
      refine ⟨first, corrected, ?_⟩
      rw [tied]
      exact rest
    | cons m ns =>
      rw [List.map_cons, List.map_cons, List.getLast?_cons_cons, ← List.map_cons] at ends
      have other : n.label ≠ last := by
        rintro rfl
        exact once.1 (List.mem_of_getLast? ends)
      obtain ⟨sameNext, sameKnot⟩ := same n.label (by simp) other
      refine ⟨first, sameKnot.trans knot, ?_⟩
      rw [sameNext]
      exact ih below ends once.2 fun v hv => same v (List.mem_cons_of_mem _ hv)

/-- A contour that is tied to another one goes over to it, with its last offset corrected. -/
theorem Traces.tied (edge : List Nat → Option Nat) {k : Kinship} {leaf below : Nat}
    {correction : α} {ls : List (Knot Nat α)} (h : cells.Traces (cells.nextBy edge k) start ns)
    (ends : (ns.map (·.label)).getLast? = some leaf) (once : (ns.map (·.label)).Nodup)
    (rest : cells.Traces (cells.nextBy edge k) (some below) ls)
    (aside : leaf ∉ ls.map (·.label)) : (cells.tie leaf below correction).Traces
      ((cells.tie leaf below correction).nextBy edge k) start
        (correctLast correction ns ++ ls) := by
  refine h.goOver ends once (rest.untied edge aside) ?_ ?_ ?_
  · have free := Option.or_eq_none_iff.mp (h.next_of_last ends)
    rw [nextBy, free.1, tie_self]
    rfl
  · rw [knot, knot, tie_self]
  · intro v _ other
    rw [nextBy, nextBy, knot, knot, tie_of_ne _ _ _ other]
    exact ⟨rfl, rfl⟩

theorem foldr_settleChild {γ : Type} (label : γ → Nat) (row : List (Slot γ α))
    (once : (row.map (label ·.content)).Nodup)
    (marks : ∀ s ∈ row, (cells (label s.content)).change = s.change ∧
      (cells (label s.content)).shift = s.shift) :
    ∃ settled : Cells α, (row.map (label ·.content)).foldr settleChild (cells, 0, 0) =
        (settled, (spread row).2) ∧
      (∀ v, v ∉ row.map (label ·.content) → settled v = cells v) ∧
      ∀ (i : Nat) (s : Slot γ α) (way : α), row[i]? = some s →
        (ways row)[i]? = some way →
        settled (label s.content) =
          { cells (label s.content) with
            coordinate := (cells (label s.content)).coordinate + way
            offset := (cells (label s.content)).offset + way } := by
  induction row with
  | nil => exact ⟨cells, rfl, fun _ _ => rfl, fun _ _ _ hs => by simp at hs⟩
  | cons s row ih =>
    rw [List.map_cons, List.nodup_cons] at once
    obtain ⟨settled, folded, others, moved⟩ :=
      ih once.2 fun t ht => marks t (List.mem_cons_of_mem _ ht)
    obtain ⟨change, shift⟩ := marks s List.mem_cons_self
    have untouched := others (label s.content) once.1
    rw [List.map_cons, List.foldr_cons, folded]
    refine ⟨(settleChild (label s.content) (settled, (spread row).2)).1, ?_, ?_, ?_⟩
    · simp only [settleChild, untouched, change, shift, spread]
    · intro v hv
      rw [List.mem_cons, not_or] at hv
      simp only [settleChild]
      rw [alter_of_ne _ _ hv.1]
      exact others v hv.2
    · intro i t way ht hway
      simp only [settleChild]
      cases i with
      | zero =>
        obtain rfl : s = t := by simpa using ht
        obtain rfl : (spread row).2.1 = way := by simpa [ways, spread] using hway
        rw [alter_self, untouched]
      | succ i =>
        rw [List.getElem?_cons_succ] at ht
        have other : label t.content ≠ label s.content := by
          rintro same
          exact once.1 (same ▸ List.mem_map_of_mem (List.mem_of_getElem? ht))
        rw [alter_of_ne _ _ other]
        exact moved i t way ht (by simpa [ways, spread] using hway)

end Cells

end TidyTree.Placement
