import Mathlib.Data.List.Basic
import TidyTree.Text.Blank

set_option autoImplicit false
set_option relaxedAutoImplicit false

namespace TidyTree.Text

variable {isCut : Char → Bool}

private theorem cutAt_append_cons {front cs : List Char} {c : Char}
    (clear : ∀ d ∈ front, isCut d = false)
    (cut : isCut c = true) : cutAt isCut (front ++ c :: cs) = front :: cutAt isCut cs := by
  induction front with
  | nil => rw [List.nil_append, cutAt, if_pos cut]
  | cons d front ih =>
    obtain ⟨first, clear⟩ := List.forall_mem_cons.mp clear
    rw [List.cons_append, cutAt, if_neg (by rw [first]; exact Bool.false_ne_true), ih clear]

private theorem cutAt_of_clear {cs : List Char} (clear : ∀ c ∈ cs, isCut c = false) :
    cutAt isCut cs = [cs] := by
  induction cs with
  | nil => rfl
  | cons c cs ih =>
    obtain ⟨first, clear⟩ := List.forall_mem_cons.mp clear
    rw [cutAt, if_neg (by rw [first]; exact Bool.false_ne_true), ih clear]

private theorem cutAt_ne_nil (isCut : Char → Bool) (cs : List Char) : cutAt isCut cs ≠ [] := by
  cases cs with
  | nil => exact List.cons_ne_nil _ _
  | cons c cs =>
    rw [cutAt]
    split
    · exact List.cons_ne_nil _ _
    · split <;> exact List.cons_ne_nil _ _

private theorem cutAt_cons_of_clear {c : Char} (clear : isCut c = false) (cs : List Char) :
    ∃ piece pieces, cutAt isCut cs = piece :: pieces ∧
      cutAt isCut (c :: cs) = (c :: piece) :: pieces := by
  obtain ⟨piece, pieces, rest⟩ := List.exists_cons_of_ne_nil (cutAt_ne_nil isCut cs)
  exact ⟨piece, pieces, rest, by rw [cutAt, if_neg (by rw [clear]; exact Bool.false_ne_true), rest]⟩

private theorem clear_of_mem_cutAt {cs piece : List Char} (h : piece ∈ cutAt isCut cs) :
    ∀ c ∈ piece, isCut c = false := by
  induction cs generalizing piece with
  | nil =>
    obtain rfl := List.mem_singleton.mp h
    exact List.forall_mem_nil _
  | cons d cs ih =>
    cases cut : isCut d with
    | true =>
      rw [cutAt, if_pos cut, List.mem_cons] at h
      rcases h with rfl | h
      · exact List.forall_mem_nil _
      · exact ih h
    | false =>
      obtain ⟨first, pieces, rest, whole⟩ := cutAt_cons_of_clear cut cs
      rw [whole, List.mem_cons] at h
      rw [rest] at ih
      rcases h with rfl | h
      · exact List.forall_mem_cons.mpr ⟨cut, ih List.mem_cons_self⟩
      · exact ih (List.mem_cons_of_mem _ h)

def IsWord (w : List Char) : Prop := w ≠ [] ∧ ∀ c ∈ w, isBlank c = false

private theorem isWord_of_mem_words {cs w : List Char} (h : w ∈ words cs) : IsWord w := by
  obtain ⟨piece, nonempty⟩ := List.mem_filter.mp h
  exact ⟨by simpa using nonempty, clear_of_mem_cutAt piece⟩

private theorem words_eq_nil_iff (cs : List Char) : words cs = [] ↔ ∀ c ∈ cs, isBlank c = true := by
  induction cs with
  | nil => exact ⟨fun _ => List.forall_mem_nil _, fun _ => rfl⟩
  | cons c cs ih =>
    rw [List.forall_mem_cons, ← ih]
    cases blank : isBlank c with
    | true =>
      have same : words (c :: cs) = words cs := by
        rw [words, cutAt, if_pos blank]
        rfl
      rw [same]
      exact ⟨fun h => ⟨rfl, h⟩, And.right⟩
    | false =>
      obtain ⟨piece, pieces, _, whole⟩ := cutAt_cons_of_clear blank cs
      have first : words (c :: cs) = (c :: piece) :: pieces.filter (!·.isEmpty) := by
        rw [words, whole]
        rfl
      rw [first]
      exact ⟨fun h => absurd h (List.cons_ne_nil _ _), fun h => absurd h.1 Bool.false_ne_true⟩

private theorem words_of_isWord {w : List Char} (h : IsWord w) : words w = [w] := by
  obtain ⟨c, cs, rfl⟩ := List.exists_cons_of_ne_nil h.1
  rw [words, cutAt_of_clear h.2]
  rfl

private theorem words_append_cons {w cs : List Char} {c : Char} (h : IsWord w)
    (blank : isBlank c = true) :
    words (w ++ c :: cs) = w :: words cs := by
  obtain ⟨d, ds, rfl⟩ := List.exists_cons_of_ne_nil h.1
  rw [words, cutAt_append_cons h.2 blank]
  rfl

/-- Words behind single spaces are read back as they are. -/
theorem words_intercalate {ws : List (List Char)} (h : ∀ w ∈ ws, IsWord w) :
    words ([' '].intercalate ws) = ws := by
  induction ws with
  | nil => rfl
  | cons w ws ih =>
    obtain ⟨first, h⟩ := List.forall_mem_cons.mp h
    cases ws with
    | nil => rw [List.intercalate_singleton, words_of_isWord first]
    | cons v ws =>
      rw [List.intercalate_cons_cons, List.append_assoc, List.singleton_append,
        words_append_cons first (by decide), ih h]

def wordList (cs : List Char) : List String := (words cs).map String.ofList

theorem isWord_of_mem_wordList {cs : List Char} {w : String} (h : w ∈ wordList cs) :
    IsWord w.toList := by
  obtain ⟨word, member, rfl⟩ := List.mem_map.mp h
  rw [String.toList_ofList]
  exact isWord_of_mem_words member

theorem wordList_eq_nil_iff (cs : List Char) : wordList cs = [] ↔ ∀ c ∈ cs, isBlank c = true := by
  rw [wordList, List.map_eq_nil_iff, words_eq_nil_iff]

theorem wordList_intercalate {ws : List String} (h : ∀ w ∈ ws, IsWord w.toList) :
    wordList (" ".intercalate ws).toList = ws := by
  have inner : ∀ w ∈ ws.map String.toList, IsWord w := by
    intro w hw
    obtain ⟨word, member, rfl⟩ := List.mem_map.mp hw
    exact h word member
  have back : ws.map (String.ofList ∘ String.toList) = ws := by
    simp [Function.comp_def]
  rw [wordList, String.toList_intercalate]
  exact (congrArg (List.map String.ofList) (words_intercalate inner)).trans
    ((List.map_map).trans back)

end TidyTree.Text
