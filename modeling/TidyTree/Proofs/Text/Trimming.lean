import Mathlib.Data.List.DropRight
import TidyTree.Text.Blank

set_option autoImplicit false
set_option relaxedAutoImplicit false

namespace TidyTree.Text

/-- The text is the core with blanks on both sides. -/
def IsPadded (text core : List Char) : Prop :=
  ∃ before after, text = before ++ core ++ after ∧ (∀ c ∈ before, isBlank c = true) ∧
    ∀ c ∈ after, isBlank c = true

theorem IsPadded.refl (text : List Char) : IsPadded text text :=
  ⟨[], [], (List.append_nil text).symm, List.forall_mem_nil _, List.forall_mem_nil _⟩

theorem isPadded_trim (text : List Char) : IsPadded text (trim text) := by
  let rest := text.dropWhile isBlank
  refine ⟨text.takeWhile isBlank, rest.rtakeWhile isBlank, ?_,
    fun _ => List.mem_takeWhile_imp, fun _ => List.mem_rtakeWhile_imp⟩
  have ends : trim text ++ rest.rtakeWhile isBlank = rest := List.rdropWhile_append_rtakeWhile
  rw [List.append_assoc, ends, List.takeWhile_append_dropWhile]

private theorem dropWhile_of_head {core : List Char} (first : ∀ c ∈ core.head?, isBlank c = false) :
    core.dropWhile isBlank = core := by
  cases core with
  | nil => rfl
  | cons c core => rw [List.dropWhile_cons_of_neg (by simp [first c rfl])]

private theorem IsPadded.trim_eq {text core : List Char} (h : IsPadded text core) (ne : core ≠ [])
    (first : ∀ c ∈ core.head?, isBlank c = false) (last : ∀ c ∈ core.getLast?, isBlank c = false) :
    trim text = core := by
  obtain ⟨before, after, rfl, blankBefore, blankAfter⟩ := h
  have front : (before ++ core ++ after).dropWhile isBlank = core ++ after := by
    rw [List.append_assoc, List.dropWhile_append_of_pos blankBefore]
    exact dropWhile_of_head fun c hc => first c (by rwa [List.head?_append_of_ne_nil _ ne] at hc)
  rw [trim, front, trimEnd, List.reverse_append,
    List.dropWhile_append_of_pos fun c hc => blankAfter c (List.mem_reverse.mp hc),
    dropWhile_of_head, List.reverse_reverse]
  rwa [List.head?_reverse]

/-- The text begins and ends with something else than a blank, if at all. -/
def IsTrimmed (text : List Char) : Prop :=
  (∀ c ∈ text.head?, isBlank c = false) ∧ ∀ c ∈ text.getLast?, isBlank c = false

theorem isTrimmed_trim (text : List Char) : IsTrimmed (trim text) := by
  constructor
  · intro c first
    have ne : trim text ≠ [] := List.ne_nil_of_mem (List.mem_of_mem_head? first)
    have ends : trim text ++ (text.dropWhile isBlank).rtakeWhile isBlank =
        text.dropWhile isBlank := List.rdropWhile_append_rtakeWhile
    have clear := List.head?_dropWhile_not isBlank text
    rw [← ends, List.head?_append_of_ne_nil _ ne, Option.mem_def.mp first] at clear
    exact clear
  · intro c last
    obtain ⟨ne, rfl⟩ := List.mem_getLast?_eq_getLast last
    exact Bool.not_eq_true _ ▸ List.rdropWhile_last_not isBlank _ ne

theorem trim_eq_iff {text core : List Char} (ne : core ≠ []) :
    trim text = core ↔ IsPadded text core ∧ IsTrimmed core := by
  constructor
  · rintro rfl
    exact ⟨isPadded_trim text, isTrimmed_trim text⟩
  · rintro ⟨padded, first, last⟩
    exact padded.trim_eq ne first last

theorem isTrimmed_of_clear {text : List Char} (clear : ∀ c ∈ text, isBlank c = false) :
    IsTrimmed text :=
  ⟨fun c first => clear c (List.mem_of_mem_head? first),
    fun c last => clear c (List.mem_of_getLast? last)⟩

/-- A character of ASCII that can be seen. -/
abbrev IsGraphic (c : Char) : Prop :=
  32 < c.toNat ∧ c.toNat < 127

theorem IsGraphic.isBlank_eq {c : Char} (h : IsGraphic c) : isBlank c = false := by
  simp only [isBlank, Bool.or_eq_false_iff, Bool.and_eq_false_iff, decide_eq_false_iff_not,
    beq_eq_false_iff_ne]
  omega

theorem toNat_toLower (c : Char) :
    c.toLower.toNat = if 65 ≤ c.toNat ∧ c.toNat ≤ 90 then c.toNat + 32 else c.toNat := by
  have capital : (c.val ≥ 'A'.val ∧ c.val ≤ 'Z'.val) ↔ 65 ≤ c.toNat ∧ c.toNat ≤ 90 := by
    rw [ge_iff_le, UInt32.le_iff_toNat_le, UInt32.le_iff_toNat_le]
    rfl
  by_cases h : c.val ≥ 'A'.val ∧ c.val ≤ 'Z'.val
  · have range := capital.mp h
    have way : ('a'.val - 'A'.val).toNat = 32 := rfl
    have same : c.val.toNat = c.toNat := rfl
    have lowered : c.toLower.val = c.val + ('a'.val - 'A'.val) := congrArg Char.val (dif_pos h)
    rw [if_pos range, Char.toNat, lowered, UInt32.toNat_add]
    omega
  · have kept : c.toLower = c := dif_neg h
    rw [if_neg (capital.not.mp h), kept]

theorem IsGraphic.of_toLower {c : Char} (h : IsGraphic c.toLower) : IsGraphic c := by
  rw [IsGraphic, toNat_toLower] at h
  split_ifs at h <;> omega

end TidyTree.Text
