import TidyTree.Proofs.Layout.Widths
import TidyTree.Proofs.Text.Words
import TidyTree.Scalar.Binary64
import TidyTree.Tooltip.Basic

set_option autoImplicit false
set_option relaxedAutoImplicit false

/-!
# Wrapping loses nothing

The lines of a tooltip are those of its text, each cut into as few rows of words as filling one row
after the other allows: every row is as wide as the width lets it be, and no word is lost, doubled
or moved. A row is measured as it is filled: it grows by a space and a word at a time, and a further
word is tried behind a space. Where addition is associative this is the sum from left to right; in
binary floating point the two may differ by a rounding.
-/

namespace TidyTree

variable {σ α : Type} [Scalar α]

/-- The width that a row has grown to, by a space and a word at a time. -/
def grownWidth (space : α) : List α → α
  | [] => 0
  | first :: others => others.foldl (fun width w => width + (space + w)) first

/-- The width of a row with a further word behind a space. -/
def triedWidth (space : α) (widths : List α) (further : α) : α :=
  grownWidth space widths + space + further

/-- The widths of words and of the spaces between them, summed from left to right. -/
def summedWidth (space : α) : List α → α
  | [] => 0
  | first :: others => others.foldl (fun width w => width + space + w) first

private theorem grownWidth_concat (space : α) {widths : List α} (nonempty : widths ≠ []) (w : α) :
    grownWidth space (widths ++ [w]) = grownWidth space widths + (space + w) := by
  obtain ⟨first, others, rfl⟩ := List.exists_cons_of_ne_nil nonempty
  rw [List.cons_append, grownWidth, List.foldl_concat, grownWidth]

private theorem summedWidth_concat (space : α) {widths : List α} (nonempty : widths ≠ []) (w : α) :
    summedWidth space (widths ++ [w]) = summedWidth space widths + space + w := by
  obtain ⟨first, others, rfl⟩ := List.exists_cons_of_ne_nil nonempty
  rw [List.cons_append, summedWidth, List.foldl_concat, summedWidth]

private theorem triedWidth_eq_summedWidth (assoc : ∀ a b c : α, a + b + c = a + (b + c)) (space : α)
    {widths : List α} (nonempty : widths ≠ []) (further : α) :
    triedWidth space widths further = summedWidth space (widths ++ [further]) := by
  have grown : grownWidth space widths = summedWidth space widths := by
    obtain ⟨first, others, rfl⟩ := List.exists_cons_of_ne_nil nonempty
    rw [grownWidth, summedWidth]
    congr 1
    funext width w
    exact (assoc width space w).symm
  rw [triedWidth, grown, summedWidth_concat space nonempty]

section Filling

variable (limit space : α) (widthOf : String → α)

private def Measured.of (word : String) : Measured α := ⟨word, widthOf word⟩

/-- If the row has more than one word, the last one has been tried behind the others and fits. -/
def RowFits (row : List String) : Prop :=
  ∀ front last, row = front ++ [last] → front ≠ [] →
    triedWidth space (front.map widthOf) (widthOf last) ≤ limit

/-- The first word of the next row does not fit onto the row any more. -/
def RowFull (row next : List String) : Prop :=
  ∀ w ∈ next.head?, ¬ triedWidth space (row.map widthOf) (widthOf w) ≤ limit

/-- The rows are the words in order, none is empty, and every one is as wide as the limit lets it
be. -/
structure IsFilled (words : List String) (rows : List (List String)) : Prop where
  flatten : rows.flatten = words
  nonempty : [] ∉ rows
  fits : ∀ row ∈ rows, RowFits limit space widthOf row
  full : rows.IsChain (RowFull limit space widthOf)

variable {limit space widthOf}

private theorem rowFits_singleton (w : String) : RowFits limit space widthOf [w] := by
  intro front last same some
  have length := congrArg List.length same
  rw [List.length_singleton, List.length_append, List.length_singleton] at length
  exact absurd (List.length_eq_zero_iff.mp (by omega)) some

private theorem rowFits_concat {row : List String} {w : String}
    (room : triedWidth space (row.map widthOf) (widthOf w) ≤ limit) :
    RowFits limit space widthOf (row ++ [w]) := by
  intro front last same _
  obtain ⟨rfl, one⟩ := List.append_inj' same rfl
  obtain rfl : w = last := List.singleton_inj.mp one
  exact room

private theorem IsFilled.head {w : String} {words : List String} {rows : List (List String)}
    (h : IsFilled limit space widthOf (w :: words) rows) : ∀ row ∈ rows.head?, row.head? = some w := by
  intro row hrow
  obtain ⟨rest, rfl⟩ := List.head?_eq_some_iff.mp hrow
  cases row with
  | nil => exact absurd List.mem_cons_self h.nonempty
  | cons v row =>
    have first := h.flatten
    rw [List.flatten_cons, List.cons_append, List.cons.injEq] at first
    rw [List.head?_cons, first.1]

private theorem fillFrom_cons (w : String) (words : List String) {row : List String}
    (nonempty : row ≠ []) :
    fillFrom limit space row (grownWidth space (row.map widthOf))
        ((w :: words).map (Measured.of widthOf)) =
      if triedWidth space (row.map widthOf) (widthOf w) ≤ limit then
        fillFrom limit space (row ++ [w]) (grownWidth space ((row ++ [w]).map widthOf))
          (words.map (Measured.of widthOf))
      else row :: fillFrom limit space [w] (grownWidth space ([w].map widthOf))
        (words.map (Measured.of widthOf)) := by
  have widths : row.map widthOf ≠ [] := fun empty => nonempty (List.map_eq_nil_iff.mp empty)
  rw [List.map_append, List.map_singleton, grownWidth_concat space widths]
  rfl

private theorem isFilled_singleton {row : List String} (nonempty : row ≠ [])
    (fits : RowFits limit space widthOf row) : IsFilled limit space widthOf row [row] where
  flatten := List.flatten_singleton
  nonempty := fun empty => nonempty (List.mem_singleton.mp empty).symm
  fits := by
    intro other member
    exact List.mem_singleton.mp member ▸ fits
  full := List.isChain_singleton _

/-- A row comes before filled rows if their first word does not fit onto it. -/
theorem IsFilled.cons {w : String} {words row : List String} {rows : List (List String)}
    (h : IsFilled limit space widthOf (w :: words) rows) (nonempty : row ≠ [])
    (fits : RowFits limit space widthOf row)
    (beyond : ¬ triedWidth space (row.map widthOf) (widthOf w) ≤ limit) :
    IsFilled limit space widthOf (row ++ w :: words) (row :: rows) where
  flatten := by rw [List.flatten_cons, h.flatten]
  nonempty := by
    intro empty
    rcases List.mem_cons.mp empty with same | empty
    · exact nonempty same.symm
    · exact h.nonempty empty
  fits := List.forall_mem_cons.mpr ⟨fits, h.fits⟩
  full := by
    refine List.isChain_cons.mpr ⟨?_, h.full⟩
    intro next hnext v hv
    obtain rfl : w = v := Option.some.inj ((h.head next hnext).symm.trans hv)
    exact beyond

private theorem isFilled_fillFrom (words row : List String) (nonempty : row ≠ [])
    (fits : RowFits limit space widthOf row) :
    IsFilled limit space widthOf (row ++ words)
      (fillFrom limit space row (grownWidth space (row.map widthOf))
        (words.map (Measured.of widthOf))) := by
  induction words generalizing row with
  | nil =>
    rw [List.append_nil]
    exact isFilled_singleton nonempty fits
  | cons w words ih =>
    rw [fillFrom_cons w words nonempty]
    by_cases room : triedWidth space (row.map widthOf) (widthOf w) ≤ limit
    · have further := ih (row ++ [w]) (List.append_ne_nil_of_right_ne_nil _ (by simp))
        (rowFits_concat room)
      rw [List.append_assoc] at further
      rw [if_pos room]
      exact further
    · have next := ih [w] (List.cons_ne_nil _ _) (rowFits_singleton w)
      rw [if_neg room]
      exact next.cons nonempty fits room

private theorem isFilled_fillLines {words : List String} (nonempty : words ≠ []) :
    IsFilled limit space widthOf words
      (fillLines limit space (words.map (Measured.of widthOf))) := by
  obtain ⟨w, words, rfl⟩ := List.exists_cons_of_ne_nil nonempty
  exact isFilled_fillFrom words [w] (List.cons_ne_nil _ _) (rowFits_singleton w)

private theorem intercalate_lineText {rows : List (List String)} (nonempty : [] ∉ rows) :
    " ".intercalate (rows.map lineText) = " ".intercalate rows.flatten := by
  induction rows with
  | nil => rfl
  | cons row rows ih =>
    rw [List.mem_cons, not_or] at nonempty
    rw [List.map_cons, List.flatten_cons]
    cases rows with
    | nil => rw [List.map_nil, String.intercalate_singleton, List.flatten_nil, List.append_nil, lineText]
    | cons next rows =>
      have later : (next :: rows).flatten ≠ [] := by
        intro empty
        rw [List.flatten_cons, List.append_eq_nil_iff] at empty
        exact nonempty.2 (List.mem_cons.mpr (Or.inl empty.1.symm))
      rw [String.intercalate_append_of_ne_nil (Ne.symm nonempty.1) later, ← ih nonempty.2,
        List.map_cons, String.intercalate_cons_cons, lineText]

end Filling

namespace Tooltip

open Text (wordList)

/-- The group of lines that a line of a text is wrapped into. -/
structure IsWrapped (limit space : α) (widthOf : String → α) (line : List Char)
    (group : List String) : Prop where
  blank : (∀ c ∈ line, Text.isBlank c = true) → group = [""]
  filled : ¬ (∀ c ∈ line, Text.isBlank c = true) → group ≠ [] ∧ "" ∉ group
  joined : " ".intercalate group = " ".intercalate (wordList line)
  words : group.flatMap (fun text => wordList text.toList) = wordList line
  spaced : ∀ text ∈ group, text = " ".intercalate (wordList text.toList)
  fits : ∀ text ∈ group, RowFits limit space widthOf (wordList text.toList)
  full : group.IsChain fun text next =>
    RowFull limit space widthOf (wordList text.toList) (wordList next.toList)

variable {limit space : α} {widthOf : String → α}

private theorem wordList_lineText {words : List String} {rows : List (List String)}
    (h : IsFilled limit space widthOf words rows) (areWords : ∀ w ∈ words, Text.IsWord w.toList)
    {row : List String} (hrow : row ∈ rows) : wordList (lineText row).toList = row := by
  apply Text.wordList_intercalate
  intro w hw
  apply areWords
  rw [← h.flatten, List.mem_flatten]
  exact ⟨row, hrow, hw⟩

private theorem isWrapped_of_isFilled {line : List Char} {rows : List (List String)}
    (some : wordList line ≠ []) (h : IsFilled limit space widthOf (wordList line) rows) :
    IsWrapped limit space widthOf line (rows.map lineText) := by
  have read {row : List String} (hrow : row ∈ rows) : wordList (lineText row).toList = row :=
    wordList_lineText h (fun w => Text.isWord_of_mem_wordList) hrow
  have back : (rows.map lineText).map (fun text => wordList text.toList) = rows := by
    rw [List.map_map]
    exact (List.map_congr_left fun row hrow => read hrow).trans (List.map_id rows)
  constructor
  case blank => exact fun blank => absurd ((Text.wordList_eq_nil_iff line).mpr blank) some
  case filled =>
    refine fun _ => ⟨?_, ?_⟩
    · intro empty
      rw [List.map_eq_nil_iff] at empty
      have words := h.flatten
      rw [empty] at words
      exact some words.symm
    · intro member
      obtain ⟨row, hrow, empty⟩ := List.mem_map.mp member
      have none : row = [] := (read hrow).symm.trans (by rw [empty]; rfl)
      exact h.nonempty (none ▸ hrow)
  case joined => rw [intercalate_lineText h.nonempty, h.flatten]
  case words => rw [List.flatMap_def, back, h.flatten]
  case spaced =>
    intro text member
    obtain ⟨row, hrow, rfl⟩ := List.mem_map.mp member
    rw [read hrow, lineText]
  case fits =>
    intro text member
    obtain ⟨row, hrow, rfl⟩ := List.mem_map.mp member
    exact (read hrow).symm ▸ h.fits row hrow
  case full =>
    have chain := h.full
    rw [← back, List.isChain_map] at chain
    exact chain

private theorem isWrapped_fillLines (line : List Char) :
    IsWrapped limit space widthOf line
      ((fillLines limit space ((wordList line).map (Measured.of widthOf))).map lineText) := by
  by_cases none : wordList line = []
  · have blank := (Text.wordList_eq_nil_iff line).mp none
    rw [none]
    constructor
    case blank => exact fun _ => rfl
    case filled => exact fun other => absurd blank other
    case joined => rw [none]; rfl
    case words => rw [none]; rfl
    case spaced =>
      intro text member
      rw [List.mem_singleton.mp member]
      rfl
    case fits =>
      intro text member front last same
      rw [List.mem_singleton.mp member] at same
      exact absurd same.symm (List.append_ne_nil_of_right_ne_nil _ (List.cons_ne_nil _ _))
    case full => exact List.isChain_singleton _
  · exact isWrapped_of_isFilled none (isFilled_fillLines none)

private theorem wrapLines_eq (limit space : α) (paragraphs : List (List (Measured α))) :
    wrapLines limit space paragraphs =
      if paragraphs = [] then [""]
      else (paragraphs.map fun words => (fillLines limit space words).map lineText).flatten := by
  cases paragraphs with
  | nil => rfl
  | cons words others =>
    rw [if_neg (List.cons_ne_nil _ _), wrapLines, List.flatMap_def]
    exact fun empty => absurd empty (List.cons_ne_nil _ _)

variable {m : Metrics σ α} {f : String → Font α → Except (MeasureError α) α}

private theorem measureWords_eq (answers : m.Answers f) (font : Font α) (words : List String)
    (state : σ) :
    (measureWords m font words state).1 =
      words.map (Measured.of (Metrics.widthBy f 0 font)) := by
  rw [measureWords]
  simp only [answers.widthsOr_eq]
  rw [List.zipWith_map_right, List.zipWith_self]
  rfl

private theorem measureAll_eq (answers : m.Answers f) (font : Font α)
    (paragraphs : List (List String))
    (state : σ) :
    (measureAll m font paragraphs state).1 =
      paragraphs.map (List.map (Measured.of (Metrics.widthBy f 0 font))) := by
  induction paragraphs generalizing state with
  | nil => rfl
  | cons words paragraphs ih =>
    rw [measureAll, List.map_cons]
    exact congrArg₂ List.cons (measureWords_eq answers font words state) (ih _)

/-- The lines of a tooltip are the groups that the lines of its text are wrapped into, with a row
measured as it is filled; a text without lines makes one empty line. -/
theorem exists_isWrapped_layOut (answers : m.Answers f) (family : String) (s : TooltipStyle α)
    (node : NodeId) (text : String) (anchor : Point α) (state : σ) :
    let widthOf : String → α := Metrics.widthBy f 0 ⟨s.fontSize, family⟩
    (∃ groups : List (List String),
      List.Forall₂ (IsWrapped s.contentWidth (widthOf " ") widthOf) (Text.lines text.toList) groups ∧
      (layOut m family s node text anchor state).1.lines =
        if groups = [] then [""] else groups.flatten) ∧
    ((∀ a b c : α, a + b + c = a + (b + c)) → ∀ (widths : List α) (further : α), widths ≠ [] →
      triedWidth (widthOf " ") widths further = summedWidth (widthOf " ") (widths ++ [further])) := by
  intro widthOf
  refine ⟨⟨(Text.lines text.toList).map fun line =>
    (fillLines s.contentWidth (widthOf " ") ((wordList line).map (Measured.of widthOf))).map
      lineText, ?_, ?_⟩, ?_⟩
  · rw [List.forall₂_map_right_iff, List.forall₂_same]
    exact fun line _ => isWrapped_fillLines line
  · have space : (m.widthOr 0 ⟨s.fontSize, family⟩ " " state).1 = widthOf " " :=
      answers.widthOr_eq 0 ⟨s.fontSize, family⟩ " " state
    have lines : (layOut m family s node text anchor state).1.lines =
        wrapLines s.contentWidth (widthOf " ")
          ((paragraphs text).map (List.map (Measured.of widthOf))) := by
      rw [← space, ← measureAll_eq answers ⟨s.fontSize, family⟩ (paragraphs text)]
      rfl
    rw [lines, wrapLines_eq, paragraphs, List.map_map, List.map_map]
    simp only [List.map_eq_nil_iff]
    rfl
  · intro assoc widths further nonempty
    exact triedWidth_eq_summedWidth assoc _ nonempty further

/-- Two words share a line, the third starts the next one, and a blank line stays. -/
theorem exists_isWrapped_layOut_fixed :
    let s : TooltipStyle Rat := { TooltipStyle.standard with padding := 5, maxWidth := 30 }
    let widthOf : String → Rat :=
      Metrics.widthBy (fun text _ => .ok ((text.length : Rat) * 1)) 0 ⟨s.fontSize, "sans-serif"⟩
    let text := "aaaaaaa bbbbbbb  ccccccc\n \nd"
    let t := (layOut (Metrics.fixed 1) "sans-serif" s 0 text ⟨100, 200⟩ ()).1
    t.lines = ["aaaaaaa bbbbbbb", "ccccccc", "", "d"] ∧ ∃ groups : List (List String),
      List.Forall₂ (IsWrapped s.contentWidth (widthOf " ") widthOf) (Text.lines text.toList) groups ∧
        t.lines = if groups = [] then [""] else groups.flatten := by
  intro s widthOf text t
  have answers : (Metrics.fixed (1 : Rat)).Answers fun text _ => .ok ((text.length : Rat) * 1) :=
    fun _ _ _ => rfl
  exact ⟨by decide +kernel,
    (exists_isWrapped_layOut answers "sans-serif" s 0 text ⟨100, 200⟩ ()).1⟩

/-- In binary floating point three words share a line although the sum of their widths and of the
spaces from left to right is wider than the content, and so is the width that the row has grown
to. -/
theorem not_summedWidth_le_contentWidth :
    let s : TooltipStyle Float :=
      { TooltipStyle.standard with padding := 0, maxWidth := 66.39999999999999 }
    let widthOf : String → Float :=
      Metrics.widthBy (fun text _ => .ok ((text.length : Float) * 8.3)) 0 ⟨s.fontSize, "sans-serif"⟩
    let line := "a bbbb c"
    (layOut (Metrics.fixed 8.3) "sans-serif" s 4 line ⟨100, 200⟩ ()).1.lines = [line] ∧
      wordList line.toList = ["a", "bbbb", "c"] ∧
      ¬ summedWidth (widthOf " ") ((wordList line.toList).map widthOf) ≤ s.contentWidth ∧
      ¬ grownWidth (widthOf " ") ((wordList line.toList).map widthOf) ≤ s.contentWidth := by
  decide +kernel

end Tooltip

end TidyTree
