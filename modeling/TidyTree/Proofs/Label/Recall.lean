import Mathlib.Data.List.Induction
import TidyTree.Label.Cache
import TidyTree.Label.Digest
import TidyTree.Scalar.Binary64

set_option autoImplicit false
set_option relaxedAutoImplicit false

/-!
# Answers from memory

A cache keeps widths under the digests of what was measured, and not the texts themselves. What it
answers is the answer for some text and font of the same digest, measured since the memory was last
cleared. So it agrees with the metrics behind it as long as no two of different width share a digest;
there are texts that do.
-/

namespace TidyTree

namespace Recent

variable {κ β : Type} [BEq κ] {r : Recent κ β} {key other : κ} {value given : β}

theorem mem_of_get? [LawfulBEq κ] (h : r.get? key = some value) : (key, value) ∈ r.entries := by
  obtain ⟨found, find, rfl⟩ := Option.map_eq_some_iff.mp h
  have same : found.1 = key := by simpa using List.find?_some find
  rw [← same]
  exact List.mem_of_find?_eq_some find

theorem mem_use [LawfulBEq κ] (h : (other, given) ∈ (r.use key value).entries) :
    (other, given) = (key, value) ∨ other ≠ key ∧ (other, given) ∈ r.entries := by
  rcases List.mem_cons.mp (List.mem_of_mem_take h) with same | old
  · exact Or.inl same
  · obtain ⟨mem, differs⟩ := List.mem_filter.mp old
    exact Or.inr ⟨by simpa using differs, mem⟩

private theorem get?_use [LawfulBEq κ] (room : 0 < r.capacity) :
    (r.use key value).get? key = some value := by
  obtain ⟨more, bound⟩ : ∃ more, r.capacity = more + 1 := ⟨r.capacity - 1, by omega⟩
  simp [use, get?, bound]

end Recent

inductive Ask (α : Type) where
  | measure (text : String) (font : Font α)
  | clear

variable {σ α : Type}

/-- The text was measured in the font, and the memory was not cleared since. -/
def Ask.IsRecent (asks : List (Ask α)) (text : String) (font : Font α) : Prop :=
  ∃ before behind, asks = before ++ .measure text font :: behind ∧ .clear ∉ behind

namespace Ask

variable {asks : List (Ask α)}

private theorem IsRecent.snoc {text : String} {font : Font α} (h : IsRecent asks text font)
    (text' : String) (font' : Font α) : IsRecent (asks ++ [.measure text' font']) text font := by
  obtain ⟨before, behind, rfl, kept⟩ := h
  refine ⟨before, behind ++ [.measure text' font'], by simp, ?_⟩
  simpa using kept

private theorem isRecent_snoc (asks : List (Ask α)) (text : String) (font : Font α) :
    IsRecent (asks ++ [.measure text font]) text font := ⟨asks, [], rfl, List.not_mem_nil⟩

private theorem IsRecent.mem (asks : List (Ask α)) {later : List (Ask α)} {text : String}
    {font : Font α}
    (h : IsRecent (asks ++ .clear :: later) text font) : .measure text font ∈ later := by
  obtain ⟨before, behind, split, kept⟩ := h
  rcases List.append_eq_append_iff.mp split with ⟨between, _, rest⟩ | ⟨between, _, rest⟩
  · cases between with
    | nil => exact absurd (List.cons.inj rest).1 (by simp)
    | cons first between =>
      rw [(List.cons.inj rest).2]
      exact List.mem_append_right between List.mem_cons_self
  · cases between with
    | nil => exact absurd (List.cons.inj rest).1 (by simp)
    | cons first between =>
      rw [(List.cons.inj rest).2] at kept
      exact absurd (List.mem_append_right between List.mem_cons_self) kept

end Ask

section

variable (digest : String → Font α → UInt64) (f : String → Font α → Except (MeasureError α) α)
variable (asked : String → Font α → Prop)

/-- Each width in memory is the answer for a text and a font that were asked about and have the
digest it is kept under. -/
private def Cache.Recalls (c : Cache α) : Prop :=
  ∀ key width, (key, width) ∈ c.recent.entries →
    ∃ text font, asked text font ∧ digest text font = key ∧ f text font = .ok width

/-- The answer is the one for the text and the font, or a width that was answered for others of the
same digest. -/
def Metrics.IsAnswer (text : String) (font : Font α) (answer : Except (MeasureError α) α) : Prop :=
  answer = f text font ∨ ∃ text' font' width, asked text' font' ∧
    digest text' font' = digest text font ∧ f text' font' = .ok width ∧ answer = .ok width

end

variable {digest : String → Font α → UInt64} {f : String → Font α → Except (MeasureError α) α}

namespace Cache.Recalls

variable {asked asked' : String → Font α → Prop} {c : Cache α}

private theorem mono (h : c.Recalls digest f asked)
    (more : ∀ text font, asked text font → asked' text font) :
    c.Recalls digest f asked' := by
  intro key width mem
  obtain ⟨text, font, known, same, answer⟩ := h key width mem
  exact ⟨text, font, more text font known, same, answer⟩

private theorem of_entries_eq_nil (none : c.recent.entries = []) : c.Recalls digest f asked := by
  intro key width mem
  rw [none] at mem
  exact absurd mem List.not_mem_nil

private theorem use (h : c.Recalls digest f asked) {text : String} {font : Font α} {width : α}
    (known : asked text font) (answer : f text font = .ok width) (hits misses : Nat) :
    Recalls digest f asked ⟨c.recent.use (digest text font) width, hits, misses⟩ := by
  intro key width' mem
  rcases Recent.mem_use mem with same | ⟨_, old⟩
  · obtain ⟨rfl, rfl⟩ := Prod.mk.inj same
    exact ⟨text, font, known, rfl, answer⟩
  · exact h key width' old

end Cache.Recalls

variable {inner : Metrics σ α}

private theorem Cache.Recalls.measure {asked asked' : String → Font α → Prop} {c : Cache α}
    (h : c.Recalls digest f asked) (more : ∀ text font, asked text font → asked' text font)
    (answers : inner.Answers f) (s : σ) {text : String} {font : Font α} (known : asked' text font) :
    Metrics.IsAnswer digest f asked text font ((inner.cached digest).measure text font (c, s)).1 ∧
      ((inner.cached digest).measure text font (c, s)).2.1.Recalls digest f asked' := by
  have fresh := answers text font s
  have recalls := h.mono more
  dsimp only [Metrics.cached]
  cases held : c.recent.get? (digest text font) with
  | some width =>
    obtain ⟨text', font', known', same, answer⟩ := h _ _ (Recent.mem_of_get? held)
    have used := recalls.use (more text' font' known') answer (c.hits + 1) c.misses
    rw [same] at used
    exact ⟨Or.inr ⟨text', font', width, known', same, answer, rfl⟩, used⟩
  | none =>
    dsimp only
    cases measured : inner.measure text font s with
    | mk answer s' =>
      rw [measured] at fresh
      cases answer with
      | ok width => exact ⟨Or.inl fresh, recalls.use known fresh.symm c.hits (c.misses + 1)⟩
      | error e => exact ⟨Or.inl fresh, recalls⟩

namespace Metrics

def next (digest : String → Font α → UInt64) (inner : Metrics σ α) (state : Cache α × σ) :
    Ask α → Cache α × σ
  | .measure text font => ((inner.cached digest).measure text font state).2
  | .clear => (state.1.clear, state.2)

def after (digest : String → Font α → UInt64) (inner : Metrics σ α) (capacity : Nat) (s : σ)
    (asks : List (Ask α)) : Cache α × σ :=
  asks.foldl (inner.next digest) (.empty capacity, s)

private theorem recalls_after (answers : inner.Answers f) (capacity : Nat) (s : σ)
    (asks : List (Ask α)) :
    (inner.after digest capacity s asks).1.Recalls digest f (Ask.IsRecent asks) := by
  induction asks using List.reverseRecOn with
  | nil => exact .of_entries_eq_nil rfl
  | append_singleton asks ask ih =>
    rw [after, List.foldl_append, List.foldl_cons, List.foldl_nil]
    cases ask with
    | clear => exact .of_entries_eq_nil rfl
    | measure text font =>
      have more := fun text' font' (h : Ask.IsRecent asks text' font') => h.snoc text font
      exact (ih.measure more answers _ (Ask.isRecent_snoc asks text font)).2

/-- The answer after any asks is the one for the text and the font, or a width that was answered for
others of the same digest since the memory was cleared. -/
theorem isAnswer_after (answers : inner.Answers f) (capacity : Nat) (s : σ) (asks : List (Ask α))
    (text : String) (font : Font α) :
    IsAnswer digest f (Ask.IsRecent asks) text font
      ((inner.cached digest).measure text font (inner.after digest capacity s asks)).1 := by
  have more := fun text' font' (h : Ask.IsRecent asks text' font') => h.snoc text font
  exact ((recalls_after answers capacity s asks).measure more answers _
    (Ask.isRecent_snoc asks text font)).1

/-- If nothing that was measured since the memory was cleared has the digest but not the answer of a
text and a font, a cache of any capacity answers for them like the metrics behind it. In any case it
answers for something of that digest. -/
theorem cached_ofLabel {inner : Metrics σ Float}
    {f : String → Font Float → Except (MeasureError Float) Float}
    (answers : inner.Answers f) (capacity : Nat) (s : σ) (asks : List (Ask Float)) (text : String)
    (font : Font Float) :
    ((∀ text' font', Ask.IsRecent asks text' font' →
        Digest.ofLabel text' font' = Digest.ofLabel text font → f text' font' = f text font) →
      ((inner.cached Digest.ofLabel).measure text font
        (inner.after Digest.ofLabel capacity s asks)).1 = f text font) ∧
    IsAnswer Digest.ofLabel f (Ask.IsRecent asks) text font
      ((inner.cached Digest.ofLabel).measure text font
        (inner.after Digest.ofLabel capacity s asks)).1 := by
  have answer : IsAnswer Digest.ofLabel f (Ask.IsRecent asks) text font _ :=
    isAnswer_after answers capacity s asks text font
  refine ⟨fun alike => ?_, answer⟩
  rcases answer with fresh | ⟨text', font', width, recent, same, given, remembered⟩
  · exact fresh
  · rw [remembered, ← given]
    exact alike text' font' recent same

def fixedAnswer (advance : Float) (text : String) (_ : Font Float) :
    Except (MeasureError Float) Float :=
  .ok ((text.length : Float) * advance)

private theorem answers_fixed (advance : Float) : (fixed advance).Answers (fixedAnswer advance) :=
  fun _ _ _ => rfl

theorem cached_ofLabel_distinct :
    (((fixed (8 : Float)).cached Digest.ofLabel).measure "ab" ⟨12, "serif"⟩
      ((fixed 8).after Digest.ofLabel 0 () [.measure "cd" ⟨12, "serif"⟩, .clear,
        .measure "ab" ⟨12, "serif"⟩, .measure "abc" ⟨12, "serif"⟩])).1 = .ok 16 := by
  let later : List (Ask Float) := [.measure "ab" ⟨12, "serif"⟩, .measure "abc" ⟨12, "serif"⟩]
  have differ : Digest.ofLabel "abc" ⟨12, "serif"⟩ ≠ Digest.ofLabel "ab" ⟨12, "serif"⟩ := by
    decide +kernel
  have alike : ∀ text' font', Ask.IsRecent [.measure "cd" ⟨12, "serif"⟩, .clear,
      .measure "ab" ⟨12, "serif"⟩, .measure "abc" ⟨12, "serif"⟩] text' font' →
      Digest.ofLabel text' font' = Digest.ofLabel "ab" ⟨12, "serif"⟩ →
      fixedAnswer 8 text' font' = fixedAnswer 8 "ab" ⟨12, "serif"⟩ := by
    intro text' font' recent same
    have asked : .measure text' font' ∈ later := recent.mem [.measure "cd" ⟨12, "serif"⟩]
    rcases List.mem_cons.mp asked with first | second
    · obtain ⟨rfl, rfl⟩ := Ask.measure.inj first
      rfl
    · obtain ⟨rfl, rfl⟩ := Ask.measure.inj (List.mem_singleton.mp second)
      exact absurd same differ
  have width : fixedAnswer 8 "ab" ⟨12, "serif"⟩ = .ok 16 := by decide +kernel
  have answer := (cached_ofLabel (answers_fixed 8) 0 () _ "ab" ⟨12, "serif"⟩).1 alike
  exact answer.trans width

private theorem measure_measure (inner : Metrics σ α) {state : Cache α × σ}
    (room : 0 < state.1.recent.capacity) {text text' : String} {font font' : Font α} {width : α}
    (same : digest text font = digest text' font')
    (first : ((inner.cached digest).measure text font state).1 = .ok width) :
    ((inner.cached digest).measure text' font'
      ((inner.cached digest).measure text font state).2).1 = .ok width := by
  obtain ⟨c, s⟩ := state
  have kept (width : α) (hits misses : Nat) (s : σ) : ((inner.cached digest).measure text' font'
      (⟨c.recent.use (digest text font) width, hits, misses⟩, s)).1 = .ok width := by
    dsimp only [cached]
    rw [← same, Recent.get?_use room]
  dsimp only [cached] at first ⊢
  cases held : c.recent.get? (digest text font) with
  | some remembered =>
    rw [held] at first
    obtain rfl := Except.ok.inj first
    exact kept _ _ _ _
  | none =>
    rw [held] at first
    dsimp only at first ⊢
    cases measured : inner.measure text font s with
    | mk answer s' =>
      rw [measured] at first
      cases answer with
      | ok given =>
        obtain rfl := Except.ok.inj first
        exact kept _ _ _ _
      | error e => simp at first

/-- A text of 32 letters, followed by one of 28 with the same number of bytes. -/
def longText : String := "toyddgywkszivuoxaaaaaaaaaRgY_e0i"

def shortText : String := "toyddgywkszivuoxééééaRgY_e0i"

private theorem addText_longText : Digest.addText 0 longText = Digest.addText 0 shortText := by
  decide +kernel

theorem not_cached_ofLabel :
    (((fixed (8 : Float)).cached Digest.ofLabel).measure shortText ⟨12, "serif"⟩
      ((fixed 8).after Digest.ofLabel 4096 () [.measure longText ⟨12, "serif"⟩])).1 = .ok 256 ∧
      ((fixed (8 : Float)).measure shortText ⟨12, "serif"⟩ ()).1 = .ok 224 ∧
      (.ok 256 : Except (MeasureError Float) Float) ≠ .ok 224 := by
  have same : Digest.ofLabel longText ⟨12, "serif"⟩ = Digest.ofLabel shortText ⟨12, "serif"⟩ := by
    rw [Digest.ofLabel, Digest.ofLabel, addText_longText]
  have width : (((fixed (8 : Float)).cached Digest.ofLabel).measure longText ⟨12, "serif"⟩
      (.empty 4096, ())).1 = .ok 256 := by
    decide +kernel
  refine ⟨?_, by decide +kernel, by decide +kernel⟩
  rw [after, List.foldl_cons, List.foldl_nil, next]
  exact measure_measure (fixed 8) (by decide) same width

end Metrics

end TidyTree
