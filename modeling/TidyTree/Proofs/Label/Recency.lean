import TidyTree.Proofs.Label.Recall

set_option autoImplicit false
set_option relaxedAutoImplicit false

/-!
# What a cache remembers

A cache has room for a number of digests and remembers those that were used last: that were answered
from memory, or whose width was measured and stored. So whether a call is answered from memory
follows from the replies that were given since the memory was cleared, and so does the answer. A
failure uses nothing and is forgotten.
-/

namespace TidyTree

namespace Recent

variable {κ β : Type} [BEq κ] [LawfulBEq κ]

private theorem nodup_eraseDups : ∀ keys : List κ, keys.eraseDups.Nodup
  | [] => List.nodup_nil
  | key :: keys => by
    rw [List.eraseDups_cons, List.nodup_cons]
    refine ⟨?_, nodup_eraseDups (keys.filter fun other => !other == key)⟩
    rw [List.mem_eraseDups, List.mem_filter]
    simp
termination_by keys => keys.length
decreasing_by exact Nat.lt_succ_of_le (List.length_filter_le _ _)

private theorem filter_eraseDups (p : κ → Bool) :
    ∀ keys : List κ, keys.eraseDups.filter p = (keys.filter p).eraseDups
  | [] => rfl
  | key :: keys => by
    have rest := filter_eraseDups p (keys.filter fun other => !other == key)
    rw [List.eraseDups_cons, List.filter_cons, List.filter_cons, rest, List.filter_filter]
    by_cases passes : p key = true
    · rw [if_pos passes, if_pos passes, List.eraseDups_cons, List.filter_filter]
      exact congrArg (key :: List.eraseDups ·) (List.filter_congr fun other _ => Bool.and_comm _ _)
    · rw [if_neg passes, if_neg passes]
      refine congrArg List.eraseDups (List.filter_congr fun other _ => ?_)
      -- What passes is another key, so the filter for other keys lets it through.
      by_cases same : other = key
      · rw [same, Bool.not_eq_true _ |>.mp passes, Bool.false_and]
      · simp [same]
termination_by keys => keys.length
decreasing_by exact Nat.lt_succ_of_le (List.length_filter_le _ _)

private theorem take_filter_take {keys : List κ} (distinct : keys.Nodup) (key : κ) (n : Nat) :
    ((keys.take (n + 1)).filter fun other => !other == key).take n =
      (keys.filter fun other => !other == key).take n := by
  induction keys generalizing n with
  | nil => rfl
  | cons first keys ih =>
    obtain ⟨new, distinct⟩ := List.nodup_cons.mp distinct
    rw [List.take_succ_cons, List.filter_cons, List.filter_cons]
    by_cases same : first = key
    · subst same
      have others : ∀ ks : List κ, (∀ k ∈ ks, k ∈ keys) →
          (ks.filter fun k => !k == first) = ks := by
        intro ks subset
        refine List.filter_eq_self.mpr fun k mem => ?_
        have differs : k ≠ first := fun same => new (same ▸ subset k mem)
        simpa using differs
      rw [if_neg (by simp), if_neg (by simp), others keys fun _ => id,
        others _ fun _ => List.mem_of_mem_take, List.take_take, Nat.min_self]
    · rw [if_pos (by simpa using same), if_pos (by simpa using same)]
      cases n with
      | zero => rfl
      | succ n => rw [List.take_succ_cons, List.take_succ_cons, ih distinct]

variable {r : Recent κ β} {uses : List κ}

private theorem keys_use (h : r.entries.map (·.1) = uses.eraseDups.take r.capacity) (key : κ)
    (value : β) :
    (r.use key value).entries.map (·.1) = (key :: uses).eraseDups.take r.capacity := by
  have others : (r.entries.filter fun e => !e.1 == key).map (·.1) =
      (uses.eraseDups.take r.capacity).filter fun other => !other == key := by
    rw [← h, List.filter_map]
    rfl
  rw [use, List.map_take, List.map_cons, others, List.eraseDups_cons, ← filter_eraseDups]
  cases r.capacity with
  | zero => rfl
  | succ n => rw [List.take_succ_cons, List.take_succ_cons, take_filter_take (nodup_eraseDups uses)]

private theorem isSome_get?_iff (key : κ) : (r.get? key).isSome = true ↔ key ∈ r.entries.map (·.1)
    := by
  rw [get?, Option.isSome_map, List.find?_isSome, List.mem_map]
  simp only [beq_iff_eq]

omit [LawfulBEq κ] in
private def keep {ε : Type} (r : Recent κ β) (key : κ) : Except ε β → Recent κ β
  | .ok value => r.use key value
  | .error _ => r

end Recent

/-- The reply to a call: the digest of what was measured, whether the call was counted as answered
from memory, and the answer. -/
structure Reply (α : Type) where
  key : UInt64
  isHit : Bool
  answer : Except (MeasureError α) α

namespace Reply

variable {α : Type}

def isUse (r : Reply α) : Bool := r.isHit || r.answer.isOk

def stores (key : UInt64) (r : Reply α) : Bool := !r.isHit && r.answer.isOk && r.key == key

def uses (replies : List (Reply α)) : List UInt64 := (replies.filter (·.isUse)).map (·.key)

/-- The digests that were used, each once, from the one used last on. -/
def usedKeys (replies : List (Reply α)) : List UInt64 := (uses replies).eraseDups

/-- The width that was measured for a digest with success the last time. -/
def storedWidth? (replies : List (Reply α)) (key : UInt64) : Option α :=
  (replies.find? (stores key)).bind (·.answer.toOption)

end Reply

variable {σ α : Type}

/-- The memory has the digests that were used last, as many as it has room for, and for each of them
the width that was measured last. -/
structure Cache.Ranks (c : Cache α) (room : Nat) (replies : List (Reply α)) : Prop where
  capacity : c.recent.capacity = room
  keys : c.recent.entries.map (·.1) = (Reply.usedKeys replies).take room
  widths : ∀ key width, (key, width) ∈ c.recent.entries →
    Reply.storedWidth? replies key = some width

def Ask.isMeasure : Ask α → Bool
  | measure _ _ => true
  | clear => false

namespace Metrics

section

variable (digest : String → Font α → UInt64) (inner : Metrics σ α)

def reply (text : String) (font : Font α) (state : Cache α × σ) : Reply α :=
  let result := (inner.cached digest).measure text font state
  ⟨digest text font, result.2.1.hits == state.1.hits + 1, result.1⟩

def repliesFrom (state : Cache α × σ) (replies : List (Reply α)) : List (Ask α) → List (Reply α)
  | [] => replies
  | .clear :: asks => repliesFrom (inner.next digest state .clear) [] asks
  | .measure text font :: asks =>
    repliesFrom (inner.next digest state (.measure text font))
      (inner.reply digest text font state :: replies) asks

/-- The replies to some asks since the memory was cleared, the latest first. -/
def replies (capacity : Nat) (s : σ) (asks : List (Ask α)) : List (Reply α) :=
  inner.repliesFrom digest (.empty capacity, s) [] asks

end

variable {digest : String → Font α → UInt64} {inner : Metrics σ α} {c : Cache α} {s : σ}
  {text : String} {font : Font α}

private theorem measure_of_held {width : α} (held : c.recent.get? (digest text font) = some width) :
    (inner.cached digest).measure text font (c, s) =
      (.ok width, ⟨c.recent.use (digest text font) width, c.hits + 1, c.misses⟩, s) := by
  dsimp only [cached]
  rw [held]

private theorem measure_of_unknown (unknown : c.recent.get? (digest text font) = none) :
    (inner.cached digest).measure text font (c, s) =
      ((inner.measure text font s).1,
        ⟨c.recent.keep (digest text font) (inner.measure text font s).1, c.hits, c.misses + 1⟩,
        (inner.measure text font s).2) := by
  dsimp only [cached]
  rw [unknown]
  dsimp only
  obtain ⟨answer, s'⟩ := inner.measure text font s
  cases answer <;> rfl

private theorem reply_of_held {width : α} (held : c.recent.get? (digest text font) = some width) :
    inner.reply digest text font (c, s) = ⟨digest text font, true, .ok width⟩ := by
  simp [reply, measure_of_held held]

private theorem reply_of_unknown (unknown : c.recent.get? (digest text font) = none) :
    inner.reply digest text font (c, s) =
      ⟨digest text font, false, (inner.measure text font s).1⟩ := by
  simp [reply, measure_of_unknown unknown]

private theorem isHit_reply : (inner.reply digest text font (c, s)).isHit =
    (c.recent.get? (digest text font)).isSome := by
  cases held : c.recent.get? (digest text font) with
  | some width => rw [reply_of_held held, Option.isSome_some]
  | none => rw [reply_of_unknown held, Option.isSome_none]

private theorem measure_of_miss (miss : (inner.reply digest text font (c, s)).isHit = false) :
    ((inner.cached digest).measure text font (c, s)).1 = (inner.measure text font s).1 ∧
      ((inner.cached digest).measure text font (c, s)).2.2 = (inner.measure text font s).2 := by
  rw [isHit_reply, Option.isSome_eq_false_iff, Option.isNone_iff_eq_none] at miss
  rw [measure_of_unknown miss]
  exact ⟨rfl, rfl⟩

private theorem recent_of_failure {e : MeasureError α}
    (failed : ((inner.cached digest).measure text font (c, s)).1 = .error e) :
    ((inner.cached digest).measure text font (c, s)).2.1.recent = c.recent := by
  cases held : c.recent.get? (digest text font) with
  | some width =>
    rw [measure_of_held held] at failed
    exact absurd failed (by simp)
  | none =>
    rw [measure_of_unknown held] at failed ⊢
    dsimp only at failed ⊢
    rw [failed]
    rfl

end Metrics

namespace Cache.Ranks

variable {digest : String → Font α → UInt64} {inner : Metrics σ α} {c : Cache α} {room : Nat}
  {replies : List (Reply α)}

private theorem of_entries_eq_nil (capacity : c.recent.capacity = room)
    (none : c.recent.entries = []) :
    c.Ranks room [] where
  capacity := capacity
  keys := by
    rw [none]
    exact List.take_nil.symm
  widths := by
    intro key width mem
    rw [none] at mem
    exact absurd mem List.not_mem_nil

private theorem use (h : c.Ranks room replies) {r : Reply α} (isUse : r.isUse = true) {width : α}
    (stored : Reply.storedWidth? (r :: replies) r.key = some width) (hits misses : Nat) :
    Ranks ⟨c.recent.use r.key width, hits, misses⟩ room (r :: replies) where
  capacity := h.capacity
  keys := by
    have uses : Reply.uses (r :: replies) = r.key :: Reply.uses replies := by
      rw [Reply.uses, List.filter_cons, if_pos isUse]
      rfl
    have keys := h.keys
    rw [← h.capacity] at keys
    rw [Reply.usedKeys, uses, ← h.capacity]
    exact Recent.keys_use keys r.key width
  widths := by
    intro key width' mem
    rcases Recent.mem_use mem with same | ⟨differs, old⟩
    · obtain ⟨rfl, rfl⟩ := Prod.mk.inj same
      exact stored
    · have other : r.stores key = false := by simp [Reply.stores, differs.symm]
      rw [Reply.storedWidth?, List.find?_cons_of_neg (by simp [other])]
      exact h.widths key width' old

private theorem fail (h : c.Ranks room replies) {r : Reply α} (isUse : r.isUse = false)
    (hits misses : Nat) : Ranks ⟨c.recent, hits, misses⟩ room (r :: replies) where
  capacity := h.capacity
  keys := by
    rw [Reply.usedKeys, Reply.uses, List.filter_cons, if_neg (by simp [isUse])]
    exact h.keys
  widths := by
    intro key width mem
    have other : r.stores key = false := by
      obtain ⟨_, failed⟩ := Bool.or_eq_false_iff.mp isUse
      rw [Reply.stores, failed, Bool.and_false, Bool.false_and]
    rw [Reply.storedWidth?, List.find?_cons_of_neg (by simp [other])]
    exact h.widths key width mem

private theorem measure (h : c.Ranks room replies) (s : σ) (text : String) (font : Font α) :
    ((inner.cached digest).measure text font (c, s)).2.1.Ranks room
      (inner.reply digest text font (c, s) :: replies) := by
  cases held : c.recent.get? (digest text font) with
  | some width =>
    rw [Metrics.measure_of_held held, Metrics.reply_of_held held]
    -- The width was there, so it was measured before.
    have stored := h.widths _ _ (Recent.mem_of_get? held)
    exact h.use (r := ⟨digest text font, true, .ok width⟩) rfl stored _ _
  | none =>
    rw [Metrics.measure_of_unknown held, Metrics.reply_of_unknown held]
    cases (inner.measure text font s).1 with
    | ok width =>
      have stored : Reply.storedWidth? (⟨digest text font, false, .ok width⟩ :: replies)
          (digest text font) = some width := by
        rw [Reply.storedWidth?, List.find?_cons_of_pos (by simp [Reply.stores, Except.isOk,
          Except.toBool])]
        rfl
      exact h.use (r := ⟨digest text font, false, .ok width⟩) rfl stored _ _
    | error e => exact h.fail (r := ⟨digest text font, false, .error e⟩) rfl _ _

private theorem asked (state : Cache α × σ) (h : state.1.Ranks room replies) (asks : List (Ask α)) :
    (asks.foldl (inner.next digest) state).1.Ranks room
      (inner.repliesFrom digest state replies asks) := by
  induction asks generalizing state replies with
  | nil => exact h
  | cons ask asks ih =>
    cases ask with
    | clear => exact ih _ (of_entries_eq_nil h.capacity rfl)
    | measure text font => exact ih _ (h.measure state.2 text font)

private theorem isHit_iff (h : c.Ranks room replies) (s : σ) (text : String) (font : Font α) :
    (inner.reply digest text font (c, s)).isHit = true ↔
      digest text font ∈ (Reply.usedKeys replies).take room := by
  rw [Metrics.isHit_reply, Recent.isSome_get?_iff, h.keys]

private theorem measure_of_hit (h : c.Ranks room replies) {s : σ} {text : String} {font : Font α}
    (hit : (inner.reply digest text font (c, s)).isHit = true) :
    (∃ width, Reply.storedWidth? replies (digest text font) = some width ∧
      ((inner.cached digest).measure text font (c, s)).1 = .ok width) ∧
    ((inner.cached digest).measure text font (c, s)).2.2 = s := by
  rw [Metrics.isHit_reply] at hit
  obtain ⟨width, held⟩ := Option.isSome_iff_exists.mp hit
  rw [Metrics.measure_of_held held]
  exact ⟨⟨width, h.widths _ _ (Recent.mem_of_get? held), rfl⟩, rfl⟩

private theorem size_eq (h : c.Ranks room replies) :
    c.recent.size = min room (Reply.usedKeys replies).length := by
  have same := congrArg List.length h.keys
  rwa [List.length_map, List.length_take] at same

end Cache.Ranks

namespace Metrics

variable (digest : String → Font α → UInt64) (inner : Metrics σ α)

private theorem ranks_after (capacity : Nat) (s : σ) (asks : List (Ask α)) :
    (inner.after digest capacity s asks).1.Ranks (max 1 capacity)
      (inner.replies digest capacity s asks) :=
  .asked _ (.of_entries_eq_nil (Nat.max_comm capacity 1) rfl) asks

private theorem count_measure (text : String) (font : Font α) (state : Cache α × σ) :
    let c := ((inner.cached digest).measure text font state).2.1
    c.hits + c.misses = state.1.hits + state.1.misses + 1 := by
  obtain ⟨c, s⟩ := state
  intro c'
  cases held : c.recent.get? (digest text font) with
  | some width =>
    simp only [c', measure_of_held held]
    omega
  | none =>
    simp only [c', measure_of_unknown held]
    omega

private theorem count_asked (state : Cache α × σ) (asks : List (Ask α)) :
    let c := (asks.foldl (inner.next digest) state).1
    c.hits + c.misses = state.1.hits + state.1.misses + asks.countP (·.isMeasure) := by
  induction asks generalizing state with
  | nil => rfl
  | cons ask asks ih =>
    intro c
    have rest := ih (inner.next digest state ask)
    cases ask with
    | clear => exact rest
    | measure text font =>
      have first := inner.count_measure digest text font state
      rw [List.countP_cons_of_pos rfl]
      simp only [next] at rest first
      simp only [c, List.foldl_cons, next]
      omega

/-- What a cache with room for some digests does in a state, and what it has in memory, told from
the asks so far and the replies since the memory was cleared. -/
structure KeepsLatest (room : Nat) (asks : List (Ask α)) (replies : List (Reply α))
    (state : Cache α × σ) : Prop where
  /-- A call is answered from memory if its digest is one of those that were used last. -/
  isHit_iff : ∀ text font, (inner.reply digest text font state).isHit = true ↔
    digest text font ∈ (Reply.usedKeys replies).take room
  /-- Then the answer is the width that was measured last, and the metrics behind is not called. -/
  hit : ∀ text font, (inner.reply digest text font state).isHit = true →
    (∃ width, Reply.storedWidth? replies (digest text font) = some width ∧
      ((inner.cached digest).measure text font state).1 = .ok width) ∧
    ((inner.cached digest).measure text font state).2.2 = state.2
  /-- Otherwise the metrics behind is called, and its answer given. -/
  miss : ∀ text font, (inner.reply digest text font state).isHit = false →
    ((inner.cached digest).measure text font state).1 = (inner.measure text font state.2).1 ∧
    ((inner.cached digest).measure text font state).2.2 = (inner.measure text font state.2).2
  /-- A failure leaves what is in memory, and its order. -/
  failure : ∀ text font e, ((inner.cached digest).measure text font state).1 = .error e →
    ((inner.cached digest).measure text font state).2.1.recent = state.1.recent
  size_eq : state.1.recent.size = min room (Reply.usedKeys replies).length
  size_le : state.1.recent.size ≤ room
  counts : state.1.hits + state.1.misses = asks.countP (·.isMeasure)

/-- A cache of any capacity, zero counting as one, remembers the digests that were used last,
whatever the metrics behind it, the digests and the asks are. -/
theorem keepsLatest_after (capacity : Nat) (s : σ) (asks : List (Ask α)) :
    inner.KeepsLatest digest (max 1 capacity) asks (inner.replies digest capacity s asks)
      (inner.after digest capacity s asks) := by
  have ranks := inner.ranks_after digest capacity s asks
  have counts := inner.count_asked digest (.empty capacity, s) asks
  rw [← after] at counts
  generalize inner.replies digest capacity s asks = replies at *
  generalize inner.after digest capacity s asks = state at *
  obtain ⟨c, s'⟩ := state
  constructor
  case isHit_iff => exact ranks.isHit_iff s'
  case hit =>
    intro text font hit
    exact ranks.measure_of_hit hit
  case miss =>
    intro text font miss
    exact measure_of_miss miss
  case failure =>
    intro text font e failed
    exact recent_of_failure failed
  case size_eq => exact ranks.size_eq
  case size_le =>
    rw [ranks.size_eq]
    exact Nat.min_le_left _ _
  case counts => simpa [Cache.empty] using counts

end Metrics

end TidyTree
