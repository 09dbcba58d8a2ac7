import TidyTree.Proofs.Outline.Numbering
import TidyTree.View.Events

set_option autoImplicit false
set_option relaxedAutoImplicit false

/-!
# Runs of a view

A view is run by calls in any order and with any clock readings. What a call does to the mounted
tree is a sequence of few kinds of steps, unless it mounts another tree, so what holds of a tree
when it is mounted and survives every step holds in every reachable state. Some things hold only
while the clock goes on and no call lays the tree out anew before its changes are drawn.
-/

namespace TidyTree

/-- A call on a view. A tree to be mounted may have been folded before. -/
inductive Call (α : Type) where
  | mount (tree? : Option { t : Tree // t.IsReachable }) (now : Duration)
  /-- Fold a node of the mounted tree without drawing it. -/
  | fold (how : Fold) (id : NodeId)
  /-- Forget the changes that the mounted tree has to tell. -/
  | drain
  | sync (now : Duration)
  | toggle (id : NodeId) (now : Duration)
  | handle (event : Event α) (now : Duration)
  | tick (now : Duration)
  | resize (size : Size α) (now : Duration)
  | setTheme (theme : Theme) (now : Duration)
  | openTooltip (id : NodeId) (anchor : Point α)
  | closeTooltip
  | setTransform (transform : Transform α)
  | pan (dx dy : α)
  | zoom (anchor : Point α) (factor : α)
  | zoomIn
  | zoomOut
  | resetTransform
  | detach

namespace Call

variable {α : Type}

def time? : Call α → Option Duration
  | mount _ now => some now
  | sync now => some now
  | toggle _ now => some now
  | handle _ now => some now
  | tick now => some now
  | resize _ now => some now
  | setTheme _ now => some now
  | _ => none

def timeFrom (call : Call α) (clock : Duration) : Duration := call.time?.getD clock

/-- The call lays the tree out anew and lets everything jump. -/
def relaysOut : Call α → Bool
  | resize _ _ => true
  | setTheme _ _ => true
  | handle (.resize _) _ => true
  | _ => false

/-- The call does away with changes that wait to be drawn: it lets them jump or forgets them. -/
def isAbrupt : Call α → Bool
  | drain => true
  | call => call.relaysOut

def AreOrdered (calls : List (Call α)) : Prop := (calls.filterMap time?).Pairwise (· ≤ ·)

instance (calls : List (Call α)) : Decidable (AreOrdered calls) :=
  inferInstanceAs (Decidable ((calls.filterMap time?).Pairwise (· ≤ ·)))

/-- The clock never goes back, not even behind the reading before the first call. -/
def AreOrderedFrom (clock : Duration) (calls : List (Call α)) : Prop :=
  (clock :: calls.filterMap time?).Pairwise (· ≤ ·)

theorem AreOrdered.from_zero {calls : List (Call α)} (h : AreOrdered calls) :
    AreOrderedFrom .zero calls :=
  List.pairwise_cons.mpr ⟨fun now _ => Nat.zero_le now.nanos, h⟩

section

variable {clock : Duration} {call : Call α} {calls : List (Call α)}

theorem AreOrderedFrom.le_timeFrom (h : AreOrderedFrom clock (call :: calls)) :
    clock ≤ call.timeFrom clock := by
  rw [AreOrderedFrom, List.filterMap_cons] at h
  rw [timeFrom]
  cases reading : call.time? with
  | none => exact Nat.le_refl _
  | some now =>
    rw [reading] at h
    exact (List.pairwise_cons.mp h).1 now List.mem_cons_self

theorem AreOrderedFrom.tail (h : AreOrderedFrom clock (call :: calls)) :
    AreOrderedFrom (call.timeFrom clock) calls := by
  rw [AreOrderedFrom, List.filterMap_cons] at h
  rw [timeFrom]
  cases reading : call.time? with
  | none =>
    rw [reading] at h
    exact h
  | some now =>
    rw [reading] at h
    exact (List.pairwise_cons.mp h).2

end

private theorem isAbrupt_of_relaysOut {call : Call α} (h : call.relaysOut = true) :
    call.isAbrupt = true := by
  cases call with
  | drain => rfl
  | _ => exact h

end Call

variable {σ α : Type} [Scalar α]

namespace View

/-- The view after a node of its tree has been folded without drawing it. -/
def folded (v : View σ α) (how : Fold) (id : NodeId) : View σ α :=
  match v.foldTree how id with
  | .ok (_, v') => v'
  | .error _ => v

def step [PowTwo α] (v : View σ α) : Call α → View σ α
  | .mount tree? now => v.mount (tree?.map (·.1)) now
  | .fold how id => v.folded how id
  | .drain => v.drainTree
  | .sync now => v.sync now
  | .toggle id now => v.toggled id now
  | .handle event now => (v.handle event now).1
  | .tick now => v.tick now
  | .resize size now => v.resize size now
  | .setTheme theme now => v.setTheme theme now
  | .openTooltip id anchor => v.openTooltip id anchor
  | .closeTooltip => v.closeTooltip
  | .setTransform transform => v.adjust (·.set transform)
  | .pan dx dy => v.adjust (·.pan dx dy)
  | .zoom anchor factor => v.adjust (·.zoom anchor factor)
  | .zoomIn => v.adjust (·.zoomIn)
  | .zoomOut => v.adjust (·.zoomOut)
  | .resetTransform => v.adjust (·.reset)
  | .detach => v.detach

def run [PowTwo α] (v : View σ α) (calls : List (Call α)) : View σ α := calls.foldl step v

def IsTold (v : View σ α) : Prop := ∀ m ∈ v.mount?, m.tree.feed = []

/-- Whenever a call is abrupt, no change waits to be drawn. -/
def RunsPromptly [PowTwo α] : View σ α → List (Call α) → Prop
  | _, [] => True
  | v, call :: calls => (call.isAbrupt = true → v.IsTold) ∧ (v.step call).RunsPromptly calls

end View

/-- What can be done to a mounted tree at once. Where it is prompt, the tree is laid out anew with
a jump only when no change waits to be drawn. -/
inductive Mount.Step (settings : Settings α) (metrics : Metrics σ α) (now : Duration)
    (prompt : Prop) : Mount α → Mount α → Prop where
  | relayout (m : Mount α) (state : σ) (told : prompt → m.tree.feed = []) :
      Step settings metrics now prompt m (m.relayout settings metrics .nothing now state).1
  | sync (m : Mount α) (state : σ) (news : m.tree.feed ≠ []) :
      Step settings metrics now prompt m (m.sync settings metrics now state).1
  | fold (m : Mount α) (how : Fold) (id : NodeId) :
      Step settings metrics now prompt m { m with tree := m.tree.folded how id }
  | expire (m : Mount α) : Step settings metrics now prompt m (m.expireSpan now)
  | advance (m : Mount α) : Step settings metrics now prompt m (m.advance now)

private theorem Mount.Step.mono {settings : Settings α} {metrics : Metrics σ α} {now : Duration}
    {prompt prompt' : Prop} (h : prompt' → prompt) {m m' : Mount α}
    (step : Mount.Step settings metrics now prompt m m') :
    Mount.Step settings metrics now prompt' m m' := by
  cases step with
  | relayout state told => exact .relayout m state fun p => told (h p)
  | sync state news => exact .sync m state news
  | fold how id => exact .fold m how id
  | expire => exact .expire m
  | advance => exact .advance m

namespace Viewport

def IsPlaced (v : Viewport α) : Prop := v.transform?.isSome = true

variable {v : Viewport α}

omit [Scalar α] in
private theorem IsPlaced.reset (h : v.IsPlaced) : v.reset.IsPlaced := by
  unfold Viewport.reset
  split
  · rfl
  · exact h

private theorem IsPlaced.set (h : v.IsPlaced) (t : Transform α) : (v.set t).IsPlaced := by
  unfold Viewport.set
  split
  · rfl
  · exact h

private theorem IsPlaced.pan (h : v.IsPlaced) (dx dy : α) : (v.pan dx dy).IsPlaced := by
  unfold Viewport.pan
  split
  · rfl
  · exact h

private theorem IsPlaced.scaleTo (h : v.IsPlaced) (anchor : Point α) (scale : α) :
    (v.scaleTo anchor scale).IsPlaced := by
  unfold Viewport.scaleTo
  split
  · rfl
  · exact h

private theorem IsPlaced.zoom (h : v.IsPlaced) (anchor : Point α) (factor : α) :
    (v.zoom anchor factor).IsPlaced := by
  unfold Viewport.zoom
  split
  · exact h.scaleTo anchor _
  · exact h

theorem IsPlaced.resume_eq (h : v.IsPlaced) (bounds : Option (Rect α)) :
    v.resume v.transform? bounds = v := by
  obtain ⟨window, transform?, initial?⟩ := v
  obtain ⟨transform, rfl⟩ := Option.isSome_iff_exists.mp h
  rfl

end Viewport

namespace View

omit [Scalar α] in
theorem folded_eq (v : View σ α) (how : Fold) (id : NodeId) :
    v.folded how id =
      { v with mount? := v.mount?.map fun m => { m with tree := m.tree.folded how id } } := by
  obtain ⟨settings, metrics, memory, theme, mount?, viewport, pointer, tooltip?, isDetached⟩ := v
  cases mount? with
  | none => rfl
  | some m =>
    unfold folded foldTree Tree.folded
    dsimp only [Option.map_some]
    cases m.tree.fold how id <;> rfl

theorem toggled_cases (v : View σ α) (id : NodeId) (now : Duration) :
    v.toggled id now = v ∨
      v.isDetached = false ∧ v.toggled id now = (v.folded .toggle id).sync now := by
  unfold toggled toggle
  cases detached : v.isDetached with
  | true =>
    refine Or.inl ?_
    rw [if_pos rfl]
    cases v.tree?.bind (·.find? id) <;> rfl
  | false =>
    rw [if_neg (by simp), folded]
    cases v.foldTree .toggle id with
    | error e => exact Or.inl rfl
    | ok result =>
      by_cases leaf : result.1 = .leaf
      · exact Or.inl (by simp [bind, Except.bind, pure, Except.pure, leaf])
      · exact Or.inr ⟨rfl, by simp [bind, Except.bind, pure, Except.pure, leaf]⟩

private theorem remount_eq (v : View σ α) (f : Mount α → σ → Mount α × σ) :
    ∃ memory mount? viewport, v.remount f = { v with memory, mount?, viewport } := by
  unfold remount
  split
  · exact ⟨v.memory, v.mount?, v.viewport, rfl⟩
  · exact ⟨_, _, _, rfl⟩

theorem sync_eq (v : View σ α) (now : Duration) :
    ∃ memory mount? viewport, v.sync now = { v with memory, mount?, viewport } := by
  unfold sync
  split
  · exact v.remount_eq _
  · exact ⟨v.memory, v.mount?, v.viewport, rfl⟩

theorem toggled_eq (v : View σ α) (id : NodeId) (now : Duration) :
    ∃ memory mount? viewport, v.toggled id now = { v with memory, mount?, viewport } := by
  rcases v.toggled_cases id now with same | ⟨_, same⟩
  · exact ⟨v.memory, v.mount?, v.viewport, same⟩
  · obtain ⟨memory, mount?, viewport, synced⟩ := (v.folded .toggle id).sync_eq now
    refine ⟨memory, mount?, viewport, ?_⟩
    rw [same, synced, folded_eq]

theorem resize_eq (v : View σ α) (size : Size α) (now : Duration) :
    ∃ memory mount? viewport, v.resize size now = { v with memory, mount?, viewport } := by
  unfold resize relayout
  exact remount_eq _ _

theorem setTheme_eq (v : View σ α) (theme : Theme) (now : Duration) :
    ∃ memory mount? viewport, v.setTheme theme now = { v with theme, memory, mount?, viewport } := by
  unfold setTheme relayout
  exact remount_eq _ _

theorem openTooltip_eq (v : View σ α) (id : NodeId) (anchor : Point α) :
    ∃ memory tooltip?, v.openTooltip id anchor = { v with memory, tooltip? } := by
  unfold openTooltip
  split
  · exact ⟨v.memory, v.tooltip?, rfl⟩
  · exact ⟨_, _, rfl⟩

omit [Scalar α] in
theorem feed_of_hasNews {v : View σ α} (news : v.hasNews = true) {m : Mount α}
    (hm : m ∈ v.mount?) : m.tree.feed ≠ [] := by
  simp only [hasNews, tree?, Option.mem_def.mp hm, Option.map_some, Option.any_some,
    Bool.and_eq_true, Bool.not_eq_true', List.isEmpty_eq_false_iff] at news
  exact news.2

/-- One view goes over to another by steps of its mounted tree at a clock reading, and the diagram
does not lose its place. -/
structure Carries (now : Duration) (prompt : Prop) (v v' : View σ α) : Prop where
  settings : v'.settings = v.settings
  metrics : v'.metrics = v.metrics
  placed : v.viewport.IsPlaced → v'.viewport.IsPlaced
  mount : ∀ m' ∈ v'.mount?, ∃ m ∈ v.mount?,
    Relation.ReflTransGen (Mount.Step v.settings v.metrics now prompt) m m'

namespace Carries

variable {now : Duration} {prompt : Prop}

private theorem unmoved {v v' : View σ α} (settings : v'.settings = v.settings)
    (metrics : v'.metrics = v.metrics) (viewport : v'.viewport.transform? = v.viewport.transform?)
    (mount : v'.mount? = v.mount?) : v.Carries now prompt v' where
  settings := settings
  metrics := metrics
  placed := by
    intro place
    rw [Viewport.IsPlaced, viewport]
    exact place
  mount m hm := ⟨m, mount ▸ hm, .refl⟩

private theorem refl (v : View σ α) : v.Carries now prompt v := unmoved rfl rfl rfl rfl

private theorem trans {u v w : View σ α} (h : u.Carries now prompt v) (k : v.Carries now prompt w) :
    u.Carries now prompt w where
  settings := k.settings.trans h.settings
  metrics := k.metrics.trans h.metrics
  placed place := k.placed (h.placed place)
  mount := by
    intro m'' hm''
    obtain ⟨m', hm', later⟩ := k.mount m'' hm''
    obtain ⟨m, hm, earlier⟩ := h.mount m' hm'
    rw [h.settings, h.metrics] at later
    exact ⟨m, hm, earlier.trans later⟩

private theorem adjust (v : View σ α) {f : Viewport α → Viewport α}
    (placed : v.viewport.IsPlaced → (f v.viewport).IsPlaced) : v.Carries now prompt (v.adjust f) :=
  ⟨rfl, rfl, placed, fun m hm => ⟨m, hm, .refl⟩⟩

private theorem remount (v : View σ α) {f : Mount α → σ → Mount α × σ}
    (h : ∀ m ∈ v.mount?, ∀ state, Relation.ReflTransGen
      (Mount.Step v.settings v.metrics now prompt) m (f m state).1) :
    v.Carries now prompt (v.remount f) := by
  unfold View.remount
  split
  · exact refl v
  · next m hm =>
    refine ⟨rfl, rfl, fun place => ?_, fun m' hm' => ⟨m, hm, ?_⟩⟩
    · dsimp only
      rw [place.resume_eq]
      exact place
    · exact Option.mem_some.mp hm' ▸ h m hm v.memory

private theorem relayout (v : View σ α) (now : Duration) (told : prompt → v.IsTold) :
    v.Carries now prompt (v.relayout now) :=
  remount v fun m hm state => .single (.relayout m state fun p => told p m hm)

private theorem sync (v : View σ α) (now : Duration) : v.Carries now prompt (v.sync now) := by
  unfold View.sync
  split
  · next news =>
    exact remount v fun m hm state => .single (.sync m state (feed_of_hasNews news hm))
  · exact refl v

private theorem folded (v : View σ α) (how : Fold) (id : NodeId) :
    v.Carries now prompt (v.folded how id) := by
  rw [folded_eq]
  refine ⟨rfl, rfl, fun place => place, fun m' hm' => ?_⟩
  obtain ⟨m, hm, rfl⟩ := Option.map_eq_some_iff.mp hm'
  exact ⟨m, hm, .single (.fold m how id)⟩

private theorem toggled (v : View σ α) (id : NodeId) (now : Duration) :
    v.Carries now prompt (v.toggled id now) := by
  rcases v.toggled_cases id now with same | ⟨_, same⟩
  · rw [same]
    exact refl v
  · rw [same]
    exact (folded v .toggle id).trans (sync _ now)

private theorem openTooltip (v : View σ α) (id : NodeId) (anchor : Point α) :
    v.Carries now prompt (v.openTooltip id anchor) := by
  unfold View.openTooltip
  split
  · exact refl v
  · exact unmoved rfl rfl rfl rfl

private theorem resize (v : View σ α) (size : Size α) (now : Duration) (told : prompt → v.IsTold) :
    v.Carries now prompt (v.resize size now) := by
  unfold View.resize
  refine trans ?_ (relayout _ now told)
  exact unmoved rfl rfl rfl rfl

private theorem setTheme (v : View σ α) (theme : Theme) (now : Duration) (told : prompt → v.IsTold)
    :
    v.Carries now prompt (v.setTheme theme now) := by
  unfold View.setTheme
  refine trans ?_ (relayout _ now told)
  exact unmoved rfl rfl rfl rfl

private theorem obey (v : View σ α) (now : Duration) {intent : Intent α}
    (other : ∀ size, intent ≠ .resize size) : v.Carries now prompt (v.obey now intent) := by
  cases intent with
  | toggle id => exact toggled v id now
  | openTooltip id position => exact openTooltip v id position
  | closeTooltip => exact unmoved rfl rfl rfl rfl
  | pan dx dy => exact adjust v fun place => place.pan dx dy
  | zoom anchor factor => exact adjust v fun place => place.zoom anchor factor
  | resize size => exact absurd rfl (other size)

private theorem obeyAll (v : View σ α) (now : Duration) (intents : List (Intent α))
    (others : ∀ size, .resize size ∉ intents) :
    v.Carries now prompt (intents.foldl (fun v intent => v.obey now intent) v) := by
  induction intents generalizing v with
  | nil => exact refl v
  | cons intent intents ih =>
    have first : v.Carries now prompt (v.obey now intent) :=
      obey v now fun size same => others size (same ▸ List.mem_cons_self)
    exact first.trans (ih _ fun size h => others size (List.mem_cons_of_mem _ h))

end Carries

end View

private theorem Pointer.resize_not_mem_handle [PowTwo α] (p : Pointer α) (regions : Regions α)
    {event : Event α} (other : ∀ size, event ≠ .resize size) (size : Size α) :
    .resize size ∉ (p.handle regions event).2 := by
  have clicked (target : Target) (position : Point α) :
      .resize size ∉ (p.click target position).2 := by
    unfold click
    cases target <;> split <;> simp [Target.clicked]
  cases event with
  | down button position => cases button <;> simp [handle, react]
  | up button position =>
    cases button with
    | primary =>
      show .resize size ∉ (p.released position).2
      unfold released
      split
      · exact List.not_mem_nil
      · dsimp only
        split
        · exact List.not_mem_nil
        · next press _ _ => exact clicked press.target position
    | _ => simp [handle, react]
  | move position =>
    show .resize size ∉ (p.moved position).2
    unfold moved
    dsimp only
    repeat' split
    all_goals simp
  | leave => simp [handle, react]
  | wheel position delta unit ctrl =>
    show .resize size ∉ p.wheeled position delta unit ctrl
    unfold wheeled
    dsimp only
    repeat' split
    all_goals simp
  | resize other => exact absurd rfl (other _)

namespace View

private theorem Carries.handle [PowTwo α] (v : View σ α) (event : Event α) (now : Duration) :
    v.Carries now ((Call.handle event now).relaysOut = true → v.IsTold) (v.handle event now).1 := by
  unfold View.handle
  split
  · exact refl v
  · refine trans (v := { v with pointer := (v.pointer.handle (v.regions now) event).1 })
      (unmoved rfl rfl rfl rfl) ?_
    by_cases sized : ∃ size, event = .resize size
    · obtain ⟨size, rfl⟩ := sized
      exact resize { v with pointer := _ } size now fun prompt => prompt rfl
    · have other : ∀ size, event ≠ .resize size := fun size same => sized ⟨size, same⟩
      exact obeyAll _ now _ (v.pointer.resize_not_mem_handle _ other)

private theorem Carries.tick (v : View σ α) (now : Duration) {prompt : Prop} :
    v.Carries now prompt (v.tick now) where
  settings := rfl
  metrics := rfl
  placed place := place
  mount := by
    intro m' hm'
    obtain ⟨m, hm, rfl⟩ := Option.map_eq_some_iff.mp hm'
    refine ⟨m, hm, ?_⟩
    dsimp only
    split
    · exact .single (.expire m)
    · exact .tail (.single (.expire m)) (.advance _)

/-- A call mounts a tree, drains the feed of the mounted one, or takes steps at its clock reading,
which are prompt if no change waits where the call lays the tree out anew. -/
theorem step_cases [PowTwo α] (v : View σ α) (call : Call α) (clock : Duration) :
    (∃ tree? now, call = .mount tree? now) ∨ call = .drain ∨
      v.Carries (call.timeFrom clock) (call.relaysOut = true → v.IsTold) (v.step call) := by
  cases call with
  | mount tree? now => exact Or.inl ⟨tree?, now, rfl⟩
  | drain => exact Or.inr (Or.inl rfl)
  | fold how id => exact Or.inr (Or.inr (.folded v how id))
  | sync now => exact Or.inr (Or.inr (.sync v now))
  | toggle id now => exact Or.inr (Or.inr (.toggled v id now))
  | handle event now => exact Or.inr (Or.inr (.handle v event now))
  | tick now => exact Or.inr (Or.inr (.tick v now))
  | resize size now => exact Or.inr (Or.inr (.resize v size now fun prompt => prompt rfl))
  | setTheme theme now => exact Or.inr (Or.inr (.setTheme v theme now fun prompt => prompt rfl))
  | openTooltip id anchor => exact Or.inr (Or.inr (.openTooltip v id anchor))
  | setTransform transform => exact Or.inr (Or.inr (.adjust v fun place => place.set transform))
  | pan dx dy => exact Or.inr (Or.inr (.adjust v fun place => place.pan dx dy))
  | zoom anchor factor => exact Or.inr (Or.inr (.adjust v fun place => place.zoom anchor factor))
  | zoomIn => exact Or.inr (Or.inr (.adjust v fun place => place.scaleTo _ _))
  | zoomOut => exact Or.inr (Or.inr (.adjust v fun place => place.scaleTo _ _))
  | resetTransform => exact Or.inr (Or.inr (.adjust v fun place => place.reset))
  | closeTooltip => exact Or.inr (Or.inr (.unmoved rfl rfl rfl rfl))
  | detach => exact Or.inr (Or.inr (.unmoved rfl rfl rfl rfl))

theorem settings_step [PowTwo α] (v : View σ α) (call : Call α) :
    (v.step call).settings = v.settings ∧ (v.step call).metrics = v.metrics := by
  rcases v.step_cases call .zero with ⟨tree?, now, rfl⟩ | rfl | carries
  · cases tree? <;> exact ⟨rfl, rfl⟩
  · exact ⟨rfl, rfl⟩
  · exact ⟨carries.settings, carries.metrics⟩

theorem settings_run [PowTwo α] (v : View σ α) (calls : List (Call α)) :
    (v.run calls).settings = v.settings := by
  induction calls generalizing v with
  | nil => rfl
  | cons call calls ih => exact (ih (v.step call)).trans (v.settings_step call).1

theorem metrics_run [PowTwo α] (v : View σ α) (calls : List (Call α)) :
    (v.run calls).metrics = v.metrics := by
  induction calls generalizing v with
  | nil => rfl
  | cons call calls ih => exact (ih (v.step call)).trans (v.settings_step call).2

theorem run_append [PowTwo α] (v : View σ α) (calls later : List (Call α)) :
    v.run (calls ++ later) = (v.run calls).run later := List.foldl_append

theorem run_concat [PowTwo α] (v : View σ α) (calls : List (Call α)) (call : Call α) :
    v.run (calls ++ [call]) = (v.run calls).step call := run_append v calls [call]

theorem isPlaced_run [PowTwo α] (v : View σ α) (calls : List (Call α))
    (placed : v.mount?.isSome → v.viewport.IsPlaced) :
    (v.run calls).mount?.isSome → (v.run calls).viewport.IsPlaced := by
  induction calls generalizing v with
  | nil => exact placed
  | cons call calls ih =>
    refine ih (v.step call) fun mounted => ?_
    rcases v.step_cases call .zero with ⟨tree?, now, rfl⟩ | rfl | carries
    · cases tree? with
      | none => exact absurd mounted (by simp [step, mount])
      | some t => rfl
    · exact placed (by simpa [step, drainTree] using mounted)
    · obtain ⟨m', hm'⟩ := Option.isSome_iff_exists.mp mounted
      obtain ⟨m, hm, _⟩ := carries.mount m' hm'
      exact carries.placed (placed (Option.isSome_iff_exists.mpr ⟨m, hm⟩))

private theorem mount_of_step [PowTwo α] (v : View σ α) (call : Call α) (clock : Duration)
    {P : Mount α → Prop}
    (mounted : ∀ t : Tree, t.IsReachable → ∀ state,
      P (Mount.ofTree t v.settings v.metrics (call.timeFrom clock) state).1)
    (drained : call = .drain → ∀ m ∈ v.mount?, P m → P { m with tree := m.tree.drained })
    (stepped : ∀ m m', P m → Mount.Step v.settings v.metrics (call.timeFrom clock)
      (call.relaysOut = true → v.IsTold) m m' → P m')
    (h : ∀ m ∈ v.mount?, P m) : ∀ m ∈ (v.step call).mount?, P m := by
  intro m' hm'
  rcases v.step_cases call clock with ⟨tree?, now, rfl⟩ | rfl | carries
  · cases tree? with
    | none => exact absurd hm' (by simp [step, mount])
    | some t =>
      obtain rfl := Option.mem_some.mp hm'
      exact mounted t.1 t.2 _
  · obtain ⟨m, hm, rfl⟩ := Option.map_eq_some_iff.mp hm'
    exact drained rfl m hm (h m hm)
  · obtain ⟨m, hm, steps⟩ := carries.mount m' hm'
    clear hm'
    induction steps with
    | refl => exact h m hm
    | tail _ last before => exact stepped _ _ before last

theorem mount_of_runFrom [PowTwo α] {settings : Settings α} {metrics : Metrics σ α}
    {P : Mount α → Prop} (calls : List (Call α))
    (mounted : ∀ t : Tree, t.IsReachable → ∀ now state,
      P (Mount.ofTree t settings metrics now state).1)
    (drained : .drain ∈ calls → ∀ m, P m → P { m with tree := m.tree.drained })
    (stepped : ∀ now m m', P m → Mount.Step settings metrics now False m m' → P m') {v : View σ α}
    (hsettings : v.settings = settings) (hmetrics : v.metrics = metrics)
    (h : ∀ m ∈ v.mount?, P m) : ∀ m ∈ (v.run calls).mount?, P m := by
  -- The calls are done from the left, so the induction is over all views with these settings.
  induction calls generalizing v with
  | nil => exact h
  | cons call calls ih =>
    obtain ⟨keptSettings, keptMetrics⟩ := v.settings_step call
    refine ih (fun drain => drained (List.mem_cons_of_mem _ drain))
      (keptSettings.trans hsettings) (keptMetrics.trans hmetrics) ?_
    subst hsettings hmetrics
    refine v.mount_of_step call .zero (fun t reachable state => mounted t reachable _ state) ?_
      (fun m m' hm step => stepped _ m m' hm (step.mono False.elim)) h
    rintro rfl m _ hm
    exact drained List.mem_cons_self m hm

/-- What holds of every tree when it is mounted and survives every step holds of the mounted tree
of every reachable state. -/
theorem mount_of_run [PowTwo α] {settings : Settings α} {metrics : Metrics σ α}
    {P : Mount α → Prop} (calls : List (Call α))
    (mounted : ∀ t : Tree, t.IsReachable → ∀ now state,
      P (Mount.ofTree t settings metrics now state).1)
    (drained : .drain ∈ calls → ∀ m, P m → P { m with tree := m.tree.drained })
    (stepped : ∀ now m m', P m → Mount.Step settings metrics now False m m' → P m') (memory : σ) :
    ∀ m ∈ ((ofSettings settings metrics memory).run calls).mount?, P m :=
  mount_of_runFrom calls mounted drained stepped rfl rfl
    fun m hm => absurd hm (by simp [ofSettings])

private theorem mount_of_promptRunFrom [PowTwo α] {settings : Settings α} {metrics : Metrics σ α}
    {P : Duration → Mount α → Prop} (calls : List (Call α))
    (later : ∀ clock now m, clock ≤ now → P clock m → P now m)
    (mounted : ∀ t : Tree, t.IsReachable → ∀ now state,
      P now (Mount.ofTree t settings metrics now state).1)
    (stepped : ∀ now m m', P now m → Mount.Step settings metrics now True m m' → P now m')
    {v : View σ α} {clock : Duration} (hsettings : v.settings = settings)
    (hmetrics : v.metrics = metrics) (ordered : Call.AreOrderedFrom clock calls)
    (prompt : v.RunsPromptly calls) (h : ∀ m ∈ v.mount?, P clock m) :
    ∀ m ∈ (v.run calls).mount?, ∃ clock, P clock m := by
  -- The clock reads what the last call with a reading said, so it goes along with the view.
  induction calls generalizing v clock with
  | nil => exact fun m hm => ⟨clock, h m hm⟩
  | cons call calls ih =>
    obtain ⟨told, prompt⟩ := prompt
    obtain ⟨keptSettings, keptMetrics⟩ := v.settings_step call
    refine ih (keptSettings.trans hsettings) (keptMetrics.trans hmetrics) ordered.tail prompt ?_
    subst hsettings hmetrics
    refine v.mount_of_step call clock (fun t reachable state => mounted t reachable _ state) ?_
      (fun m m' hm step => stepped _ m m' hm (step.mono fun _ relaysOut =>
        told (Call.isAbrupt_of_relaysOut relaysOut)))
      fun m hm => later clock _ m ordered.le_timeFrom (h m hm)
    rintro rfl m hm
    have same : ({ m with tree := m.tree.drained } : Mount α) = m := by
      have feed := told rfl m hm
      rw [Tree.drained, ← feed]
    exact fun here => same.symm ▸ here

theorem mount_of_promptRun [PowTwo α] {settings : Settings α} {metrics : Metrics σ α}
    {P : Duration → Mount α → Prop} {calls : List (Call α)}
    (later : ∀ clock now m, clock ≤ now → P clock m → P now m)
    (mounted : ∀ t : Tree, t.IsReachable → ∀ now state,
      P now (Mount.ofTree t settings metrics now state).1)
    (stepped : ∀ now m m', P now m → Mount.Step settings metrics now True m m' → P now m')
    (memory : σ) (ordered : Call.AreOrdered calls)
    (prompt : (ofSettings settings metrics memory).RunsPromptly calls) :
    ∀ m ∈ ((ofSettings settings metrics memory).run calls).mount?, ∃ clock, P clock m :=
  mount_of_promptRunFrom calls later mounted stepped rfl rfl ordered.from_zero prompt
    fun m hm => absurd hm (by simp [ofSettings])

end View

end TidyTree
