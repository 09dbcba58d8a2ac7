import TidyTree.Proofs.View.Detachment

set_option autoImplicit false
set_option relaxedAutoImplicit false

/-!
# Timers

A view keeps the scope of its last change until a deadline, and for each node that was folded a
deadline until which its children are moving. Both are set when the view begins to show something,
and ticks let go of what is over. So however often time passes, and whatever is called for in
between, what a view tells depends on nothing but what it has begun to show last.
-/

namespace TidyTree

variable {σ α : Type}

private theorem Call.mount_or_tick (call : Call α) :
    (∃ tree? now, call = .mount tree? now) ∨ (∃ now, call = .tick now) ∨
      call.mounts = false ∧ call.tick? = none := by
  cases call with
  | mount tree? now => exact Or.inl ⟨tree?, now, rfl⟩
  | tick now => exact Or.inr (Or.inl ⟨now, rfl⟩)
  | _ => exact Or.inr (Or.inr ⟨rfl, rfl⟩)

/-- Two deadlines end alike: from a clock reading on, what is not over is the same. -/
private def EndAlike {β : Type} (expiry : β → Duration) (clock : Duration)
    (kept latest : Option β) : Prop :=
  ∀ now, clock ≤ now → kept.filter (now < expiry ·) = latest.filter (now < expiry ·)

namespace EndAlike

variable {β : Type} {expiry : β → Duration} {clock now : Duration} {kept latest : Option β}

private theorem refl (expiry : β → Duration) (clock : Duration) (latest : Option β) :
    EndAlike expiry clock latest latest := fun _ _ => rfl

private theorem mono (h : EndAlike expiry clock kept latest) (later : clock ≤ now) :
    EndAlike expiry now kept latest := fun time le => h time (Nat.le_trans later le)

private theorem or (h : EndAlike expiry clock kept latest) (new : Option β) :
    EndAlike expiry clock (new.or kept) (new.or latest) := by
  cases new with
  | none => exact h
  | some b => exact refl expiry clock (some b)

private theorem filter (h : EndAlike expiry clock kept latest) (later : clock ≤ now) :
    EndAlike expiry now (kept.filter (now < expiry ·)) latest := by
  intro time le
  have later' : (fun b => decide (now < expiry b) && decide (time < expiry b)) =
      fun b => decide (time < expiry b) := by
    funext b
    have ends : time < expiry b → now < expiry b := Nat.lt_of_le_of_lt le
    by_cases lasts : time < expiry b
    · simp [lasts, ends lasts]
    · simp [lasts]
  rw [Option.filter_filter, later']
  exact h time (Nat.le_trans later le)

end EndAlike

/-- Something that a view begins to show: a tree that has been mounted, or changes of it. -/
structure Showing where
  time : Duration
  scope : Scope
  /-- The nodes that were folded. -/
  changed : List NodeId
  deriving DecidableEq, Repr

namespace Showing

def last? (shown : List Showing) (id : NodeId) : Option Showing :=
  (shown.filter (id ∈ ·.changed)).getLast?

private def span? (animation : Duration) (shown : List Showing) : Option Span :=
  shown.getLast?.map fun s => ⟨s.scope, s.time + animation⟩

private def expiry? (animation : Duration) (shown : List Showing) (id : NodeId) : Option Duration :=
  (last? shown id).map (·.time + animation)

variable (animation : Duration) (shown later : List Showing)

private theorem span?_append :
    span? animation (shown ++ later) = (span? animation later).or (span? animation shown) := by
  rw [span?, List.getLast?_append, Option.map_or]
  rfl

private theorem expiry?_append (id : NodeId) :
    expiry? animation (shown ++ later) id =
      (expiry? animation later id).or (expiry? animation shown id) := by
  rw [expiry?, last?, List.filter_append, List.getLast?_append, Option.map_or]
  rfl

end Showing

namespace View

private def span? (v : View σ α) : Option Span := v.mount?.bind (·.span?)

private def expiry? (v : View σ α) (id : NodeId) : Option Duration :=
  v.mount?.bind (·.folding.get? id)

private theorem scope_eq (v : View σ α) : v.scope = (v.span?.map (·.scope)).getD .nothing := by
  rw [scope, span?]
  cases v.mount? with
  | none => rfl
  | some m =>
    show m.scope = (m.span?.map (·.scope)).getD .nothing
    unfold Mount.scope
    cases m.span? <;> rfl

private theorem foldState?_eq (v : View σ α) (id : NodeId) (now : Duration) :
    v.foldState? id now = (v.tree?.bind (·.find? id)).map fun n =>
      .of n.state ((v.expiry? id).any (now < ·)) := by
  rw [foldState?, tree?, expiry?]
  cases v.mount? with
  | none => rfl
  | some m => rfl

private theorem span?_tick [Scalar α] (v : View σ α) (now : Duration) :
    (v.tick now).span? = v.span?.filter (now < ·.expiry) := by
  rw [span?, span?, tick]
  cases v.mount? with
  | none => rfl
  | some m =>
    dsimp only [Option.map_some, Option.bind_some]
    split <;> rfl

private theorem expiry?_tick [Scalar α] (v : View σ α) (id : NodeId) (now : Duration) :
    (v.tick now).expiry? id = v.expiry? id ∨
      (v.tick now).expiry? id = (v.expiry? id).filter (now < ·) := by
  rw [expiry?, expiry?, tick]
  cases v.mount? with
  | none => exact Or.inl rfl
  | some m =>
    dsimp only [Option.map_some, Option.bind_some]
    split
    · exact Or.inl rfl
    · exact Or.inr (Table.get?_filter _ _ id)

section

variable [Scalar α]

/-- What a view begins to show when it is synchronized: the changes that the tree has to tell. -/
def shownBySync (v : View σ α) (now : Duration) : List Showing :=
  if v.hasNews then
    v.mount?.toList.map fun m => ⟨now, m.changeScope, m.tree.feed.map (·.id)⟩
  else []

/-- What a view begins to show when a node is folded over: what waits then, unless the node is a
leaf. -/
def shownByToggle (v : View σ α) (id : NodeId) (now : Duration) : List Showing :=
  match v.toggle id now with
  | .error _ => []
  | .ok (state, _) => if state = .leaf then [] else (v.folded .toggle id).shownBySync now

def shownByIntent (v : View σ α) (now : Duration) : Intent α → List Showing
  | .toggle id => v.shownByToggle id now
  | _ => []

def shownByAll (v : View σ α) (now : Duration) : List (Intent α) → List Showing
  | [] => []
  | intent :: intents => v.shownByIntent now intent ++ (v.obey now intent).shownByAll now intents

variable [PowTwo α]

def begins (v : View σ α) : Call α → List Showing
  | .mount (some _) now => [⟨now, .everything, []⟩]
  | .sync now => v.shownBySync now
  | .toggle id now => v.shownByToggle id now
  | .handle event now => (v.obeying event now []).shownByAll now (v.handle event now).2
  | _ => []

/-- What a view has begun to show behind something else. Nothing of it counts any more when another
tree is mounted, or none. -/
def showingsFrom (v : View σ α) (shown : List Showing) : List (Call α) → List Showing
  | [] => shown
  | call :: calls =>
    (v.step call).showingsFrom ((if call.mounts then [] else shown) ++ v.begins call) calls

def showings (v : View σ α) (calls : List (Call α)) : List Showing := v.showingsFrom [] calls

end

/-- One view sets the timers of another as is due to what it begins to show, and no others. -/
structure SetsTimers (v v' : View σ α) (shown : List Showing) : Prop where
  settings : v'.settings = v.settings
  span : v'.span? = (Showing.span? v.settings.animation shown).or v.span?
  expiry : ∀ id, v'.expiry? id = (Showing.expiry? v.settings.animation shown id).or (v.expiry? id)

namespace SetsTimers

private theorem of_map {v v' : View σ α} {f : Mount α → Mount α}
    (kept : ∀ m : Mount α, (f m).span? = m.span? ∧ (f m).folding = m.folding)
    (settings : v'.settings = v.settings) (mount : v'.mount? = v.mount?.map f) :
    v.SetsTimers v' [] := by
  refine ⟨settings, ?_, fun id => ?_⟩
  · rw [span?, mount, span?]
    cases v.mount? with
    | none => rfl
    | some m => exact (kept m).1
  · rw [expiry?, mount, expiry?]
    cases v.mount? with
    | none => rfl
    | some m => exact congrArg (·.get? id) (kept m).2

private theorem of_eq {v v' : View σ α} (settings : v'.settings = v.settings)
    (mount : v'.mount? = v.mount?) : v.SetsTimers v' [] :=
  of_map (f := id) (fun _ => ⟨rfl, rfl⟩) settings (by rw [mount, Option.map_id_fun, id])

private theorem trans {u v w : View σ α} {shown later : List Showing} (h : u.SetsTimers v shown)
    (k : v.SetsTimers w later) : u.SetsTimers w (shown ++ later) where
  settings := k.settings.trans h.settings
  span := by rw [k.span, h.span, h.settings, Showing.span?_append, Option.or_assoc]
  expiry id := by rw [k.expiry, h.expiry, h.settings, Showing.expiry?_append, Option.or_assoc]

variable [Scalar α]

private theorem relayout (v : View σ α) (now : Duration) : v.SetsTimers (v.relayout now) [] := by
  unfold View.relayout remount
  cases mounted : v.mount? with
  | none => exact of_eq rfl rfl
  | some m =>
    exact of_map (f := fun m => (m.relayout v.settings v.metrics .nothing now v.memory).1)
      (fun _ => ⟨rfl, rfl⟩) rfl (by rw [mounted]; rfl)

private theorem sync (v : View σ α) (now : Duration) : v.SetsTimers (v.sync now)
    (v.shownBySync now) := by
  unfold View.sync shownBySync
  split
  · next news =>
    unfold remount
    cases mounted : v.mount? with
    | none => exact of_eq rfl rfl
    | some m =>
      refine ⟨rfl, rfl, fun id => ?_⟩
      have set := Table.get?_foldl_insert_const Change.id m.tree.feed m.folding
        (now + v.settings.animation) id
      refine set.trans ?_
      rw [expiry?, mounted]
      by_cases changed : id ∈ m.tree.feed.map Change.id
      · simp [Showing.expiry?, Showing.last?, changed]
      · simp [Showing.expiry?, Showing.last?, changed]
  · exact of_eq rfl rfl

omit [Scalar α] in
private theorem folded (v : View σ α) (how : Fold) (id : NodeId) :
    v.SetsTimers (v.folded how id) [] := by
  rw [folded_eq]
  exact of_map (f := fun m => { m with tree := m.tree.folded how id }) (fun _ => ⟨rfl, rfl⟩) rfl rfl

private theorem toggled (v : View σ α) (id : NodeId) (now : Duration) :
    v.SetsTimers (v.toggled id now) (v.shownByToggle id now) := by
  cases detached : v.isDetached with
  | true =>
    have silent : (v.folded .toggle id).shownBySync now = [] := by
      rw [folded_eq]
      exact if_neg (by simp [hasNews, detached])
    have nothing : v.shownByToggle id now = [] := by
      unfold shownByToggle
      rw [silent]
      split
      · rfl
      · exact ite_self []
    rw [toggled_of_detached detached, nothing]
    exact of_eq rfl rfl
  | false =>
    unfold View.toggled shownByToggle toggle
    rw [if_neg (by simp [detached])]
    cases known : v.foldTree .toggle id with
    | error e => exact of_eq rfl rfl
    | ok result =>
      have folded : result.2 = v.folded .toggle id := by rw [View.folded, known]
      dsimp only [bind, Except.bind, pure, Except.pure]
      rw [folded]
      split
      · exact of_eq rfl rfl
      · exact (SetsTimers.folded v .toggle id).trans (sync _ now)

private theorem openTooltip (v : View σ α) (id : NodeId) (anchor : Point α) :
    v.SetsTimers (v.openTooltip id anchor) [] := by
  obtain ⟨_, _, same⟩ := v.openTooltip_eq id anchor
  rw [same]
  exact of_eq rfl rfl

private theorem resize (v : View σ α) (size : Size α) (now : Duration) :
    v.SetsTimers (v.resize size now) [] := by
  have sized (viewport : Viewport α) : v.SetsTimers { v with viewport } [] := of_eq rfl rfl
  exact (sized _).trans (relayout _ now)

private theorem setTheme (v : View σ α) (theme : Theme) (now : Duration) :
    v.SetsTimers (v.setTheme theme now) [] := by
  have themed : v.SetsTimers { v with theme } [] := of_eq rfl rfl
  exact themed.trans (relayout _ now)

private theorem obey (v : View σ α) (now : Duration) (intent : Intent α) :
    v.SetsTimers (v.obey now intent) (v.shownByIntent now intent) := by
  cases intent with
  | toggle id => exact toggled v id now
  | openTooltip id position => exact openTooltip v id position
  | resize size => exact resize v size now
  | _ => exact of_eq rfl rfl

private theorem obeyAll (v : View σ α) (now : Duration) (intents : List (Intent α)) :
    v.SetsTimers (intents.foldl (fun v intent => v.obey now intent) v)
      (v.shownByAll now intents) := by
  induction intents generalizing v with
  | nil => exact of_eq rfl rfl
  | cons intent intents ih => exact (obey v now intent).trans (ih (v.obey now intent))

variable [PowTwo α]

private theorem handle (v : View σ α) (event : Event α) (now : Duration) :
    v.SetsTimers (v.handle event now).1 (v.begins (.handle event now)) := by
  cases detached : v.isDetached with
  | true =>
    rw [begins, handle_of_detached detached]
    exact of_eq rfl rfl
  | false =>
    rw [begins, handle_eq detached]
    have pointed : v.SetsTimers (v.obeying event now []) [] := of_eq rfl rfl
    exact pointed.trans (obeyAll _ now _)

private theorem step (v : View σ α) {call : Call α} (stays : call.mounts = false)
    (timeless : call.tick? = none) : v.SetsTimers (v.step call) (v.begins call) := by
  cases call with
  | mount tree? now => exact Bool.noConfusion stays
  | fold how id => exact folded v how id
  | drain =>
    exact of_map (f := fun m => { m with tree := m.tree.drained }) (fun _ => ⟨rfl, rfl⟩) rfl rfl
  | sync now => exact sync v now
  | toggle id now => exact toggled v id now
  | handle event now => exact handle v event now
  | tick now => exact absurd timeless (Option.some_ne_none now)
  | resize size now => exact resize v size now
  | setTheme theme now => exact setTheme v theme now
  | openTooltip id anchor => exact openTooltip v id anchor
  | _ => exact of_eq rfl rfl

end SetsTimers

/-- The timers of a view end as those do that are due to what it has begun to show. -/
structure Recalls (v : View σ α) (shown : List Showing) (clock : Duration) : Prop where
  span : EndAlike Span.expiry clock v.span? (Showing.span? v.settings.animation shown)
  expiry : ∀ id, EndAlike (fun expiry => expiry) clock (v.expiry? id)
    (Showing.expiry? v.settings.animation shown id)

variable {v : View σ α} {shown : List Showing} {clock now : Duration}

private theorem Recalls.mono (h : v.Recalls shown clock) (later : clock ≤ now) :
    v.Recalls shown now :=
  ⟨h.span.mono later, fun id => (h.expiry id).mono later⟩

private theorem Recalls.set {v' : View σ α} {new : List Showing} (h : v.Recalls shown clock)
    (set : v.SetsTimers v' new) : v'.Recalls (shown ++ new) clock where
  span := by
    rw [set.span, set.settings, Showing.span?_append]
    exact h.span.or _
  expiry id := by
    rw [set.expiry, set.settings, Showing.expiry?_append]
    exact (h.expiry id).or _

variable [Scalar α]

private theorem Recalls.tick (h : v.Recalls shown clock) (later : clock ≤ now) :
    (v.tick now).Recalls shown now where
  span := by
    rw [span?_tick]
    exact h.span.filter later
  expiry id := by
    rcases v.expiry?_tick id now with same | pruned
    · rw [same]
      exact (h.expiry id).mono later
    · rw [pruned]
      exact (h.expiry id).filter later

private theorem recalls_mount (v : View σ α) (tree? : Option { t : Tree // t.IsReachable })
    (now : Duration) [PowTwo α] :
    (v.step (.mount tree? now)).Recalls (v.begins (.mount tree? now)) now := by
  cases tree? with
  | none => exact ⟨.refl _ _ _, fun _ => .refl _ _ _⟩
  | some t => exact ⟨.refl _ _ _, fun _ => .refl _ _ _⟩

variable [PowTwo α]

private theorem Recalls.step (h : v.Recalls shown clock) (call : Call α)
    (later : clock ≤ call.timeFrom clock) :
    (v.step call).Recalls ((if call.mounts then [] else shown) ++ v.begins call)
      (call.timeFrom clock) := by
  rcases call.mount_or_tick with ⟨tree?, now, rfl⟩ | ⟨now, rfl⟩ | ⟨stays, timeless⟩
  · exact v.recalls_mount tree? now
  · have idle : shown ++ v.begins (.tick now) = shown := List.append_nil shown
    show (v.tick now).Recalls (shown ++ v.begins (.tick now)) now
    rw [idle]
    exact h.tick later
  · rw [stays, if_neg Bool.false_ne_true]
    exact (h.set (.step v stays timeless)).mono later

private theorem Recalls.run {calls : List (Call α)} (h : v.Recalls shown clock)
    (ordered : Call.AreOrderedFrom clock calls) (bound : clock ≤ now)
    (later : ∀ call ∈ calls, ∀ reading ∈ call.time?, reading ≤ now) :
    (v.run calls).Recalls (v.showingsFrom shown calls) now := by
  induction calls generalizing v shown clock with
  | nil => exact h.mono bound
  | cons call calls ih =>
    have reading : call.timeFrom clock ≤ now := by
      rw [Call.timeFrom]
      cases time : call.time? with
      | none => exact bound
      | some reading => exact later call List.mem_cons_self reading time
    exact ih (h.step call ordered.le_timeFrom) ordered.tail reading
      fun call member => later call (List.mem_cons_of_mem _ member)

omit [PowTwo α] in
private theorem Recalls.scope_tick (h : v.Recalls shown now) :
    (v.tick now).scope = match shown.getLast? with
      | none => .nothing
      | some s => if s.time + v.settings.animation ≤ now then .nothing else s.scope := by
  have lasting := h.span now (Nat.le_refl _)
  rw [scope_eq, span?_tick, lasting, Showing.span?]
  cases shown.getLast? with
  | none => rfl
  | some s =>
    rw [Option.map_some, Option.filter_some]
    by_cases passed : s.time + v.settings.animation ≤ now
    · have ended : ¬ now < s.time + v.settings.animation := Nat.not_lt_of_le passed
      simp [passed, ended]
    · have lasts : now < s.time + v.settings.animation := Nat.lt_of_not_le passed
      simp [passed, lasts]

omit [Scalar α] [PowTwo α] in
private theorem Recalls.foldState?_eq (h : v.Recalls shown now) {id : NodeId} {n : Node}
    (found : n ∈ v.tree?.bind (·.find? id)) :
    v.foldState? id now = some (.of n.state
      ((Showing.last? shown id).any (now < ·.time + v.settings.animation))) := by
  have lasting := h.expiry id now (Nat.le_refl _)
  have moving : (v.expiry? id).any (now < ·) =
      (Showing.last? shown id).any (now < ·.time + v.settings.animation) := by
    rw [← Option.isSome_filter, lasting, Option.isSome_filter, Showing.expiry?, Option.any_map]
  rw [View.foldState?_eq, Option.mem_def.mp found, Option.map_some, moving]

private theorem scope_step (v : View σ α) {call : Call α} {s : Showing}
    (begun : s ∈ (v.begins call).getLast?) : (v.step call).scope = s.scope := by
  rcases call.mount_or_tick with ⟨tree?, now, rfl⟩ | ⟨now, rfl⟩ | ⟨stays, timeless⟩
  · cases tree? with
    | none => exact absurd begun (by simp [begins])
    | some t =>
      obtain rfl := Option.mem_some.mp begun
      rfl
  · exact absurd begun (by simp [begins])
  · have set := SetsTimers.step v stays timeless
    rw [scope_eq, set.span, Showing.span?, Option.mem_def.mp begun]
    rfl

/-- In every run in which the clock does not go back, and whether or not the view is detached, a
tick leaves the scope of what was begun last, or none once that is over, and a scope is told from
the call on that begins it. Every node is told in the state that it has in the tree, and as moving
just until the time of a change has passed since it was last shown to be folded. -/
theorem timers_of_run (settings : Settings α) (metrics : Metrics σ α) (memory : σ)
    {calls : List (Call α)} (ordered : Call.AreOrdered calls) {now : Duration}
    (later : ∀ call ∈ calls, ∀ reading ∈ call.time?, reading ≤ now) :
    let start := ofSettings settings metrics memory
    let v := start.run calls
    let shown := start.showings calls
    ((v.tick now).scope = match shown.getLast? with
      | none => .nothing
      | some s => if s.time + settings.animation ≤ now then .nothing else s.scope) ∧
    (∀ before call, ∀ s ∈ ((start.run before).begins call).getLast?,
      (start.run (before ++ [call])).scope = s.scope) ∧
    ∀ id, ∀ n ∈ v.tree?.bind (·.find? id),
      v.foldState? id now = some (.of n.state
        ((Showing.last? shown id).any (now < ·.time + settings.animation))) := by
  intro start v shown
  have fresh : start.Recalls [] .zero := ⟨.refl _ _ _, fun _ => .refl _ _ _⟩
  have recalls : v.Recalls shown now := fresh.run ordered.from_zero (Nat.zero_le _) later
  have animation : v.settings.animation = settings.animation :=
    congrArg Settings.animation (start.settings_run calls)
  rw [← animation]
  refine ⟨recalls.scope_tick, ?_, ?_⟩
  · intro before call s begun
    rw [run_concat]
    exact scope_step _ begun
  · intro id n found
    exact recalls.foldState?_eq found

/-- The view is resized while one node is on its way, ticks while another is, and is detached. -/
theorem timers_of_run_of_overlap :
    ∃ (calls : List (Call Float)) (v : View Unit Float),
      v = (ofSettings Settings.standard (.fixed 8) ()).run calls ∧ v.isDetached = true ∧
      (v.tick (.ofMillis 1800)).scope = .subtree 3 ∧
      v.foldState? 1 (.ofMillis 1800) = some .collapsed ∧
      v.foldState? 3 (.ofMillis 1800) = some .collapsing := by
  let tree : Tree := .ofRecord { label := "root", visible := [
    { label := "left", visible := [{ label := "leaf" }] },
    { label := "right", visible := [{ label := "leaf" }] }] }
  let calls : List (Call Float) := [.mount (some ⟨tree, .ofRecord _⟩) .zero,
    .toggle 1 (.ofMillis 1000), .resize ⟨800, 500⟩ (.ofMillis 1375), .fold .collapse 3,
    .sync (.ofMillis 1500), .tick (.ofMillis 1700), .detach]
  let start : View Unit Float := ofSettings Settings.standard (.fixed 8) ()
  have ordered : Call.AreOrdered calls := by decide
  have later : ∀ call ∈ calls, ∀ reading ∈ call.time?, reading ≤ .ofMillis 1800 := by
    simp only [calls, List.forall_mem_cons, Call.time?]
    decide
  obtain ⟨scope, -, states⟩ :=
    timers_of_run Settings.standard (.fixed 8) () ordered later
  have shown : start.showings calls = [⟨.zero, .everything, []⟩,
      ⟨.ofMillis 1000, .subtree 1, [1]⟩, ⟨.ofMillis 1500, .subtree 3, [3]⟩] := by decide +kernel
  rw [shown] at scope states
  have detached : (start.run calls).isDetached = true := by decide +kernel
  have left : ((start.run calls).tree?.bind (·.find? 1)).map (·.state) = some .collapsed := by
    decide +kernel
  have right : ((start.run calls).tree?.bind (·.find? 3)).map (·.state) = some .collapsed := by
    decide +kernel
  obtain ⟨left, findLeft, collapsedLeft⟩ := Option.map_eq_some_iff.mp left
  obtain ⟨right, findRight, collapsedRight⟩ := Option.map_eq_some_iff.mp right
  refine ⟨calls, start.run calls, rfl, detached, ?_, ?_, ?_⟩
  · exact scope.trans (by decide)
  · rw [states 1 left findLeft, collapsedLeft]
    decide
  · rw [states 3 right findRight, collapsedRight]
    decide

end View

end TidyTree
