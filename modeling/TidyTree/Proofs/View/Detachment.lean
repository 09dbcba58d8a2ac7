import TidyTree.Proofs.View.Listening

set_option autoImplicit false
set_option relaxedAutoImplicit false

namespace TidyTree

variable {σ α : Type}

namespace Call

/-- A detached view does nothing about the call: it is asked to react, to draw or to go on, or the
host folds the tree by itself. -/
def isPassedOver : Call α → Bool
  | fold _ _ => true
  | sync _ => true
  | toggle _ _ => true
  | handle _ _ => true
  | tick _ => true
  | _ => false

def request? : Call α → Option Request
  | fold how id => some (.fold how id)
  | _ => none

def tick? : Call α → Option Duration
  | tick now => some now
  | _ => none

private theorem drain_not_mem_requests (later : List (Call α)) : .drain ∉ later.filterMap request?
    := by
  intro mem
  obtain ⟨call, _, asked⟩ := List.mem_filterMap.mp mem
  cases call with
  | fold how id => exact Request.noConfusion (Option.some.inj asked)
  | _ => exact absurd asked (by simp [request?])

private theorem requests_of_unfolded {later : List (Call α)}
    (unfolded : ∀ how id, .fold how id ∉ later) :
    later.filterMap request? = [] := by
  refine List.filterMap_eq_nil_iff.mpr fun call member => ?_
  cases call with
  | fold how id => exact absurd member (unfolded how id)
  | _ => rfl

end Call

namespace Mount

def waiting (m : Mount α) (later : List (Call α)) : Mount α :=
  { m with
    tree := m.tree.complyAll (later.filterMap Call.request?)
    span? := m.span?.filter fun span => (later.filterMap Call.tick?).all (· < span.expiry) }

private theorem waiting_of_no_tick (m : Mount α) {later : List (Call α)}
    (timeless : later.filterMap Call.tick? = []) :
    m.waiting later = { m with tree := m.tree.complyAll (later.filterMap Call.request?) } := by
  have kept : (m.waiting later).span? = m.span? := by
    rw [waiting, timeless]
    dsimp only
    cases m.span? <;> rfl
  exact congrArg (fun span? => { m.waiting later with span? }) kept

private theorem waiting_nil (m : Mount α) : m.waiting [] = m := m.waiting_of_no_tick rfl

private theorem waiting_tick (m : Mount α) (now : Duration) : m.waiting
    [.tick now] = m.expireSpan now := by
  have alone : (fun span : Span => [now].all (· < span.expiry)) =
      fun span => decide (now < span.expiry) := funext fun span => Bool.and_true _
  exact congrArg (fun lasts => { m with span? := m.span?.filter lasts }) alone

private theorem waiting_append (m : Mount α) (first second : List (Call α)) :
    m.waiting (first ++ second) = (m.waiting first).waiting second := by
  have tree := m.tree.complyAll_append (first.filterMap Call.request?)
    (second.filterMap Call.request?)
  simp only [waiting, List.filterMap_append, List.all_append, tree, Option.filter_filter]

private theorem scope_waiting (m : Mount α) (later : List (Call α)) :
    (m.waiting later).scope = m.scope ∨ (m.waiting later).scope = .nothing := by
  have lasting : (m.waiting later).span? = m.span? ∨ (m.waiting later).span? = none := by
    rw [waiting]
    dsimp only
    cases m.span? with
    | none => exact Or.inl rfl
    | some span =>
      rw [Option.filter_some]
      split
      · exact Or.inl rfl
      · exact Or.inr rfl
  rcases lasting with same | ended
  · exact Or.inl (by rw [scope, scope, same])
  · exact Or.inr (by rw [scope, ended])

end Mount

namespace View

/-- A view after calls that it has let pass. -/
def waiting (v : View σ α) (later : List (Call α)) : View σ α :=
  { v with mount? := v.mount?.map (·.waiting later) }

private theorem waiting_append (v : View σ α) (first second : List (Call α)) :
    v.waiting (first ++ second) = (v.waiting first).waiting second := by
  simp only [waiting, Option.map_map, Function.comp_def, Mount.waiting_append]

private theorem waiting_nil (v : View σ α) : v.waiting [] = v := by
  simp only [waiting, Mount.waiting_nil, Option.map_id']

private theorem scope_waiting (v : View σ α) (later : List (Call α)) :
    (v.waiting later).scope = v.scope ∨ (v.waiting later).scope = .nothing := by
  rw [scope, scope, waiting]
  cases v.mount? with
  | none => exact Or.inl rfl
  | some m => exact m.scope_waiting later

private theorem tree?_waiting (v : View σ α) (later : List (Call α)) :
    (v.waiting later).tree? = v.tree?.map (·.complyAll (later.filterMap Call.request?)) := by
  rw [tree?, tree?, waiting, Option.map_map, Option.map_map]
  rfl

section

variable [Scalar α] {v : View σ α}

omit [Scalar α] in
private theorem hasNews_of_detached (detached : v.isDetached = true) : v.hasNews = false := by
  rw [hasNews, detached]
  rfl

private theorem sync_of_detached (detached : v.isDetached = true) (now : Duration) : v.sync now = v
    :=
  if_neg (by simp [hasNews_of_detached detached])

private theorem toggle_of_detached (detached : v.isDetached = true) (id : NodeId) (now : Duration) :
    v.toggle id now = match v.tree?.bind (·.find? id) with
      | none => .error ⟨id⟩
      | some n => .ok (n.state, v) := if_pos detached

theorem toggled_of_detached (detached : v.isDetached = true) (id : NodeId) (now : Duration) :
    v.toggled id now = v := by
  rcases v.toggled_cases id now with same | ⟨attached, _⟩
  · exact same
  · exact absurd (detached.symm.trans attached) (by decide)

omit [Scalar α] in
private theorem tick_of_detached (detached : v.isDetached = true) (now : Duration) :
    v.tick now = { v with mount? := v.mount?.map (·.expireSpan now) } := by
  rw [tick, detached]
  rfl

omit [Scalar α] in
private theorem isRunning_tick_of_detached (detached : v.isDetached = true) (now : Duration) :
    (v.tick now).isRunning now = false := by
  rw [isRunning, tick, detached]
  rfl

variable [PowTwo α]

private theorem step_of_detached (detached : v.isDetached = true) {call : Call α}
    (passed : call.isPassedOver = true) : v.step call = v.waiting [call] := by
  have mounted {f : Mount α → Mount α} (same : ∀ m : Mount α, m.waiting [call] = f m) :
      { v with mount? := v.mount?.map f } = v.waiting [call] := by
    rw [waiting]
    exact congrArg (fun f => { v with mount? := v.mount?.map f }) (funext fun m => (same m).symm)
  have idle (same : ∀ m : Mount α, m.waiting [call] = m) : v = v.waiting [call] := by
    rw [← mounted same, Option.map_id']
  cases call with
  | fold how id => exact (v.folded_eq how id).trans (mounted fun m => m.waiting_of_no_tick rfl)
  | sync now =>
    exact (sync_of_detached detached now).trans (idle fun m => m.waiting_of_no_tick rfl)
  | toggle id now =>
    exact (toggled_of_detached detached id now).trans (idle fun m => m.waiting_of_no_tick rfl)
  | handle event now =>
    rw [step, handle_of_detached detached]
    exact idle fun m => m.waiting_of_no_tick rfl
  | tick now => exact (tick_of_detached detached now).trans (mounted fun m => m.waiting_tick now)
  | _ => exact Bool.noConfusion passed

private theorem run_of_detached (detached : v.isDetached = true) {later : List (Call α)}
    (passed : ∀ call ∈ later, call.isPassedOver = true) : v.run later = v.waiting later := by
  induction later generalizing v with
  | nil => exact v.waiting_nil.symm
  | cons call later ih =>
    have first := step_of_detached detached (passed call List.mem_cons_self)
    have rest := ih (v := v.waiting [call]) detached
      fun call member => passed call (List.mem_cons_of_mem _ member)
    rw [run, List.foldl_cons, first]
    exact rest.trans (v.waiting_append [call] later).symm

/-- What becomes of a view that has been detached, while calls pass. -/
structure LetsPass (v u : View σ α) (later : List (Call α)) : Prop where
  /-- Nothing is another but the folds of the tree and the scope that has come to its end. -/
  same : u = v.waiting later
  kept : (∀ how id, .fold how id ∉ later) → u.tree? = v.tree?
  /-- The folds of the host wait to be told behind the changes that waited before, in order. -/
  pending : ∀ t ∈ v.tree?, ∃ t' ∈ u.tree?,
    t'.feed = t.feed ++ t.changes [] (later.filterMap Call.request?) ∧
    t'.revision = t.revision + (t.changes [] (later.filterMap Call.request?)).length
  scope : u.scope = v.scope ∨ u.scope = .nothing
  closed : u.tooltip? = none
  unheard : ∀ event now, u.handle event now = (u, [])
  undrawn : ∀ now, u.hasNews = false ∧ u.sync now = u
  still : ∀ now, (u.tick now).isRunning now = false
  refused : ∀ id now, u.tree?.bind (·.find? id) = none → u.toggle id now = .error ⟨id⟩
  answered : ∀ id now, ∀ n ∈ u.tree?.bind (·.find? id), u.toggle id now = .ok (n.state, u)

/-- Whatever has happened to a view, once it is detached it lets events, folds, synchronizations and
the time pass: each is answered as if nothing was there, and what the view shows and holds stays as
it was when it was detached. -/
theorem letsPass_of_detach (settings : Settings α) (metrics : Metrics σ α) (memory : σ)
    (calls : List (Call α)) {later : List (Call α)}
    (passed : ∀ call ∈ later, call.isPassedOver = true) :
    let v := ((ofSettings settings metrics memory).run calls).detach
    v.LetsPass (v.run later) later := by
  intro v
  have detached : v.isDetached = true := rfl
  rw [run_of_detached detached passed]
  have stays : (v.waiting later).isDetached = true := detached
  have numbered : ∀ t ∈ v.tree?, t.root.IsNumbered 0 := by
    intro t ht
    obtain ⟨m, hm, rfl⟩ := Option.map_eq_some_iff.mp ht
    exact Mount.isNumbered_of_run settings metrics memory calls m hm
  constructor
  case same => rfl
  case kept =>
    intro unfolded
    rw [tree?_waiting, Call.requests_of_unfolded unfolded]
    exact Option.map_id'
  case pending =>
    intro t ht
    have undrained := Call.drain_not_mem_requests later
    refine ⟨t.complyAll (later.filterMap Call.request?), ?_, ?_, ?_⟩
    · rw [tree?_waiting]
      exact Option.mem_map_of_mem _ ht
    · exact Tree.feed_complyAll (numbered t ht) [] undrained
    · exact Tree.revision_complyAll (numbered t ht) [] _
  case scope => exact v.scope_waiting later
  case closed => rfl
  case unheard => exact fun event now => handle_of_detached stays event now
  case undrawn => exact fun now => ⟨hasNews_of_detached stays, sync_of_detached stays now⟩
  case still => exact fun now => isRunning_tick_of_detached stays now
  case refused =>
    intro id now missing
    rw [toggle_of_detached stays, missing]
  case answered =>
    intro id now n found
    rw [toggle_of_detached stays, Option.mem_def.mp found]

end

/-- The view is detached while a node that was folded over is on its way. -/
theorem letsPass_of_detach_in_motion :
    ∃ (calls later : List (Call Float)) (v : View Unit Float),
      v = ((ofSettings Settings.standard (.fixed 8) ()).run calls).detach ∧
      v.LetsPass (v.run later) later ∧
      v.scope = .subtree 1 ∧ v.isMoving (.ofMillis 1000) = true ∧
      (v.run later).scope = .nothing ∧
      (v.run later).tree?.map (·.feed) = some [⟨0, .collapsed⟩] := by
  let tree : Tree := .ofRecord { label := "root", visible := [
    { label := "left", visible := [{ label := "leaf" }] }] }
  let calls : List (Call Float) := [.mount (some ⟨tree, .ofRecord _⟩) .zero, .tick (.ofMillis 1000),
    .toggle 1 (.ofMillis 1000)]
  let later : List (Call Float) := [.handle (.down .primary ⟨100, 302⟩) (.ofMillis 1100),
    .fold .toggle 0, .sync (.ofMillis 1200), .toggle 1 (.ofMillis 1300), .tick (.ofMillis 1750)]
  let v : View Unit Float := ((ofSettings Settings.standard (.fixed 8) ()).run calls).detach
  have passed : ∀ call ∈ later, call.isPassedOver = true := by simp [later, Call.isPassedOver]
  have rest := letsPass_of_detach Settings.standard (.fixed 8) () calls passed
  have moving : v.isMoving (.ofMillis 1000) = true := by decide +kernel
  have scope : v.scope = .subtree 1 := by decide +kernel
  have ended : (v.waiting later).scope = .nothing := by decide +kernel
  have feed : (v.waiting later).tree?.map (·.feed) = some [⟨0, .collapsed⟩] := by decide +kernel
  refine ⟨calls, later, v, rfl, rest, scope, moving, ?_, ?_⟩
  · rw [rest.same, ended]
  · rw [rest.same, feed]

end View

end TidyTree
