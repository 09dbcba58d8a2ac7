import TidyTree.Proofs.View.Presses
import TidyTree.Proofs.View.Stillness

set_option autoImplicit false
set_option relaxedAutoImplicit false

/-!
# The tooltip and its listener

The pointer arms its listener for clicks outside of the tooltip while it asks for the tooltip, and
the view opens the tooltip when it obeys. Both come together because an indicator is drawn only for
a node with a comment, and the node keeps its comment while the button is down. So in every run that
opens tooltips by clicks alone, and mounts no tree between a press and its release, the listener is
armed as long as a tooltip is open, and a click elsewhere closes it before anything else is done.
-/

namespace TidyTree

variable {σ α : Type}

namespace Tree

private def HasComment (t : Tree) (id : NodeId) : Prop :=
  ∃ item ∈ t.nodes.map Node.item, item.id = id ∧ item.hasComment = true

private theorem HasComment.complyAll {t : Tree} {id : NodeId} {i : NodeId}
    (numbered : t.root.IsNumbered i)
    (h : t.HasComment id) (requests : List Request) : (t.complyAll requests).HasComment id := by
  have items : (t.complyAll requests).nodes.map Node.item = t.nodes.map Node.item := by
    rw [nodes_complyAll numbered, List.map_map]
    exact List.map_congr_left fun n _ => Node.item_restate _ n
  rw [HasComment, items]
  exact h

end Tree

namespace Mount

variable [Scalar α] {m : Mount α} {settings : Settings α} {metrics : Metrics σ α}

private theorem IsLaidOut.item_mem (h : m.IsLaidOut settings metrics) {b : NodeBox α}
    (hb : b ∈ m.layout.boxes) : b.visit.item ∈ m.tree.nodes.map Node.item := by
  obtain ⟨before, state, layout, agree⟩ := h
  have shows := Layout.shows_withColumns settings.sizing metrics m.columnWidth before state
  rw [← layout] at shows
  have visited : b.visit ∈ before.root.visibleTree.preorder := shows ▸ List.mem_map_of_mem hb
  have drawn : b.visit.item ∈ before.root.drawn.map Node.item := by
    rw [← Node.map_item_visits none 0 0 before.root]
    exact List.mem_map_of_mem visited
  rw [Tree.nodes, ← agree.map_item_preorder]
  exact ((Node.drawn_sublist before.root).map Node.item).subset drawn

theorem isNumbered_of_run [PowTwo α] (settings : Settings α) (metrics : Metrics σ α) (memory : σ)
    (calls : List (Call α)) :
    ∀ m ∈ ((View.ofSettings settings metrics memory).run calls).mount?,
      m.tree.root.IsNumbered 0 := by
  refine View.mount_of_run calls (fun t reachable _ _ => reachable.isNumbered) (fun _ _ h => h)
    (fun now m m' h stepped => ?_) memory
  cases stepped with
  | fold how id => exact h.folded how id
  | _ => exact h

end Mount

namespace View

section

variable [Scalar α] {v : View σ α} {m : Mount α}

private theorem box_mem_of_present {now : Duration} {n : NodeShape α}
    (h : n ∈ (v.sceneOf m now).present) : n.box ∈ m.layout.boxes := by
  obtain ⟨mem, stays⟩ := List.mem_filter.mp h
  rcases List.mem_append.mp mem with present | leaving
  · obtain ⟨box, hbox, rfl⟩ := List.mem_map.mp present
    exact hbox
  · obtain ⟨⟨id, box⟩, _, drawn⟩ := List.mem_filterMap.mp leaving
    dsimp only at drawn
    split at drawn
    · exact absurd drawn (by simp)
    · obtain ⟨spot, _, rfl⟩ := Option.map_eq_some_iff.mp drawn
      exact absurd stays (by simp)

private theorem hasComment_of_shows {settings : Settings α} {metrics : Metrics σ α} {now : Duration}
    {screen : Point α} {id : NodeId} (laidOut : m.IsLaidOut settings metrics)
    (shown : (v.sceneOf m now).Shows screen (.indicator id)) : m.tree.HasComment id := by
  obtain ⟨n, present, same, disc, known, _⟩ := shown
  refine ⟨n.box.visit.item, laidOut.item_mem (box_mem_of_present present), same, ?_⟩
  unfold NodeShape.indicator? at known
  split at known
  · assumption
  · exact absurd known (by simp)

omit [Scalar α] in
private theorem isSome_comment? {t : Tree} {i id : NodeId} (mounted : v.tree? = some t)
    (numbered : t.root.IsNumbered i) (h : t.HasComment id) : (v.comment? id).isSome = true := by
  obtain ⟨item, mem, same, commented⟩ := h
  obtain ⟨n, hn, rfl⟩ := List.mem_map.mp mem
  have found : t.find? id = some n := numbered.find?_eq_some_iff.mpr ⟨hn, same⟩
  have comment : v.comment? id = n.item.comment := by
    simp only [comment?, mounted, found, Option.bind_eq_bind, Option.bind_some, commented, if_true]
  rw [comment]
  unfold Item.hasComment at commented
  split at commented
  · exact absurd commented Bool.false_ne_true
  · next text given => rw [given]; rfl

structure Attends (v v' : View σ α) : Prop where
  pointer : v'.pointer = v.pointer
  tooltip : v'.tooltip? = v.tooltip?
  isDetached : v'.isDetached = v.isDetached

namespace Attends

omit [Scalar α] in
private theorem refl (v : View σ α) : v.Attends v := ⟨rfl, rfl, rfl⟩

omit [Scalar α] in
private theorem trans {u v w : View σ α} (h : u.Attends v) (k : v.Attends w) : u.Attends w :=
  ⟨k.pointer.trans h.pointer, k.tooltip.trans h.tooltip, k.isDetached.trans h.isDetached⟩

private theorem toggled (v : View σ α) (id : NodeId) (now : Duration) : v.Attends
    (v.toggled id now) := by
  obtain ⟨_, _, _, same⟩ := v.toggled_eq id now
  rw [same]
  exact ⟨rfl, rfl, rfl⟩

private theorem resize (v : View σ α) (size : Size α) (now : Duration) : v.Attends
    (v.resize size now) := by
  obtain ⟨_, _, _, same⟩ := v.resize_eq size now
  rw [same]
  exact ⟨rfl, rfl, rfl⟩

private theorem obey (v : View σ α) (now : Duration) {intent : Intent α}
    (window : intent.isOfWindow = true) : v.Attends (v.obey now intent) := by
  cases intent with
  | pan dx dy => exact ⟨rfl, rfl, rfl⟩
  | zoom anchor factor => exact ⟨rfl, rfl, rfl⟩
  | resize size => exact resize v size now
  | _ => exact absurd window Bool.noConfusion

private theorem obeyAll (v : View σ α) (now : Duration) {intents : List (Intent α)}
    (window : ∀ intent ∈ intents, intent.isOfWindow = true) :
    v.Attends (intents.foldl (fun v intent => v.obey now intent) v) := by
  induction intents generalizing v with
  | nil => exact refl v
  | cons intent intents ih =>
    have first := obey v now (window intent List.mem_cons_self)
    exact first.trans (ih _ fun other mem => window other (List.mem_cons_of_mem _ mem))

end Attends

/-- The listener is armed exactly while a tooltip is open, and a view that is detached has none. -/
structure IsAttentive (v : View σ α) : Prop where
  settled : v.pointer.listener ≠ .pending
  armed : v.pointer.isArmed = v.tooltip?.isSome
  detached : v.isDetached = true → v.tooltip? = none

namespace IsAttentive

omit [Scalar α] in
private theorem congr {v' : View σ α} (h : v.IsAttentive) (same : v.Attends v') :
    v'.IsAttentive where
  settled := same.pointer ▸ h.settled
  armed := by
    rw [same.pointer, same.tooltip]
    exact h.armed
  detached := by
    rw [same.isDetached, same.tooltip]
    exact h.detached

omit [Scalar α] in
private theorem of_closed (disarmed : v.pointer.listener = .disarmed) (closed : v.tooltip? = none) :
    v.IsAttentive where
  settled := by
    rw [disarmed]
    exact Listener.noConfusion
  armed := by
    rw [Pointer.isArmed, disarmed, closed]
    rfl
  detached := fun _ => closed

omit [Scalar α] in
private theorem closeTooltip (v : View σ α) : v.closeTooltip.IsAttentive := of_closed rfl rfl

private theorem mount (v : View σ α) (tree? : Option Tree) (now : Duration) :
    (v.mount tree? now).IsAttentive := by
  cases tree? <;> exact of_closed rfl rfl

omit [Scalar α] in
private theorem listen (h : v.IsAttentive) {pointer : Pointer α}
    (same : pointer.listener = v.pointer.listener) : IsAttentive { v with pointer } where
  settled := same ▸ h.settled
  armed := by
    rw [Pointer.isArmed, same]
    exact h.armed
  detached := h.detached

private theorem openTooltip {id : NodeId} {comment : String} (attached : v.isDetached = false)
    (armed : v.pointer.listener = .armed) (commented : v.comment? id = some comment)
    (anchor : Point α) : (v.openTooltip id anchor).IsAttentive := by
  unfold View.openTooltip
  rw [commented]
  constructor
  case settled =>
    rw [armed]
    exact Listener.noConfusion
  case armed =>
    rw [Pointer.isArmed, armed]
    rfl
  case detached =>
    intro detached
    exact absurd (attached.symm.trans detached) Bool.false_ne_true

variable [PowTwo α]

private theorem handle (h : v.IsAttentive) (event : Event α) (now : Duration)
    (commented : ∀ position id, event = .up .primary position → v.isDetached = false →
      v.pointer.clickedAt? position = some (.indicator id) → (v.comment? id).isSome = true) :
    (v.handle event now).1.IsAttentive := by
  cases detached : v.isDetached with
  | true =>
    rw [handle_of_detached detached]
    exact h
  | false =>
    rw [handle_eq detached]
    dsimp only [obeying]
    rcases v.pointer.handle_cases (v.regions now) event with
      ⟨position, target, rfl, clicked, asked, listener⟩ | ⟨window, listener⟩
    · have settled : v.pointer.IsSettled v.pointer.clickDistance := ⟨rfl, h.settled⟩
      rw [asked, Pointer.click_eq_answer settled]
      generalize (v.pointer.handle (v.regions now) (.up .primary position)).1 = pointer at *
      have unarmed (silent : v.pointer.isArmed = false) :
          v.pointer.listener = .disarmed := settled.listener_eq silent
      cases target with
      | indicator id =>
        have known := commented position id rfl detached clicked
        obtain ⟨comment, given⟩ := Option.isSome_iff_exists.mp known
        exact openTooltip (v := { v with pointer }) detached listener given position
      | node id =>
        cases armed : v.pointer.isArmed with
        | true => exact (closeTooltip _).congr (.toggled _ id now)
        | false =>
          rw [unarmed armed] at listener
          exact (h.listen (listener.trans (unarmed armed).symm)).congr (.toggled _ id now)
      | background =>
        cases armed : v.pointer.isArmed with
        | true => exact closeTooltip _
        | false =>
          rw [unarmed armed] at listener
          exact h.listen (listener.trans (unarmed armed).symm)
      | closeButton => exact closeTooltip _
      | tooltip => exact h.listen (listener.trans (Listener.settle_eq h.settled))
    · rw [Listener.settle_eq h.settled] at listener
      exact (h.listen listener).congr (.obeyAll _ now window)

private theorem step (h : v.IsAttentive) {call : Call α}
    (other : ∀ id anchor, call ≠ .openTooltip id anchor)
    (commented : ∀ position now id, call = .handle (.up .primary position) now →
      v.isDetached = false → v.pointer.clickedAt? position = some (.indicator id) →
        (v.comment? id).isSome = true) : (v.step call).IsAttentive := by
  cases call with
  | mount tree? now => exact mount v _ now
  | fold how id =>
    rw [View.step, folded_eq]
    exact h.congr ⟨rfl, rfl, rfl⟩
  | sync now =>
    obtain ⟨_, _, _, same⟩ := v.sync_eq now
    rw [View.step, same]
    exact h.congr ⟨rfl, rfl, rfl⟩
  | toggle id now => exact h.congr (.toggled v id now)
  | handle event now =>
    exact h.handle event now fun position id release => commented position now id (release ▸ rfl)
  | resize size now => exact h.congr (.resize v size now)
  | setTheme theme now =>
    obtain ⟨_, _, _, same⟩ := v.setTheme_eq theme now
    rw [View.step, same]
    exact h.congr ⟨rfl, rfl, rfl⟩
  | openTooltip id anchor => exact absurd rfl (other id anchor)
  | closeTooltip => exact closeTooltip v
  | detach => exact of_closed rfl rfl
  | _ => exact h.congr ⟨rfl, rfl, rfl⟩

end IsAttentive

end

end View

namespace Call

/-- No tree is mounted between a press and its release. -/
def KeepsTree (calls : List (Call α)) : Prop :=
  ∀ before origin pressed between position released after,
    calls = before ++ .handle (.down .primary origin) pressed ::
      (between ++ .handle (.up .primary position) released :: after) →
    (∀ call ∈ between, call.endsPress = false) → ∀ call ∈ between, call.mounts = false

private theorem KeepsTree.left {calls later : List (Call α)} (h : KeepsTree (calls ++ later)) :
    KeepsTree calls := by
  rintro before origin pressed between position released after rfl
  exact h before origin pressed between position released (after ++ later) (by simp)

private theorem keepsTree_cons {first : Call α} {calls : List (Call α)}
    (stays : ∀ call ∈ calls, call.mounts = false) : KeepsTree (first :: calls) := by
  intro before origin pressed between position released after split _ call mem
  refine stays call ?_
  cases before with
  | nil =>
    obtain ⟨_, rfl⟩ := List.cons.inj split
    exact List.mem_append_left _ mem
  | cons head before =>
    obtain ⟨_, rfl⟩ := List.cons.inj split
    exact List.mem_append_right _ (List.mem_cons_of_mem _ (List.mem_append_left _ mem))

end Call

namespace View

variable [Scalar α] [PowTwo α]

private theorem isSome_comment?_of_run (settings : Settings α) (metrics : Metrics σ α) (memory : σ)
    {calls : List (Call α)} {position : Point α} {released : Duration} {id : NodeId}
    (keeps : Call.KeepsTree (calls ++ [.handle (.up .primary position) released]))
    (clicked : ((ofSettings settings metrics memory).run calls).pointer.clickedAt? position =
      some (.indicator id)) :
    (((ofSettings settings metrics memory).run calls).comment? id).isSome = true := by
  have idle : (ofSettings settings metrics memory).pointer.press? = none := rfl
  obtain ⟨press, held, same⟩ := Pointer.press_of_clickedAt? clicked
  obtain ⟨before, pressed, between, rfl, _, hit, kept⟩ :=
    (holdsSince_of_run idle calls).2 press held
  rw [same] at hit
  -- The picture that was pressed shows the indicator of a node with a comment...
  have laidOut := Mount.IsLaidOut.of_run settings metrics memory before
  have numbered := Mount.isNumbered_of_run settings metrics memory before
  generalize ofSettings settings metrics memory = start at *
  have source : (Intent.openTooltip id position).source? = some (.indicator id) := rfl
  obtain ⟨m, hm, shown⟩ := exists_shows hit source
  have commented := hasComment_of_shows (laidOut m hm) shown
  -- ... and the tree is still the one that was pressed, however it was folded since.
  have stays : ∀ call ∈ .handle (.down .primary press.origin) pressed :: between,
      call.mounts = false := by
    refine List.forall_mem_cons.mpr ⟨rfl, ?_⟩
    exact keeps before press.origin pressed between position released [] (by simp) kept
  obtain ⟨requests, tree⟩ := HandsOn.run (start.run before) stays
  rw [← run_append, tree?, tree?, Option.mem_def.mp hm] at tree
  exact isSome_comment? tree (Tree.isNumbered_complyAll (numbered m hm) requests)
    (commented.complyAll (numbered m hm) requests)

private theorem isAttentive_of_run (settings : Settings α) (metrics : Metrics σ α) (memory : σ)
    {calls : List (Call α)} (unopened : ∀ id anchor, .openTooltip id anchor ∉ calls)
    (keeps : Call.KeepsTree calls) :
    ((ofSettings settings metrics memory).run calls).IsAttentive := by
  induction calls using List.reverseRecOn with
  | nil => exact .of_closed rfl rfl
  | append_singleton calls call ih =>
    have attentive := ih (fun id anchor mem => unopened id anchor (List.mem_append_left _ mem))
      keeps.left
    rw [run_concat]
    refine attentive.step ?_ ?_
    · rintro id anchor rfl
      exact unopened id anchor (by simp)
    · rintro position released id rfl _ clicked
      exact isSome_comment?_of_run settings metrics memory keeps clicked

private theorem IsAttentive.closes {v : View σ α} (h : v.IsAttentive)
    (opened : v.tooltip?.isSome = true)
    {position : Point α} {target : Target} (clicked : v.pointer.clickedAt? position = some target)
    (outside : target.isOutside = true) (now : Duration) :
    (v.handle (.up .primary position) now).2 = .closeTooltip :: target.clicked position ∧
      (v.obeying (.up .primary position) now [.closeTooltip]).tooltip? = none ∧
      (v.handle (.up .primary position) now).1.tooltip? = none := by
  have attached : v.isDetached = false := by
    by_contra detached
    rw [h.detached (Bool.not_eq_false _ ▸ detached)] at opened
    exact Bool.false_ne_true opened
  have armed : v.pointer.isArmed = true := h.armed.trans opened
  have asked : (v.pointer.handle (v.regions now) (.up .primary position)).2 =
      .closeTooltip :: target.clicked position := by
    have settled : v.pointer.IsSettled v.pointer.clickDistance := ⟨rfl, h.settled⟩
    show (v.pointer.released position).2 = _
    rw [Pointer.released_eq, clicked]
    show (v.pointer.click target position).2 = _
    rw [Pointer.click_eq_answer settled, armed]
    cases target with
    | node id => rfl
    | background => rfl
    | _ => exact absurd outside Bool.false_ne_true
  rw [handle_eq attached, asked]
  refine ⟨rfl, rfl, ?_⟩
  cases target with
  | node id => exact (Attends.toggled _ id now).tooltip
  | background => rfl
  | _ => exact absurd outside Bool.false_ne_true

/-- In every run without a direct call for a tooltip, and without a tree mounted between a press and
its release, clicks outside of the tooltip are listened for exactly while a tooltip is open, after
every call. A click outside, on a node or on the background, then closes the tooltip, and does so
before it folds the node. -/
theorem listens_while_open (settings : Settings α) (metrics : Metrics σ α) (memory : σ)
    {calls : List (Call α)} (unopened : ∀ id anchor, .openTooltip id anchor ∉ calls)
    (keeps : Call.KeepsTree calls) {before after : List (Call α)}
    (split : calls = before ++ after) :
    let start := ofSettings settings metrics memory
    let v := start.run before
    v.pointer.listener ≠ .pending ∧
    (v.pointer.isArmed = true ↔ v.tooltip?.isSome = true) ∧
    ∀ position target now, target.isOutside = true →
      Occurrence.IsClick settings.clickDistance (start.history before) position target →
      v.tooltip?.isSome = true →
        (v.handle (.up .primary position) now).2 = .closeTooltip :: target.clicked position ∧
        (v.obeying (.up .primary position) now [.closeTooltip]).tooltip? = none ∧
        (v.handle (.up .primary position) now).1.tooltip? = none := by
  intro start v
  subst split
  have attentive : v.IsAttentive := isAttentive_of_run settings metrics memory
    (fun id anchor mem => unopened id anchor (List.mem_append_left _ mem)) keeps.left
  refine ⟨attentive.settled, by rw [attentive.armed], ?_⟩
  intro position target now outside click opened
  have recounts := recounts_of_run settings metrics memory before
  exact attentive.closes opened (recounts.clickedAt?_eq_some_iff.mpr click) outside now

theorem listens_while_open_of_clicks :
    ∃ (calls : List (Call Float)) (v : View Unit Float),
      v = (ofSettings Settings.standard (.fixed 8) ()).run calls ∧
      v.pointer.isArmed = true ∧ v.tooltip?.isSome = true ∧
      (v.handle (.up .primary ⟨101, 302⟩) (.ofMillis 1400)).2 = [.closeTooltip, .toggle 0] ∧
      (v.obeying (.up .primary ⟨101, 302⟩) (.ofMillis 1400) [.closeTooltip]).tooltip? = none := by
  let tree : Tree := .ofRecord { label := "root", comment := some "why", visible := [
    { label := "left", visible := [{ label := "leaf" }] }] }
  let clicks : List (Call Float) := [.handle (.down .primary ⟨144, 289⟩) (.ofMillis 1000),
    .handle (.up .primary ⟨144, 289⟩) (.ofMillis 1000), .fold .collapse 1,
    .handle (.down .primary ⟨100, 302⟩) (.ofMillis 1100), .sync (.ofMillis 1200)]
  let calls : List (Call Float) := .mount (some ⟨tree, .ofRecord _⟩) .zero :: clicks
  let start : View Unit Float := ofSettings Settings.standard (.fixed 8) ()
  have unopened : ∀ id anchor, .openTooltip id anchor ∉ calls := by simp [calls, clicks]
  have keeps : Call.KeepsTree calls := Call.keepsTree_cons (by simp [clicks, Call.mounts])
  have clicked : (start.run calls).pointer.clickedAt? ⟨101, 302⟩ = some (.node 0) := by
    decide +kernel
  have opened : (start.run calls).tooltip?.isSome = true := by decide +kernel
  obtain ⟨_, armed, closes⟩ :=
    listens_while_open Settings.standard (.fixed 8) () unopened keeps (List.append_nil calls).symm
  have recounts := recounts_of_run Settings.standard (.fixed 8) () calls
  obtain ⟨asked, closed, _⟩ := closes ⟨101, 302⟩ (.node 0) (.ofMillis 1400) rfl
    (recounts.clickedAt?_eq_some_iff.mp clicked) opened
  exact ⟨calls, start.run calls, rfl, armed.mpr opened, opened, asked, closed⟩

end View

end TidyTree
