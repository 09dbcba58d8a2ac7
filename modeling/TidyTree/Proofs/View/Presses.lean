import TidyTree.Proofs.View.Lineage
import TidyTree.Proofs.View.Pointing
import TidyTree.Proofs.View.Promptness
import TidyTree.Scalar.Binary64

set_option autoImplicit false
set_option relaxedAutoImplicit false

/-!
# Where a click was made

A click is judged by what was under the pointer when the button went down. Nothing but another press,
a release, the pointer's leaving and a detachment ends a press, so whoever folds a node or opens its
tooltip pressed on its box or its indicator, in a picture of the tree that was mounted then. That is
the tree that the click acts on unless another one was mounted while the button was down: mounting
does not end a press.
-/

namespace TidyTree

variable {σ α : Type}

/-- Nothing is left after the call of a press that was held before. -/
def Call.endsPress : Call α → Bool
  | handle event _ => event.endsPress
  | detach => true
  | _ => false

def Intent.source? : Intent α → Option Target
  | toggle id => some (.node id)
  | openTooltip id _ => some (.indicator id)
  | _ => none

namespace Pointer

variable {p : Pointer α} {regions : Regions α}

private theorem source_of_click {clicked target : Target} {position : Point α} {intent : Intent α}
    (mem : intent ∈ (p.click clicked position).2) (source : intent.source? = some target) :
    clicked = target := by
  rcases List.mem_append.mp mem with closing | own
  · split at closing
    · rw [List.mem_singleton.mp closing] at source
      exact absurd source (by simp [Intent.source?])
    · exact absurd closing List.not_mem_nil
  · cases clicked <;> simp_all [Target.clicked, Intent.source?]

variable [Scalar α] [PowTwo α]

private theorem press_of_source {event : Event α} {intent : Intent α} {target : Target}
    (mem : intent ∈ (p.handle regions event).2) (source : intent.source? = some target) :
    (∃ position, event = .up .primary position) ∧
      ∃ press, p.press? = some press ∧ press.target = target := by
  rcases p.handle_cases regions event with ⟨position, clicked, rfl, click, asked, _⟩ | ⟨moved, _⟩
  · rw [asked] at mem
    obtain ⟨press, held, same⟩ := press_of_clickedAt? click
    exact ⟨⟨position, rfl⟩, press, held, same.trans (source_of_click mem source)⟩
  · have window := moved intent mem
    cases intent <;> first
      | exact absurd window Bool.noConfusion
      | exact absurd source (by simp [Intent.source?])

end Pointer

variable [Scalar α]

/-- A target lies at a point of the screen. -/
def Scene.Shows (s : Scene α) (screen : Point α) : Target → Prop
  | .node id => ∃ n ∈ s.present, n.id = id ∧ n.bounds.contains (s.transform.invert screen) = true
  | .indicator id => ∃ n ∈ s.present, n.id = id ∧
      ∃ disc ∈ n.indicator? s.labelPadding, disc.contains (s.transform.invert screen) = true
  | .tooltip => ∃ t ∈ s.tooltip?, t.body.contains screen = true
  | .closeButton => ∃ t ∈ s.tooltip?, t.closeButton.contains screen = true
  | .background => True

omit [Scalar α] in
private theorem Regions.exists_of_last {β : Type} (areas : List (NodeId × β)) (inside : β → Bool)
    {id : NodeId} (h : (areas.reverse.find? fun a => inside a.2).map (·.1) = some id) :
    ∃ a ∈ areas, a.1 = id ∧ inside a.2 = true := by
  obtain ⟨a, last, same⟩ := Option.map_eq_some_iff.mp h
  exact ⟨a, List.mem_reverse.mp (List.mem_of_find?_eq_some last), same,
    by simpa using List.find?_some last⟩

private theorem Scene.shows_hit (s : Scene α) (screen : Point α) :
    s.Shows screen (s.regions.hit screen) := by
  rw [Regions.hit]
  cases found : s.regions.tooltip?.bind (·.hit? screen) with
  | some target =>
    obtain ⟨region, opened, part⟩ := Option.bind_eq_some_iff.mp found
    obtain ⟨t, shown, rfl⟩ := Option.map_eq_some_iff.mp opened
    unfold TooltipRegion.hit? at part
    split at part
    · next inside =>
      obtain rfl := Option.some.inj part
      exact ⟨t, shown, inside⟩
    · split at part
      · next inside =>
        obtain rfl := Option.some.inj part
        exact ⟨t, shown, inside⟩
      · exact absurd part (by simp)
  | none =>
    dsimp only
    rw [Regions.hitDrawing]
    cases disc : s.regions.discAt? (s.regions.transform.invert screen) with
    | some id =>
      obtain ⟨d, hd, rfl, inside⟩ := Regions.exists_of_last s.regions.discs
        (·.contains (s.regions.transform.invert screen)) disc
      obtain ⟨n, hn, shown⟩ := List.mem_filterMap.mp hd
      obtain ⟨area, known, rfl⟩ := Option.map_eq_some_iff.mp shown
      exact ⟨n, hn, rfl, area, known, inside⟩
    | none =>
      cases box : s.regions.boxAt? (s.regions.transform.invert screen) with
      | some id =>
        obtain ⟨b, hb, rfl, inside⟩ := Regions.exists_of_last s.regions.boxes
          (·.contains (s.regions.transform.invert screen)) box
        obtain ⟨n, hn, rfl⟩ := List.mem_map.mp hb
        exact ⟨n, hn, rfl, inside⟩
      | none => trivial

namespace View

variable {v : View σ α}

theorem exists_shows {now : Duration} {screen : Point α} {target : Target}
    {intent : Intent α} (hit : (v.regions now).hit screen = target)
    (source : intent.source? = some target) :
    ∃ m ∈ v.mount?, (v.sceneOf m now).Shows screen target := by
  unfold regions scene? at hit
  cases mounted : v.mount? with
  | none =>
    rw [mounted] at hit
    obtain rfl : Target.background = target := hit
    cases intent <;> exact absurd source (by simp [Intent.source?])
  | some m =>
    rw [mounted] at hit
    exact ⟨m, rfl, hit ▸ (v.sceneOf m now).shows_hit screen⟩

variable [PowTwo α]

theorem press?_obeyAll (v : View σ α) (now : Duration) (intents : List (Intent α)) :
    (intents.foldl (fun v intent => v.obey now intent) v).pointer.press? = v.pointer.press? := by
  induction intents generalizing v with
  | nil => rfl
  | cons intent intents ih =>
    rw [List.foldl_cons, ih, pointer_obey]
    cases intent <;> rfl

theorem press?_step (v : View σ α) {call : Call α} (quiet : ∀ event now, call ≠ .handle event now)
    (stays : call ≠ .detach) : (v.step call).pointer.press? = v.pointer.press? := by
  rw [pointer_step]
  cases call with
  | handle event now => exact absurd rfl (quiet event now)
  | detach => exact absurd rfl stays
  | _ => rfl

private theorem press_of_step {call : Call α} {press : Press α}
    (idle : v.isDetached = true → v.pointer.press? = none)
    (held : (v.step call).pointer.press? = some press) :
    (∃ now, call = .handle (.down .primary press.origin) now ∧ v.isDetached = false ∧
        (v.regions now).hit press.origin = press.target) ∨
      call.endsPress = false ∧ ∃ before, v.pointer.press? = some before ∧
        before.origin = press.origin ∧ before.target = press.target := by
  by_cases eventful : ∃ event now, call = .handle event now
  · obtain ⟨event, now, rfl⟩ := eventful
    cases detached : v.isDetached with
    | true =>
      rw [step, handle_of_detached detached, idle detached] at held
      exact absurd held (by simp)
    | false =>
      rw [step, handle_eq detached, obeying, press?_obeyAll] at held
      rcases Pointer.press_of_react held with ⟨position, rfl, rfl, hit⟩ | stays
      · exact Or.inl ⟨now, rfl, rfl, hit.symm⟩
      · exact Or.inr stays
  · have quiet : ∀ event now, call ≠ .handle event now := fun event now same =>
      eventful ⟨event, now, same⟩
    have stays : call ≠ .detach := by
      rintro rfl
      exact absurd held (by simp [step, detach, Pointer.detach])
    rw [v.press?_step quiet stays] at held
    refine Or.inr ⟨?_, press, held, rfl, rfl⟩
    cases call with
    | handle event now => exact absurd rfl (quiet event now)
    | detach => exact absurd rfl stays
    | _ => rfl

private theorem idle_of_step {call : Call α} (idle : v.isDetached = true → v.pointer.press? = none)
    (detached : (v.step call).isDetached = true) : (v.step call).pointer.press? = none := by
  by_cases stays : call = .detach
  · rw [stays]
    rfl
  · have before : v.isDetached = true := by
      by_contra attached
      have kept := isDetached_step (Bool.not_eq_true _ ▸ attached) stays
      exact absurd (kept.symm.trans detached) (by simp)
    by_cases eventful : ∃ event now, call = .handle event now
    · obtain ⟨event, now, rfl⟩ := eventful
      rw [step, handle_of_detached before]
      exact idle before
    · rw [v.press?_step (fun event now same => eventful ⟨event, now, same⟩) stays]
      exact idle before

/-- The press began with one of the calls, on what could be hit there, and no call since has ended
it. -/
def HoldsSince (start : View σ α) (calls : List (Call α)) (press : Press α) : Prop :=
  ∃ before now between, calls = before ++ .handle (.down .primary press.origin) now :: between ∧
    (start.run before).isDetached = false ∧
    ((start.run before).regions now).hit press.origin = press.target ∧
    ∀ call ∈ between, call.endsPress = false

theorem holdsSince_of_run {start : View σ α} (idle : start.pointer.press? = none)
    (calls : List (Call α)) :
    ((start.run calls).isDetached = true → (start.run calls).pointer.press? = none) ∧
      ∀ press, (start.run calls).pointer.press? = some press → start.HoldsSince calls press := by
  induction calls using List.reverseRecOn with
  | nil => exact ⟨fun _ => idle, fun press held => absurd (idle.symm.trans held) (by simp)⟩
  | append_singleton calls call ih =>
    obtain ⟨ihIdle, ihHeld⟩ := ih
    rw [run_concat]
    refine ⟨idle_of_step ihIdle, fun press held => ?_⟩
    rcases press_of_step ihIdle held with
      ⟨now, rfl, attached, hit⟩ | ⟨open', before, old, origin, target⟩
    · exact ⟨calls, now, [], rfl, attached, hit, fun _ mem => absurd mem List.not_mem_nil⟩
    · obtain ⟨earlier, now, between, rfl, attached, hit, kept⟩ := ihHeld before old
      rw [origin, target] at hit
      rw [origin]
      refine ⟨earlier, now, between ++ [call], by simp, attached, hit, fun other mem => ?_⟩
      rcases List.mem_append.mp mem with mem | mem
      · exact kept other mem
      · exact List.mem_singleton.mp mem ▸ open'

/-- Whenever an event asks for a node to be folded over or for its tooltip, it is a release, and the
press that it completes was made on the box of the node or on its indicator, in a frame of the tree
that was mounted then. Unless another tree was mounted since, that is the tree, as it was folded in
between, that is mounted when the intent is obeyed. -/
theorem pressed_of_handle (settings : Settings α) (metrics : Metrics σ α) (memory : σ)
    (calls : List (Call α)) {event : Event α} {now : Duration} {earlier later : List (Intent α)}
    {intent : Intent α} {target : Target} (source : intent.source? = some target)
    (asked : (((ofSettings settings metrics memory).run calls).handle event now).2 =
      earlier ++ intent :: later) :
    (∃ position, event = .up .primary position) ∧
    ∃ before position pressed between,
      calls = before ++ .handle (.down .primary position) pressed :: between ∧
      (∀ call ∈ between, call.endsPress = false) ∧
      ∃ m ∈ ((ofSettings settings metrics memory).run before).mount?,
        (((ofSettings settings metrics memory).run before).sceneOf m pressed).Shows position target ∧
        ((∀ call ∈ between, call.mounts = false) → ∃ requests,
          (((ofSettings settings metrics memory).run calls).obeying event now earlier).tree? =
            some (m.tree.complyAll requests)) := by
  -- The run starts without a press, which is all that matters of its start.
  have idle : (ofSettings settings metrics memory).pointer.press? = none := rfl
  generalize ofSettings settings metrics memory = start at *
  have attached : (start.run calls).isDetached = false := by
    by_contra detached
    rw [handle_of_detached (Bool.not_eq_false _ ▸ detached)] at asked
    simp at asked
  have mem : intent ∈ ((start.run calls).handle event now).2 := by simp [asked]
  rw [handle_eq attached] at mem
  obtain ⟨release, press, held, rfl⟩ := Pointer.press_of_source mem source
  obtain ⟨before, pressed, between, split, _, hit, kept⟩ :=
    (holdsSince_of_run idle calls).2 press held
  obtain ⟨m, hm, shown⟩ := exists_shows hit source
  refine ⟨release, before, press.origin, pressed, between, split, kept, m, hm, shown, fun stays => ?_⟩
  have handed : (start.run before).HandsOn ((start.run calls).obeying event now earlier) := by
    let since : List (Call α) := .handle (.down .primary press.origin) pressed :: between
    have stay : ∀ call ∈ since, call.mounts = false := List.forall_mem_cons.mpr ⟨rfl, stays⟩
    have run : start.run calls = (start.run before).run since := by rw [split, run_append]
    have kept := HandsOn.run (start.run before) stay
    rw [← run] at kept
    exact kept.trans (HandsOn.obeying _ event now earlier)
  obtain ⟨requests, same⟩ := handed
  have tree : (start.run before).tree? = some m.tree := by
    rw [tree?, Option.mem_def.mp hm]
    rfl
  rw [tree] at same
  exact ⟨requests, same⟩

theorem pressed_of_handle_indicated :
    ∃ (calls : List (Call Float)) (v : View Unit Float) (position : Point Float),
      v = (ofSettings Settings.standard (.fixed 8) ()).run calls ∧
      (v.handle (.up .primary ⟨101, 302⟩) (.ofMillis 1400)).2 = [.closeTooltip, .toggle 0] ∧
      ∃ before pressed between,
        calls = before ++ .handle (.down .primary position) pressed :: between ∧
        ∃ m ∈ ((ofSettings Settings.standard (.fixed 8) ()).run before).mount?,
          (((ofSettings Settings.standard (.fixed 8) ()).run before).sceneOf m pressed).Shows position
            (.node 0) := by
  let tree : Tree := .ofRecord { label := "root", comment := some "why", visible := [
    { label := "left", visible := [{ label := "leaf" }] }] }
  let calls : List (Call Float) := [.mount (some ⟨tree, .ofRecord _⟩) .zero,
    .handle (.down .primary ⟨144, 289⟩) (.ofMillis 1000),
    .handle (.up .primary ⟨144, 289⟩) (.ofMillis 1000),
    .handle (.down .primary ⟨100, 302⟩) (.ofMillis 1100), .fold .collapse 1,
    .sync (.ofMillis 1200), .resize ⟨800, 500⟩ (.ofMillis 1300)]
  let start : View Unit Float := ofSettings Settings.standard (.fixed 8) ()
  have asked : ((start.run calls).handle (.up .primary ⟨101, 302⟩) (.ofMillis 1400)).2 =
      [.closeTooltip] ++ .toggle 0 :: [] := by decide +kernel
  obtain ⟨_, before, position, pressed, between, split, _, m, hm, shown, _⟩ :=
    pressed_of_handle Settings.standard (.fixed 8) () calls rfl asked
  exact ⟨calls, start.run calls, position, rfl, asked, before, pressed, between, split, m, hm, shown⟩

/-- A press that was made on one tree folds a node of another that was mounted while the button was
down, though the node lies elsewhere. -/
theorem not_pressed_of_mount :
    ∃ (first second : { t : Tree // t.IsReachable }) (held v : View Unit Float),
      held = (ofSettings Settings.standard (.fixed 8) ()).run [.mount (some first) .zero,
        .handle (.down .primary ⟨190, 300⟩) (.ofMillis 1000)] ∧
      v = held.step (.mount (some second) (.ofMillis 1000)) ∧
      held.pointer.press?.map (·.target) = some (.node 1) ∧
      (v.regions (.ofMillis 2000)).hit ⟨190, 300⟩ = .node 3 ∧
      (v.handle (.up .primary ⟨190, 300⟩) (.ofMillis 2000)).2 = [.toggle 1] ∧
      (v.foldState? 1 (.ofMillis 2000) = some .expanded) ∧
      ((v.handle (.up .primary ⟨190, 300⟩) (.ofMillis 2000)).1.foldState? 1 (.ofMillis 2000) =
        some .collapsing) := by
  let first : Tree := .ofRecord { label := "root", visible := [
    { label := "left", visible := [{ label := "leaf" }] }] }
  let second : Tree := .ofRecord { label := "other", visible := [
    { label := "a", visible := [{ label := "x" }] }, { label := "b" }, { label := "c" }] }
  let start : View Unit Float := ofSettings Settings.standard (.fixed 8) ()
  let held := start.run [.mount (some ⟨first, .ofRecord _⟩) .zero,
    .handle (.down .primary ⟨190, 300⟩) (.ofMillis 1000)]
  exact ⟨⟨first, .ofRecord _⟩, ⟨second, .ofRecord _⟩, held, _, rfl, rfl, by decide +kernel,
    by decide +kernel, by decide +kernel, by decide +kernel, by decide +kernel⟩

end View

end TidyTree
