import TidyTree.Proofs.View.Batch

set_option autoImplicit false
set_option relaxedAutoImplicit false

/-!
# A node does not leave before its children

As long as changes are drawn before anything else happens to them, every node that goes fades. The
clock goes on, so what is told to fade later leaves later, and a node that goes takes everything
below it along. So a node stays on stage at least as long as each of its children.
-/

namespace TidyTree

private theorem Duration.add_le_add_right {a b : Duration} (h : a ≤ b) (c : Duration) :
    a + c ≤ b + c := by
  show (a + c).nanos ≤ (b + c).nanos
  have nanos : a.nanos ≤ b.nanos := h
  rw [add_nanos, add_nanos]
  omega

private theorem StaysNoLonger.trans {a b c : Option Duration} (h : StaysNoLonger a b)
    (k : StaysNoLonger b c) : StaysNoLonger a c := by
  cases c with
  | none => cases a <;> trivial
  | some e =>
    cases b with
    | none => exact absurd k not_false
    | some d =>
      cases a with
      | none => exact absurd h not_false
      | some x => exact Nat.le_trans h k

private theorem StaysNoLonger.all_lt {a b : Option Duration} (h : StaysNoLonger a b)
    {now : Duration}
    (stays : a.all (now < ·) = true) : b.all (now < ·) = true := by
  cases b with
  | none => rfl
  | some e =>
    cases a with
    | none => exact absurd h not_false
    | some d =>
      have early : now.nanos < d.nanos := of_decide_eq_true stays
      have later : d.nanos ≤ e.nanos := h
      exact decide_eq_true (Nat.lt_of_lt_of_le early later)

variable {σ α : Type}

namespace Mount

variable {m : Mount α} {animation clock now : Duration}

/-- A node on stage has its parent there for at least as long, and what has left the layout is due
no later than what would leave it now. -/
structure IsSheltered (m : Mount α) (animation clock : Duration) : Prop where
  parents : ∀ parent child, m.tree.IsParent parent child → ∀ d, m.nodes.stay? child = some d →
    ∃ e, m.nodes.stay? parent = some e ∧ StaysNoLonger d e
  leaving : ∀ id, id ∉ m.layout.ids → ∀ d, m.nodes.stay? id = some d →
    StaysNoLonger d (some (clock + animation))

namespace IsSheltered

private theorem later (h : m.IsSheltered animation clock) (passed : clock ≤ now) :
    m.IsSheltered animation now where
  parents := h.parents
  leaving id gone d stays :=
    (h.leaving id gone d stays).trans (Duration.add_le_add_right passed animation)

private theorem fold (h : m.IsSheltered animation clock) (numbered : m.tree.root.IsNumbered 0)
    (how : Fold)
    (id : NodeId) : IsSheltered { m with tree := m.tree.folded how id } animation clock where
  parents parent child step :=
    h.parents parent child ((Tree.isParent_folded numbered how id).mp step)
  leaving := h.leaving

private theorem advance (h : m.IsSheltered animation clock) (time : Duration) :
    (m.advance time).IsSheltered animation clock where
  parents := by
    intro parent child step d stays
    have stays : (m.nodes.tick time).stay? child = some d := stays
    rw [Stage.stay?_tick, Option.filter_eq_some_iff] at stays
    obtain ⟨e, held, order⟩ := h.parents parent child step d stays.1
    refine ⟨e, ?_, order⟩
    show (m.nodes.tick time).stay? parent = some e
    rw [Stage.stay?_tick, held, Option.filter_some_pos (order.all_lt stays.2)]
  leaving := by
    intro id gone d stays
    have stays : (m.nodes.tick time).stay? id = some d := stays
    rw [Stage.stay?_tick, Option.filter_eq_some_iff] at stays
    exact h.leaving id gone d stays.1

private theorem beginSpan (h : m.IsSheltered animation clock) (settings : Settings α)
    (scope : Scope)
    (now : Duration) : (m.beginSpan settings scope now).IsSheltered animation clock :=
  ⟨h.parents, h.leaving⟩

private theorem takeChanges (h : m.IsSheltered animation clock) (settings : Settings α)
    (now : Duration) : (m.takeChanges settings now).IsSheltered animation clock :=
  ⟨h.parents, h.leaving⟩

variable [Scalar α] {settings : Settings α}

private theorem bare (t : Tree) (columnWidth : α) (animation clock : Duration) :
    (Mount.bare t columnWidth).IsSheltered animation clock where
  parents _ child _ _ stays := absurd ((Stage.stay?_empty child).symm.trans stays) (by simp)
  leaving id _ _ stays := absurd ((Stage.stay?_empty id).symm.trans stays) (by simp)

private theorem stay?_adopt (staged : m.IsStaged settings.animation) {next : Layout α}
    (proper : next.IsProper) (scope : Scope) (now : Duration)
    (smooth : ∀ tr ∈ (Plan.between m.layout next scope m.tree).nodes,
      tr.phase = .exiting → tr.mode = .animated) (id : NodeId) :
    (id ∈ next.ids ∧ (m.adopt settings next scope now).nodes.stay? id = some none) ∨
    (id ∉ next.ids ∧ id ∈ m.layout.ids ∧ (m.adopt settings next scope now).nodes.stay? id =
      some (some (now + settings.animation))) ∨
    (id ∉ next.ids ∧ id ∉ m.layout.ids ∧
      (m.adopt settings next scope now).nodes.stay? id = m.nodes.stay? id) := by
  let timing : Timing α := ⟨settings.animation, .cubicInOut, now⟩
  have nodes := Plan.leadsTo_nodes staged.proper proper scope m.tree
  have keys := Plan.isPartition_nodes staged.proper proper scope m.tree
  by_cases member : id ∈ (Plan.between m.layout next scope m.tree).nodes.map (·.key)
  · obtain ⟨tr, htr, rfl⟩ := List.mem_map.mp member
    have stays : (m.adopt settings next scope now).nodes.stay? tr.key = tr.stay timing :=
      Stage.Presents.stay?_applyAll staged.nodes nodes htr
    by_cases there : tr.key ∈ next.ids
    · have settled := Transition.stay_of_after (nodes.fits tr htr) timing
        ((Layout.isSome_spot?_iff _).mpr there)
      exact Or.inl ⟨there, stays.trans settled⟩
    · have settled := Transition.stay_of_gone (nodes.fits tr htr) timing (smooth tr htr)
        ((Layout.spot?_eq_none_iff _).mpr there)
      have before := ((keys.mem_keys_iff _).mp member).resolve_right there
      exact Or.inr (Or.inl ⟨there, before, stays.trans settled⟩)
  · have stays : (m.adopt settings next scope now).nodes.stay? id = m.nodes.stay? id :=
      Stage.stay?_applyAll_of_not_mem timing member
    rw [keys.mem_keys_iff, not_or] at member
    exact Or.inr (Or.inr ⟨member.2, member.1, stays⟩)

private theorem adopt (h : m.IsSheltered settings.animation now)
    (staged : m.IsStaged settings.animation)
    (coherent : m.IsCoherent) {next : Layout α} (drawn : next.IsOf m.tree.root) (scope : Scope)
    (smooth : ∀ tr ∈ (Plan.between m.layout next scope m.tree).nodes,
      tr.phase = .exiting → tr.mode = .animated) :
    (m.adopt settings next scope now).IsSheltered settings.animation now := by
  have numbered := staged.numbered
  have proper := drawn.isProper numbered
  have fate := stay?_adopt staged proper scope now smooth
  constructor
  case parents =>
    intro parent child step d stays
    have next := drawn.parent_mem numbered step
    have previous := coherent.drawn.parent_mem numbered step
    rcases fate parent with ⟨_, fateParent⟩ | ⟨gone, _, fateParent⟩ | ⟨gone, never, fateParent⟩
    · refine ⟨none, fateParent, ?_⟩
      cases d <;> trivial
    · -- The parent has begun to fade, so the child fades with it or has begun to do so before.
      refine ⟨_, fateParent, ?_⟩
      rcases fate child with ⟨here, _⟩ | ⟨_, _, fateChild⟩ | ⟨_, before, fateChild⟩
      · exact absurd (next here) gone
      · rw [fateChild, Option.some.injEq] at stays
        exact stays ▸ StaysNoLonger.refl _
      · exact h.leaving child before d (fateChild.symm.trans stays)
    · rcases fate child with ⟨here, _⟩ | ⟨_, before, _⟩ | ⟨_, _, fateChild⟩
      · exact absurd (next here) gone
      · exact absurd (previous before) never
      · rw [fateParent]
        exact h.parents parent child step d (fateChild.symm.trans stays)
  case leaving =>
    intro id gone d stays
    rcases fate id with ⟨here, _⟩ | ⟨_, _, fateNode⟩ | ⟨_, before, fateNode⟩
    · exact absurd here gone
    · rw [fateNode, Option.some.injEq] at stays
      exact stays ▸ StaysNoLonger.refl _
    · exact h.leaving id before d (fateNode.symm.trans stays)

variable {metrics : Metrics σ α}

private theorem relayout (h : m.IsSheltered settings.animation now)
    (sound : m.IsSound settings.animation)
    (metrics : Metrics σ α) (state : σ) (told : m.tree.feed = []) :
    (m.relayout settings metrics .nothing now state).1.IsSheltered settings.animation now := by
  have drawn := Layout.isOf_withColumns settings.sizing metrics m.columnWidth m.tree state
  obtain ⟨staged, coherent, before, shows, _, agree⟩ := sound
  refine h.adopt staged coherent drawn .nothing fun tr htr exiting => ?_
  have same : before = m.tree.root := by
    rw [told] at agree
    exact agree.eq_of_nowhere fun id => List.not_mem_nil
  have ids : m.layout.ids =
      (Layout.withColumns settings.sizing metrics m.columnWidth m.tree state).1.ids := by
    rw [shows.ids_eq, same,
      (Layout.shows_withColumns settings.sizing metrics m.columnWidth m.tree state).ids_eq]
  have proper := drawn.isProper staged.numbered
  have gone := ((Plan.isPartition_nodes staged.proper proper .nothing m.tree).exiting tr htr).mp
    exiting
  exact absurd (ids ▸ gone.1) gone.2

private theorem sync (h : m.IsSheltered settings.animation now)
    (sound : m.IsSound settings.animation)
    (metrics : Metrics σ α) (state : σ) :
    (m.sync settings metrics now state).1.IsSheltered settings.animation now := by
  obtain ⟨staged, coherent, tracked⟩ := sound
  obtain ⟨before, refolds⟩ := tracked.refolds_sync staged.numbered settings metrics now state
  have taken := (h.takeChanges settings now).beginSpan settings m.changeScope now
  refine taken.adopt ((staged.takeChanges now).beginSpan m.changeScope now)
    ((coherent.takeChanges settings now).beginSpan settings m.changeScope now)
    (Layout.isOf_withColumns settings.sizing metrics m.columnWidth m.tree.drained state)
    m.changeScope fun tr htr exiting => ?_
  exact refolds.animated_nodes htr (by simp [exiting])

private theorem step (h : m.IsSheltered settings.animation now)
    (sound : m.IsSound settings.animation)
    {m' : Mount α} (stepped : Mount.Step settings metrics now True m m') :
    m'.IsSheltered settings.animation now := by
  cases stepped with
  | relayout state told => exact h.relayout sound metrics state (told trivial)
  | sync state _ => exact h.sync sound metrics state
  | fold how id => exact h.fold sound.staged.numbered how id
  | expire => exact ⟨h.parents, h.leaving⟩
  | advance => exact h.advance now

private theorem ofTree {t : Tree} (reachable : t.IsReachable) (settings : Settings α)
    (metrics : Metrics σ α) (now : Duration) (state : σ) :
    (Mount.ofTree t settings metrics now state).1.IsSheltered settings.animation now := by
  have start : ∀ (width : α) (state : σ), ((Mount.bare t width).transition settings metrics
      .everything now state).1.IsSheltered settings.animation now := by
    intro width state
    have staged := (IsStaged.bare reachable width settings.animation).beginSpan .everything now
    have coherent := (IsCoherent.bare reachable width).beginSpan settings .everything now
    have sheltered := (bare t width settings.animation now).beginSpan settings .everything now
    exact sheltered.adopt staged coherent
      (Layout.isOf_withColumns settings.sizing metrics width t.drained state) .everything
      fun tr htr _ => Plan.mode_of_mem_nodes htr
  exact start _ _

/-- In every prompt run on a clock that goes on, nodes stay at least as long as their children. -/
theorem of_promptRun [PowTwo α] [Scalar.LawfulEq α] (settings : Settings α) (metrics : Metrics σ α)
    (memory : σ) {calls : List (Call α)} (ordered : Call.AreOrdered calls)
    (prompt : (View.ofSettings settings metrics memory).RunsPromptly calls) :
    ∀ m ∈ ((View.ofSettings settings metrics memory).run calls).mount?,
      ∃ clock, m.IsSheltered settings.animation clock := by
  have invariant : ∀ m ∈ ((View.ofSettings settings metrics memory).run calls).mount?,
      ∃ clock, m.IsSound settings.animation ∧ m.IsSheltered settings.animation clock := by
    refine View.mount_of_promptRun ?_ ?_ ?_ memory ordered prompt
    · exact fun clock now m passed h => ⟨h.1, h.2.later passed⟩
    · exact fun t reachable now state => ⟨.ofTree reachable settings metrics now state,
        ofTree reachable settings metrics now state⟩
    · exact fun now m m' h stepped => ⟨h.1.step stepped, h.2.step h.1 stepped⟩
  intro m hm
  obtain ⟨clock, _, sheltered⟩ := invariant m hm
  exact ⟨clock, sheltered⟩

end IsSheltered

end Mount

end TidyTree
