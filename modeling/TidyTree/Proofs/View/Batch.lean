import TidyTree.Proofs.View.Coherence
import TidyTree.Proofs.View.Redraw

set_option autoImplicit false
set_option relaxedAutoImplicit false

namespace TidyTree

/-- What comes or goes moves smoothly, and what jumps stays: a node that jumps lies outside of the
subtree of the deepest node above the changed ones, and a link that jumps has both ends outside. -/
structure Plan.Covers {α : Type} (p : Plan α) (t : Tree) (changed : List NodeId) : Prop where
  nodes : ∀ tr ∈ p.nodes, tr.phase ≠ .updating → tr.mode = .animated
  links : ∀ tr ∈ p.links, tr.phase ≠ .updating → tr.mode = .animated
  outside : ∃ top, t.IsDeepestAbove changed top ∧
    (∀ tr ∈ p.nodes, tr.mode = .immediate → tr.phase = .updating ∧ ¬ t.IsAbove top tr.key) ∧
    ∀ tr ∈ p.links, tr.mode = .immediate → tr.phase = .updating ∧
      ¬ t.IsAbove top tr.key.source ∧ ¬ t.IsAbove top tr.key.target

private theorem Mode.of_eq_immediate_iff (b : Bool) : Mode.of b = .immediate ↔ b = false := by
  cases b <;> simp [Mode.of]

variable {σ α : Type} [Scalar α]

private theorem Refolds.covers {previous next : Layout α} {before : Node} {t : Tree}
    {changed : List NodeId}
    (h : Refolds previous next before t changed) (nonempty : changed ≠ [])
    (members : ∀ id ∈ changed, id ∈ t.nodes.map Node.id) :
    (Plan.between previous next (.subtree (t.commonAncestor changed)) t).Covers t changed := by
  have jumps : ∀ {κ ν : Type} {tr : Transition κ ν},
      (tr.phase ≠ .updating → tr.mode = .animated) → tr.mode = .immediate →
        tr.phase = .updating := by
    intro κ ν tr smooth immediate
    by_contra other
    rw [smooth other] at immediate
    exact absurd immediate (by simp)
  have apart : ∀ id, t.isWithin (t.commonAncestor changed) id = false →
      ¬ t.IsAbove (t.commonAncestor changed) id := by
    intro id outside
    rw [← Tree.isWithin_iff_isAbove h.renumbered, outside]
    exact Bool.false_ne_true
  refine ⟨fun tr htr => h.animated_nodes htr, fun tr htr => h.animated_links htr, _,
    Tree.isDeepestAbove_commonAncestor h.renumbered nonempty members, ?_, ?_⟩
  · intro tr htr immediate
    have outside := Plan.mode_of_mem_nodes htr
    rw [immediate, eq_comm, Mode.of_eq_immediate_iff, Scope.includes_subtree] at outside
    exact ⟨jumps (h.animated_nodes htr) immediate, apart _ outside⟩
  · intro tr htr immediate
    have outside := Plan.mode_of_mem_links htr
    rw [immediate, eq_comm, Mode.of_eq_immediate_iff, Plan.includesLink, Bool.or_eq_false_iff,
      Scope.includes_subtree, Scope.includes_subtree] at outside
    exact ⟨jumps (h.animated_links htr) immediate, apart _ outside.1, apart _ outside.2⟩

structure Mount.IsSound (m : Mount α) (animation : Duration) : Prop where
  staged : m.IsStaged animation
  coherent : m.IsCoherent
  tracked : m.IsTracked

theorem Mount.IsSound.ofTree [Scalar.LawfulEq α] {t : Tree} (reachable : t.IsReachable)
    (settings : Settings α) (metrics : Metrics σ α) (now : Duration) (state : σ) :
    (Mount.ofTree t settings metrics now state).1.IsSound settings.animation where
  staged := .ofTree reachable settings metrics now state
  coherent := .ofTree reachable settings metrics now state
  tracked := .ofTree reachable settings metrics now state

theorem Mount.IsSound.step [Scalar.LawfulEq α] {m m' : Mount α} {settings : Settings α}
    {metrics : Metrics σ α} {now : Duration} {prompt : Prop} (h : m.IsSound settings.animation)
    (stepped : Mount.Step settings metrics now prompt m m') : m'.IsSound settings.animation where
  staged := h.staged.step stepped
  coherent := h.coherent.step h.staged stepped
  tracked := h.tracked.step h.staged.numbered stepped

private theorem Mount.IsTracked.covers_sync {m : Mount α} (tracked : m.IsTracked)
    (reachable : m.tree.IsReachable) (news : m.tree.feed ≠ []) (settings : Settings α)
    (metrics : Metrics σ α) (now : Duration) (state : σ) :
    (m.sync settings metrics now state).1.plan.Covers (m.sync settings metrics now state).1.tree
      (m.tree.feed.map (·.id)) := by
  obtain ⟨before, refolds⟩ :=
    tracked.refolds_sync reachable.isNumbered settings metrics now state
  have nonempty : m.tree.feed.map (·.id) ≠ [] := fun empty => news (List.map_eq_nil_iff.mp empty)
  exact refolds.covers nonempty reachable.feed_mem

namespace View

private theorem isSound_run [PowTwo α] [Scalar.LawfulEq α] (settings : Settings α)
    (metrics : Metrics σ α)
    (memory : σ) {earlier later : List (Call α)}
    (current : ((ofSettings settings metrics memory).run earlier).IsCurrent)
    (undrained : .drain ∉ later) :
    ∀ m ∈ ((ofSettings settings metrics memory).run (earlier ++ later)).mount?,
      m.IsSound settings.animation := by
  rw [run_append]
  refine mount_of_runFrom later ?_ (fun drain => absurd drain undrained) ?_
    (settings_run (ofSettings settings metrics memory) earlier)
    (metrics_run (ofSettings settings metrics memory) earlier) ?_
  · exact fun t reachable now state => .ofTree reachable settings metrics now state
  · exact fun now m m' sound stepped => sound.step stepped
  · intro m hm
    obtain ⟨staged, coherent⟩ := Mount.IsCoherent.of_run settings metrics memory earlier m hm
    exact ⟨staged, coherent, (current m hm).isTracked staged.numbered⟩

/-- When the changes since a current layout are drawn, all that comes or goes moves smoothly, and
only what stays outside of the subtree of the deepest node above the changed ones jumps: when a view
is synchronized with its tree, and when a node is folded over. -/
theorem covers_of_redraw [PowTwo α] [Scalar.LawfulEq α] (settings : Settings α)
    (metrics : Metrics σ α) (memory : σ) {earlier later : List (Call α)}
    (current : ((ofSettings settings metrics memory).run earlier).IsCurrent)
    (undrained : .drain ∉ later) (now : Duration) :
    (((ofSettings settings metrics memory).run (earlier ++ later)).hasNews = true →
      ∃ m ∈ ((ofSettings settings metrics memory).run (earlier ++ later)).mount?,
        ∃ m' ∈ (((ofSettings settings metrics memory).run (earlier ++ later)).sync now).mount?,
          m'.plan.Covers m'.tree (m.tree.feed.map (·.id))) ∧
    ∀ id state v',
      ((ofSettings settings metrics memory).run (earlier ++ later)).isDetached = false →
      ((ofSettings settings metrics memory).run (earlier ++ later)).toggle id now =
        .ok (state, v') → state ≠ .leaf →
      ∃ m ∈ ((ofSettings settings metrics memory).run (earlier ++ later)).mount?,
        ∃ m' ∈ v'.mount?, m'.plan.Covers m'.tree (m.tree.feed.map (·.id) ++ [id]) := by
  have reached := isSound_run settings metrics memory current undrained
  generalize (ofSettings settings metrics memory).run (earlier ++ later) = v at *
  constructor
  · intro news
    obtain ⟨m, hm, hm'⟩ := exists_sync news now
    obtain ⟨_, coherent, tracked⟩ := reached m hm
    exact ⟨m, hm, _, hm', tracked.covers_sync coherent.reachable (feed_of_hasNews news hm)
      v.settings v.metrics now _⟩
  · intro id state v' attached toggled children
    obtain ⟨m, hm, m', hm', folded, rfl, rfl⟩ := exists_toggle attached toggled children
    obtain ⟨_, coherent, tracked⟩ := reached m hm
    have feed := Tree.feed_of_toggle (fold_of_toggle attached toggled hm) children
    have covers := (tracked.fold .toggle id).covers_sync (coherent.reachable.folded .toggle id)
      (by simp [feed]) v.settings v.metrics now v.memory
    rw [feed, List.map_append] at covers
    exact ⟨m, hm, _, hm', covers⟩

theorem covers_of_redraw_of_folds :
    ∃ (v : View Unit Float) (m m' : Mount Float), m ∈ v.mount? ∧
      m' ∈ (v.sync (.ofMillis 1200)).mount? ∧ m.tree.feed.map (·.id) = [2, 4, 2] ∧
        m.tree.commonAncestor [2, 4, 2] = 1 ∧ m'.plan.animatedNodes = [1, 2, 3, 4, 5] ∧
          m'.plan.Covers m'.tree [2, 4, 2] := by
  let tree : Tree := .ofRecord { label := "root", visible := [
    { label := "left", visible := [{ label := "upper", visible := [{ label := "leaf" }] },
      { label := "lower", visible := [{ label := "leaf" }] }] },
    { label := "right" }] }
  let start : View Unit Float := ofSettings Settings.standard (Metrics.fixed 8) ()
  let forgotten : List (Call Float) := [.mount (some ⟨tree, .ofRecord _⟩) .zero,
    .fold .collapse 1, .drain, .fold .expand 1]
  let earlier := forgotten ++ [.sync (.ofMillis 1000)]
  let later : List (Call Float) := [.fold .collapse 2, .setTheme .dark (.ofMillis 1100),
    .fold .collapse 4, .fold .expand 2]
  have news : (start.run forgotten).hasNews = true := by decide +kernel
  have current : (start.run earlier).IsCurrent := by
    rw [run_concat]
    exact isCurrent_sync news _
  have undrained : Call.drain ∉ later := by simp [later]
  obtain ⟨m, hm, m', hm', covers⟩ := (covers_of_redraw Settings.standard
    (Metrics.fixed (8 : Float)) () current undrained (.ofMillis 1200)).1 (by decide +kernel)
  have feed : (start.run (earlier ++ later)).mount?.map (fun m => (m.tree.feed.map (·.id),
      m.tree.commonAncestor [2, 4, 2])) = some ([2, 4, 2], 1) := by decide +kernel
  have animated : ((start.run (earlier ++ later)).sync (.ofMillis 1200)).mount?.map
      (·.plan.animatedNodes) = some [1, 2, 3, 4, 5] := by decide +kernel
  rw [Option.mem_def.mp hm, Option.map_some, Option.some.injEq, Prod.mk.injEq] at feed
  rw [Option.mem_def.mp hm', Option.map_some, Option.some.injEq] at animated
  exact ⟨_, m, m', hm, hm', feed.1, feed.2, animated, feed.1 ▸ covers⟩

end View

end TidyTree
