import TidyTree.Proofs.Outline.Ownership
import TidyTree.Proofs.Relayout.Cover
import TidyTree.Scalar.Exact

set_option autoImplicit false
set_option relaxedAutoImplicit false

namespace TidyTree

/-- The transitions between two lists of elements: one for each element of either, first those of
the next list in its order, then those of the previous list alone in its order, each in the phase
that tells in which of the two the element is. -/
structure IsPartition {κ ν : Type} [DecidableEq κ] (ts : List (Transition κ ν))
    (previous next : List κ) : Prop where
  keys : ts.map (·.key) = next ++ previous.filter (· ∉ next)
  unique : ∀ k, (∃! t, t ∈ ts ∧ t.key = k) ↔ k ∈ previous ∨ k ∈ next
  entering : ∀ t ∈ ts, t.phase = .entering ↔ t.key ∉ previous ∧ t.key ∈ next
  updating : ∀ t ∈ ts, t.phase = .updating ↔ t.key ∈ previous ∧ t.key ∈ next
  exiting : ∀ t ∈ ts, t.phase = .exiting ↔ t.key ∈ previous ∧ t.key ∉ next

/-- The scope reaches a node along the chain of owners. -/
def Scope.Reaches (s : Scope) (t : Tree) (id : NodeId) : Prop :=
  match s with
  | .nothing => False
  | .everything => True
  | .subtree top => t.IsAbove top id

/-- The layout draws nothing yet, or the nodes of a root in whatever states they were. -/
inductive Layout.IsOf {α : Type} (l : Layout α) (root : Node) : Prop where
  | nothing (blank : l.boxes = [])
  | drawn (shown : Node) (shows : l.Shows shown) (agree : shown.AgreesOff (fun _ => True) root)

/-- Each node and each link of two layouts has one transition, in the phase that tells which of them
draw it and in the mode that tells whether the scope reaches it or an end of it. A link comes, stays
and goes with its target. -/
structure Plan.IsExact {α : Type} (p : Plan α) (previous next : Layout α) (scope : Scope)
    (t : Tree) : Prop where
  nodes : IsPartition p.nodes previous.ids next.ids
  links : IsPartition p.links previous.links next.links
  nodeModes : ∀ tr ∈ p.nodes, tr.mode = .animated ↔ scope.Reaches t tr.key
  linkModes : ∀ tr ∈ p.links,
    tr.mode = .animated ↔ scope.Reaches t tr.key.source ∨ scope.Reaches t tr.key.target
  targets : ∀ tr ∈ p.links, ∃ target ∈ p.nodes,
    target.key = tr.key.target ∧ target.phase = tr.phase

private theorem Scope.includes_iff {t : Tree} {i : NodeId} (numbered : t.root.IsNumbered i)
    (s : Scope)
    (id : NodeId) : s.includes t id = true ↔ s.Reaches t id := by
  cases s with
  | nothing => exact ⟨fun h => absurd h Bool.false_ne_true, False.elim⟩
  | everything => exact ⟨fun _ => trivial, fun _ => rfl⟩
  | subtree top =>
    rw [includes_subtree]
    exact Tree.isWithin_iff_isAbove numbered top id

private theorem Mode.of_eq_animated_iff (b : Bool) : Mode.of b = .animated ↔ b = true := by
  cases b <;> simp [Mode.of]

namespace Layout

variable {α : Type} {l : Layout α} {root : Node} {i : NodeId}

theorem IsOf.isProper (h : l.IsOf root) (numbered : root.IsNumbered i) : l.IsProper := by
  cases h with
  | nothing blank =>
    have ids : l.ids = [] := by rw [ids, blank, List.map_nil]
    exact ⟨ids ▸ List.nodup_nil, fun b hb => absurd (blank ▸ hb) List.not_mem_nil⟩
  | drawn shown shows agree => exact shows.isProper (agree.symm.isNumbered numbered)

theorem IsOf.refold {P : NodeId → Prop} {root' : Node} (h : l.IsOf root)
    (agree : root.AgreesOff P root') : l.IsOf root' := by
  cases h with
  | nothing blank => exact .nothing blank
  | drawn shown shows before =>
    exact .drawn shown shows ((before.trans agree).mono fun _ _ => trivial)

section

variable {t : Tree}

theorem IsOf.parent_eq (h : l.IsOf t.root) (numbered : t.root.IsNumbered i) {b : NodeBox α}
    (hb : b ∈ l.boxes) : b.parent = t.parent? b.id := by
  cases h with
  | nothing blank => exact absurd (blank ▸ hb) List.not_mem_nil
  | drawn shown shows agree =>
    have parent := shows.parent_eq (agree.symm.isNumbered numbered) hb
    rw [agree.path?_eq] at parent
    exact parent

theorem IsOf.isParent (h : l.IsOf t.root) (numbered : t.root.IsNumbered i) {link : Link}
    (hlink : link ∈ l.links) : t.IsParent link.source link.target := by
  obtain ⟨b, hb, parent, same⟩ := mem_links.mp hlink
  rw [Tree.isParent_iff numbered, ← same, ← h.parent_eq numbered hb, parent]

theorem IsOf.mem_links_iff (h : l.IsOf t.root) (numbered : t.root.IsNumbered i)
    {parent child : NodeId} (step : t.IsParent parent child) :
    ⟨parent, child⟩ ∈ l.links ↔ child ∈ l.ids := by
  refine ⟨Refolds.target_mem_ids, fun member => ?_⟩
  obtain ⟨b, hb, rfl⟩ := List.mem_map.mp member
  have owner := h.parent_eq numbered hb
  rw [step.parent?_eq numbered] at owner
  exact mem_links.mpr ⟨b, hb, owner, rfl⟩

theorem IsOf.parent_mem (h : l.IsOf t.root) (numbered : t.root.IsNumbered i)
    {parent child : NodeId} (step : t.IsParent parent child) (member : child ∈ l.ids) :
    parent ∈ l.ids := by
  obtain ⟨b, hb, owner, _⟩ := mem_links.mp ((h.mem_links_iff numbered step).mpr member)
  exact (h.isProper numbered).parents b hb parent owner

end

theorem isOf_withColumns [Scalar α] {σ : Type} (s : Sizing α) (m : Metrics σ α) (columnWidth : α)
    (t : Tree) (state : σ) : (withColumns s m columnWidth t state).1.IsOf t.root :=
  .drawn t.root (shows_withColumns s m columnWidth t state) (.refl _ _)

end Layout

private theorem IsPartition.of_leadsTo {κ ν : Type} [DecidableEq κ] {ts : List (Transition κ ν)}
    {before after : κ → Option ν} {previous next : List κ} (leads : LeadsTo ts before after)
    (keys : ts.map (·.key) = next ++ previous.filter (· ∉ next))
    (hbefore : ∀ k, (before k).isSome ↔ k ∈ previous) (hafter : ∀ k, (after k).isSome ↔ k ∈ next) :
    IsPartition ts previous next := by
  have phases : ∀ t ∈ ts,
      (t.phase = .entering ∧ t.key ∉ previous ∧ t.key ∈ next) ∨
      (t.phase = .updating ∧ t.key ∈ previous ∧ t.key ∈ next) ∨
      (t.phase = .exiting ∧ t.key ∈ previous ∧ t.key ∉ next) := by
    intro t ht
    have fits := leads.fits t ht
    rw [← hbefore, ← hafter]
    unfold Transition.Fits at fits
    cases hphase : t.phase <;> rw [hphase] at fits <;> simp [fits.1, fits.2]
  refine ⟨keys, fun k => ⟨?_, ?_⟩, ?_, ?_, ?_⟩
  · rintro ⟨t, ⟨ht, rfl⟩, _⟩
    rcases phases t ht with ⟨_, _, there⟩ | ⟨_, there, _⟩ | ⟨_, there, _⟩
    · exact Or.inr there
    · exact Or.inl there
    · exact Or.inl there
  · intro there
    rw [← hbefore, ← hafter] at there
    obtain ⟨t, ht, rfl⟩ := List.mem_map.mp (leads.complete k there)
    exact ⟨t, ⟨ht, rfl⟩, fun u hu => List.inj_on_of_nodup_map leads.nodup hu.1 ht hu.2⟩
  all_goals
    intro t ht
    rcases phases t ht with ⟨phase, h⟩ | ⟨phase, h⟩ | ⟨phase, h⟩ <;> simp [phase, h]

theorem IsPartition.mem_keys_iff {κ ν : Type} [DecidableEq κ] {ts : List (Transition κ ν)}
    {previous next : List κ} (h : IsPartition ts previous next) (k : κ) :
    k ∈ ts.map (·.key) ↔ k ∈ previous ∨ k ∈ next := by
  rw [h.keys, List.mem_append, List.mem_filter, decide_eq_true_eq]
  tauto

private theorem IsPartition.phase_congr {κ ν κ' ν' : Type} [DecidableEq κ] [DecidableEq κ']
    {ts : List (Transition κ ν)} {us : List (Transition κ' ν')} {previous next : List κ}
    {previous' next' : List κ'} (h : IsPartition ts previous next)
    (h' : IsPartition us previous' next') {t : Transition κ ν} {u : Transition κ' ν'} (ht : t ∈ ts)
    (hu : u ∈ us) (before : t.key ∈ previous ↔ u.key ∈ previous')
    (after : t.key ∈ next ↔ u.key ∈ next') : t.phase = u.phase := by
  cases hphase : u.phase with
  | entering => rw [h.entering t ht, before, after, ← h'.entering u hu, hphase]
  | updating => rw [h.updating t ht, before, after, ← h'.updating u hu, hphase]
  | exiting => rw [h.exiting t ht, before, after, ← h'.exiting u hu, hphase]

namespace Plan

variable {α : Type} [Scalar α] {previous next : Layout α}

theorem isPartition_nodes (hp : previous.IsProper) (hn : next.IsProper) (scope : Scope) (t : Tree) :
    IsPartition (between previous next scope t).nodes previous.ids next.ids := by
  refine .of_leadsTo (leadsTo_nodes hp hn scope t) ?_ Layout.isSome_spot?_iff
    Layout.isSome_spot?_iff
  rw [keys_nodes]
  refine congrArg (next.ids ++ ·) (List.filter_congr fun id _ => ?_)
  by_cases there : id ∈ next.ids
  · simp [there, (Layout.contains_iff id).mpr there]
  · simp [there, Bool.eq_false_iff.mpr fun h => there ((Layout.contains_iff id).mp h)]

theorem isPartition_links (hp : previous.IsProper) (hn : next.IsProper) (scope : Scope) (t : Tree) :
    IsPartition (between previous next scope t).links previous.links next.links :=
  .of_leadsTo (leadsTo_links hp hn scope t) (keys_links hp hn scope t) hp.isSome_line?_iff
    hn.isSome_line?_iff

theorem includesLink_eq {t : Tree} {i : NodeId} (numbered : t.root.IsNumbered i) (scope : Scope)
    {parent child : NodeId} (step : t.IsParent parent child) :
    includesLink (scope.includes t) ⟨parent, child⟩ = scope.includes t child := by
  have below : scope.includes t parent = true → scope.includes t child = true := by
    rw [Scope.includes_iff numbered, Scope.includes_iff numbered]
    intro reached
    cases scope with
    | nothing => exact reached
    | everything => trivial
    | subtree top => exact reached.tail step
  rw [includesLink]
  cases hparent : scope.includes t parent with
  | false => rw [Bool.false_or]
  | true => rw [below hparent, Bool.or_true]

theorem exists_target {t : Tree} {i : NodeId} (numbered : t.root.IsNumbered i)
    (hp : previous.IsOf t.root) (hn : next.IsOf t.root) (scope : Scope)
    {tr : Transition Link (Strand α)} (htr : tr ∈ (between previous next scope t).links) :
    ∃ target ∈ (between previous next scope t).nodes,
      target.key = tr.key.target ∧ target.phase = tr.phase := by
  have nodes := isPartition_nodes (hp.isProper numbered) (hn.isProper numbered) scope t
  have links := isPartition_links (hp.isProper numbered) (hn.isProper numbered) scope t
  have either := (links.mem_keys_iff tr.key).mp (List.mem_map_of_mem htr)
  obtain ⟨target, ⟨htarget, same⟩, _⟩ := (nodes.unique tr.key.target).mpr
    (either.imp Refolds.target_mem_ids Refolds.target_mem_ids)
  have step : t.IsParent tr.key.source tr.key.target :=
    either.elim (hp.isParent numbered) (hn.isParent numbered)
  have before : target.key ∈ previous.ids ↔ tr.key ∈ previous.links := by
    rw [same, ← hp.mem_links_iff numbered step]
  have after : target.key ∈ next.ids ↔ tr.key ∈ next.links := by
    rw [same, ← hn.mem_links_iff numbered step]
  exact ⟨target, htarget, same, nodes.phase_congr links htarget htr before after⟩

/-- The plan between two layouts of a tree is exact in every scope. -/
theorem isExact_between {t : Tree} (reachable : t.IsReachable) (hp : previous.IsOf t.root)
    (hn : next.IsOf t.root) (scope : Scope) :
    (between previous next scope t).IsExact previous next scope t := by
  have numbered := reachable.isNumbered
  constructor
  case nodes => exact isPartition_nodes (hp.isProper numbered) (hn.isProper numbered) scope t
  case links => exact isPartition_links (hp.isProper numbered) (hn.isProper numbered) scope t
  case nodeModes =>
    intro tr htr
    rw [mode_of_mem_nodes htr, Mode.of_eq_animated_iff, Scope.includes_iff numbered]
  case linkModes =>
    intro tr htr
    rw [mode_of_mem_links htr, Mode.of_eq_animated_iff, includesLink, Bool.or_eq_true,
      Scope.includes_iff numbered, Scope.includes_iff numbered]
  case targets => exact fun tr htr => exists_target numbered hp hn scope htr

theorem isExact_between_of_fold :
    ∃ (t : Tree) (previous next : Layout Rat), t.IsReachable ∧ previous.IsOf t.root ∧
      next.IsOf t.root ∧ previous.ids = [0, 1, 4, 5] ∧ next.ids = [0, 1, 2, 3, 4] ∧
        (between previous next (.subtree 1) t).IsExact previous next (.subtree 1) t := by
  let t : Tree := .ofRecord { label := "root", visible := [
    { label := "left", visible := [{ label := "upper" }, { label := "lower" }] },
    { label := "right", visible := [{ label := "leaf" }] }] }
  have reachable : t.IsReachable := .ofRecord _
  let layout (id : NodeId) : Layout Rat :=
    (Layout.withColumns .standard (Metrics.fixed (8 : Rat)) 200 (t.folded .collapse id) ()).1
  have drawn (id : NodeId) : (layout id).IsOf t.root :=
    (Layout.isOf_withColumns _ _ _ _ _).refold (t.agreesOff_folded .collapse id).symm
  exact ⟨t, layout 1, layout 4, reachable, drawn 1, drawn 4, by decide +kernel, by decide +kernel,
    isExact_between reachable (drawn 1) (drawn 4) (.subtree 1)⟩

end Plan

end TidyTree
