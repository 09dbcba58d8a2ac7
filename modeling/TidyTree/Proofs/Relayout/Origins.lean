import TidyTree.Proofs.Relayout.Partition

set_option autoImplicit false
set_option relaxedAutoImplicit false

/-!
# Where elements come from and go to

A node that comes grows out of the deepest of its ancestors that was drawn before, and one that goes
shrinks into the deepest that is drawn afterwards. The walk that looks for it goes up the layout that
draws the node, so it passes every ancestor, and it ends at the root at the latest, which every
layout of the tree draws. A link comes out of one point and goes into one, and it is the point of its
target.
-/

namespace TidyTree

variable {α : Type}

namespace Tree

variable {t : Tree} {i : NodeId}

private theorem IsAbove.of_isParent (numbered : t.root.IsNumbered i) {top parent child : NodeId}
    (h : t.IsAbove top child) (step : t.IsParent parent child) (other : top ≠ child) :
    t.IsAbove top parent := by
  obtain ⟨member, chain⟩ := h
  cases chain with
  | refl => exact absurd rfl other
  | @tail owner _ chain last =>
    have same : some owner = some parent :=
      (last.parent?_eq numbered).symm.trans (step.parent?_eq numbered)
    obtain rfl := Option.some.inj same
    exact ⟨member, chain⟩

end Tree

namespace Layout

/-- Of the nodes that the layout draws, the deepest one that is above a node, or the node itself. -/
structure IsNearest (l : Layout α) (t : Tree) (id top : NodeId) : Prop where
  drawn : top ∈ l.ids
  above : t.IsAbove top id
  deepest : ∀ a ∈ l.ids, t.IsAbove a id → t.IsAbove a top

/-- Of the nodes that the layout draws, the deepest one that is above a node, and not the node
itself. -/
structure IsNearestAbove (l : Layout α) (t : Tree) (id top : NodeId) : Prop
    extends l.IsNearest t id top where
  other : top ≠ id

variable {l other : Layout α} {t : Tree} {i : NodeId}

private theorem IsOf.root_mem (h : l.IsOf t.root) (drawn : l.boxes ≠ []) : t.root.id ∈ l.ids := by
  cases h with
  | nothing blank => exact absurd blank drawn
  | drawn shown shows agree =>
    have same : t.root.id = shown.id := congrArg Item.id agree.item_eq.symm
    rw [shows.ids_eq, same]
    obtain ⟨item, isShown, children⟩ := shown
    rw [Node.drawn, List.map_cons]
    exact List.mem_cons_self

private theorem IsOf.mem_nodes (h : l.IsOf t.root) {id : NodeId} (member : id ∈ l.ids) :
    id ∈ t.nodes.map Node.id := by
  cases h with
  | nothing blank =>
    rw [ids, blank] at member
    exact absurd member List.not_mem_nil
  | drawn shown shows agree =>
    rw [shows.ids_eq] at member
    have listed := ((Node.drawn_sublist shown).map Node.id).subset member
    have same : shown.preorder.map Node.id = t.root.preorder.map Node.id := by
      have items := congrArg (List.map Item.id) agree.map_item_preorder
      rw [List.map_map, List.map_map] at items
      exact items
    rw [Tree.nodes, ← same]
    exact listed

private theorem IsOf.exists_isParent (h : l.IsOf t.root) (numbered : t.root.IsNumbered i)
    {b : NodeBox α}
    (hb : b ∈ l.boxes) (below : b.id ≠ t.root.id) :
    ∃ parent, b.parent = some parent ∧ t.IsParent parent b.id := by
  have member : b.id ∈ t.nodes.map Node.id := h.mem_nodes (List.mem_map_of_mem hb)
  obtain ⟨parent, step⟩ := Tree.exists_isParent member below
  refine ⟨parent, ?_, step⟩
  rw [h.parent_eq numbered hb]
  exact step.parent?_eq numbered

private theorem IsNearest.of_isParent (numbered : t.root.IsNumbered i) {parent child top : NodeId}
    (h : l.IsNearest t parent top) (step : t.IsParent parent child) (absent : child ∉ l.ids) :
    l.IsNearest t child top where
  drawn := h.drawn
  above := h.above.tail step
  deepest := by
    intro a ha above
    have other : a ≠ child := fun same => absent (same ▸ ha)
    exact h.deepest a ha (above.of_isParent numbered step other)

private theorem IsNearest.isNearestAbove {id top : NodeId} {p : Point α} (h : l.IsNearest t id top)
    (place : l.position? top = some p) (absent : l.position? id = none) :
    l.IsNearestAbove t id top where
  toIsNearest := h
  other := by
    rintro rfl
    exact Option.some_ne_none p (place.symm.trans absent)

private theorem IsOf.exists_nearest [Scalar α] (hl : l.IsOf t.root) (ho : other.IsOf t.root)
    (numbered : t.root.IsNumbered i) (drawn : other.boxes ≠ []) {id : NodeId} (member : id ∈ l.ids) :
    ∃ top p, other.IsNearest t id top ∧ other.position? top = some p ∧
      l.nearest? other id = some p := by
  -- A parent has a smaller number than its child, so the induction climbs up to the root.
  induction id using Nat.strong_induction_on with
  | _ id ih =>
    rw [nearest?]
    cases here : other.position? id with
    | some p =>
      have there : id ∈ other.ids := by
        rw [← isSome_position?_iff, here, Option.isSome_some]
      have itself : t.IsAbove id id := ⟨hl.mem_nodes member, .refl⟩
      exact ⟨id, p, ⟨there, itself, fun a _ above => above⟩, here, rfl⟩
    | none =>
      have absent : id ∉ other.ids := by
        rw [← isSome_position?_iff, here]
        exact Bool.false_ne_true
      obtain ⟨b, hb, rfl⟩ := List.mem_map.mp member
      have below : b.id ≠ t.root.id := by
        intro same
        exact absent (same ▸ ho.root_mem drawn)
      obtain ⟨parent, owner, step⟩ := hl.exists_isParent numbered hb below
      have smaller : parent < b.id := step.lt numbered
      obtain ⟨top, p, near, place, walk⟩ :=
        ih parent smaller (hl.parent_mem numbered step member)
      refine ⟨top, p, near.of_isParent numbered step absent, place, ?_⟩
      rw [(hl.isProper numbered).get?_id hb, Option.bind_some, owner]
      dsimp only
      rw [if_pos smaller, walk]

private theorem IsOf.exists_nearest_parent [Scalar α] (hl : l.IsOf t.root) (ho : other.IsOf t.root)
    (numbered : t.root.IsNumbered i) (drawn : other.boxes ≠ []) {b : NodeBox α} (hb : b ∈ l.boxes)
    (absent : other.position? b.id = none) :
    ∃ top p, other.IsNearest t b.id top ∧ other.position? top = some p ∧
      b.parent.bind (l.nearest? other) = some p := by
  have gone : b.id ∉ other.ids := by
    rw [← isSome_position?_iff, absent]
    exact Bool.false_ne_true
  have below : b.id ≠ t.root.id := by
    intro same
    exact gone (same ▸ ho.root_mem drawn)
  obtain ⟨parent, owner, step⟩ := hl.exists_isParent numbered hb below
  have member := hl.parent_mem numbered step (List.mem_map_of_mem hb)
  obtain ⟨top, p, near, place, walk⟩ := hl.exists_nearest ho numbered drawn member
  exact ⟨top, p, near.of_isParent numbered step gone, place, by rw [owner, Option.bind_some, walk]⟩

private theorem IsProper.parent_of_target (h : l.IsProper) {link : Link} (hlink : link ∈ l.links)
    {b : NodeBox α} (hb : b ∈ l.boxes) (target : b.id = link.target) :
    b.parent = some link.source := by
  obtain ⟨b', hb', parent, same⟩ := mem_links.mp hlink
  have equal : b = b' := List.inj_on_of_nodup_map h.nodup hb hb' (target.trans same.symm)
  rw [equal, parent]

private theorem nearest?_eq_none [Scalar α] (blank : other.boxes = []) (id : NodeId) :
    l.nearest? other id = none := by
  induction id using Nat.strong_induction_on with
  | _ id ih =>
    have nowhere : other.position? id = none := by
      rw [position?, get?, blank]
      rfl
    rw [nearest?, nowhere]
    dsimp only
    cases (l.get? id).bind (·.parent) with
    | none => rfl
    | some parent =>
      dsimp only
      split
      · next smaller => exact ih parent smaller
      · rfl

end Layout

variable [Scalar α]

namespace Plan

variable {previous next : Layout α} {t : Tree} {scope : Scope} {i : NodeId}

/-- The plan has one transition for everything that either layout draws. What comes starts,
invisible, where the deepest of its ancestors that was drawn before was, and what goes ends,
invisible, where the deepest that is drawn afterwards is. A link comes out of the point of its
target and goes into it. -/
structure IsRooted (p : Plan α) (previous next : Layout α) (t : Tree) : Prop where
  nodes : IsPartition p.nodes previous.ids next.ids
  links : IsPartition p.links previous.links next.links
  nodesCome : ∀ tr ∈ p.nodes, tr.phase = .entering → ∃ top origin,
    previous.IsNearestAbove t tr.key top ∧ previous.position? top = some origin ∧
      tr.start = .hidden origin
  nodesGo : ∀ tr ∈ p.nodes, tr.phase = .exiting → ∃ top goal,
    next.IsNearestAbove t tr.key top ∧ next.position? top = some goal ∧ tr.finish = .hidden goal
  linksCome : ∀ tr ∈ p.links, tr.phase = .entering → ∃ target ∈ p.nodes,
    target.key = tr.key.target ∧ target.phase = .entering ∧
      tr.start = .gathered target.start.position
  linksGo : ∀ tr ∈ p.links, tr.phase = .exiting → ∃ target ∈ p.nodes,
    target.key = tr.key.target ∧ target.phase = .exiting ∧
      tr.finish = .gathered target.finish.position

/-- The plan has one transition for everything that the next layout draws and no other. All of it
comes in place: a node where it will be, a link where its source will be. -/
structure ComesInPlace (p : Plan α) (next : Layout α) : Prop where
  nodes : p.nodes.map (·.key) = next.ids
  links : p.links.map (·.key) = next.links
  nodesCome : ∀ tr ∈ p.nodes, tr.phase = .entering ∧ tr.start = .hidden tr.finish.position
  linksCome : ∀ tr ∈ p.links, tr.phase = .entering ∧ tr.start = .gathered tr.finish.source

/-- Some element of the plan comes or goes in place, because the walk finds no ancestor of it to
come from or go to. -/
def FallsBack (p : Plan α) (previous next : Layout α) : Prop :=
  (∃ tr ∈ p.nodes, tr.phase = .entering ∧ tr.start = .hidden tr.finish.position ∧
    ∃ b ∈ next.boxes, b.id = tr.key ∧ b.parent.bind (next.nearest? previous) = none) ∨
  (∃ tr ∈ p.nodes, tr.phase = .exiting ∧ tr.finish = .hidden tr.start.position ∧
    ∃ b ∈ previous.boxes, b.id = tr.key ∧ b.parent.bind (previous.nearest? next) = none) ∨
  (∃ tr ∈ p.links, tr.phase = .entering ∧ tr.start = .gathered tr.finish.source ∧
    next.nearest? previous tr.key.source = none) ∨
  ∃ tr ∈ p.links, tr.phase = .exiting ∧ tr.finish = .gathered tr.start.source ∧
    previous.nearest? next tr.key.source = none

private theorem exists_box_of_entering {tr : Transition NodeId (Spot α)}
    (h : tr ∈ (between previous next scope t).nodes) (entering : tr.phase = .entering) :
    ∃ b ∈ next.boxes, tr.key = b.id ∧ previous.position? b.id = none ∧
      tr.finish = .shown b.position ∧
      tr.start = .hidden ((b.parent.bind (next.nearest? previous)).getD tr.finish.position) := by
  rcases List.mem_append.mp h with h | h
  · obtain ⟨b, hb, rfl⟩ := List.mem_map.mp h
    refine ⟨b, hb, key_nodeTo b, ?_⟩
    unfold nodeTo at entering ⊢
    dsimp only at entering ⊢
    split
    · next position hposition => simp [hposition] at entering
    · next absent => exact ⟨absent, rfl, rfl⟩
  · obtain ⟨b, _, rfl⟩ := List.mem_map.mp h
    exact absurd entering (by simp [nodeFrom])

private theorem exists_box_of_exiting {tr : Transition NodeId (Spot α)}
    (h : tr ∈ (between previous next scope t).nodes) (exiting : tr.phase = .exiting) :
    ∃ b ∈ previous.boxes, tr.key = b.id ∧ next.position? b.id = none ∧
      tr.finish = .hidden ((b.parent.bind (previous.nearest? next)).getD tr.start.position) := by
  rcases List.mem_append.mp h with h | h
  · obtain ⟨b, _, rfl⟩ := List.mem_map.mp h
    unfold nodeTo at exiting
    dsimp only at exiting
    split at exiting <;> exact absurd exiting (by simp)
  · obtain ⟨b, hb, rfl⟩ := List.mem_map.mp h
    obtain ⟨hb, absent⟩ := List.mem_filter.mp hb
    refine ⟨b, hb, rfl, ?_, rfl⟩
    rw [← Option.not_isSome_iff_eq_none, Layout.isSome_position?_iff, ← Layout.contains_iff]
    simpa using absent

private theorem start_of_entering_link {tr : Transition Link (Strand α)}
    (h : tr ∈ (between previous next scope t).links) (entering : tr.phase = .entering) :
    tr.key ∈ next.links ∧
      tr.start = .gathered ((next.nearest? previous tr.key.source).getD tr.finish.source) := by
  rcases List.mem_append.mp h with h | h
  · obtain ⟨link, hlink, h⟩ := List.mem_filterMap.mp h
    obtain ⟨finish, _, rfl⟩ := Option.map_eq_some_iff.mp h
    rw [key_linkTo]
    refine ⟨hlink, ?_⟩
    unfold linkTo at entering ⊢
    dsimp only at entering ⊢
    split
    · next start hstart => simp [hstart] at entering
    · rfl
  · obtain ⟨link, _, h⟩ := List.mem_filterMap.mp h
    obtain ⟨start, _, rfl⟩ := Option.map_eq_some_iff.mp h
    exact absurd entering (by simp [linkFrom])

private theorem finish_of_exiting_link {tr : Transition Link (Strand α)}
    (h : tr ∈ (between previous next scope t).links) (exiting : tr.phase = .exiting) :
    tr.key ∈ previous.links ∧
      tr.finish = .gathered ((previous.nearest? next tr.key.source).getD tr.start.source) := by
  rcases List.mem_append.mp h with h | h
  · obtain ⟨link, _, h⟩ := List.mem_filterMap.mp h
    obtain ⟨finish, _, rfl⟩ := Option.map_eq_some_iff.mp h
    unfold linkTo at exiting
    dsimp only at exiting
    split at exiting <;> exact absurd exiting (by simp)
  · obtain ⟨link, hlink, h⟩ := List.mem_filterMap.mp h
    obtain ⟨start, _, rfl⟩ := Option.map_eq_some_iff.mp h
    exact ⟨List.mem_of_mem_filter hlink, rfl⟩

private theorem isRooted_of_drawn (numbered : t.root.IsNumbered i) (hp : previous.IsOf t.root)
    (hn : next.IsOf t.root) (before : previous.boxes ≠ []) (after : next.boxes ≠ [])
    (scope : Scope) : (between previous next scope t).IsRooted previous next t := by
  have nodesCome : ∀ b ∈ next.boxes, previous.position? b.id = none → ∃ top origin,
      previous.IsNearest t b.id top ∧ previous.position? top = some origin ∧
        b.parent.bind (next.nearest? previous) = some origin :=
    fun b hb absent => hn.exists_nearest_parent hp numbered before hb absent
  have nodesGo : ∀ b ∈ previous.boxes, next.position? b.id = none → ∃ top goal,
      next.IsNearest t b.id top ∧ next.position? top = some goal ∧
        b.parent.bind (previous.nearest? next) = some goal :=
    fun b hb absent => hp.exists_nearest_parent hn numbered after hb absent
  constructor
  case nodes => exact isPartition_nodes (hp.isProper numbered) (hn.isProper numbered) scope t
  case links => exact isPartition_links (hp.isProper numbered) (hn.isProper numbered) scope t
  case nodesCome =>
    intro tr htr entering
    obtain ⟨b, hb, key, absent, -, start⟩ := exists_box_of_entering htr entering
    obtain ⟨top, origin, near, place, walk⟩ := nodesCome b hb absent
    refine ⟨top, origin, key ▸ near.isNearestAbove place absent, place, ?_⟩
    rw [start, walk, Option.getD_some]
  case nodesGo =>
    intro tr htr exiting
    obtain ⟨b, hb, key, absent, finish⟩ := exists_box_of_exiting htr exiting
    obtain ⟨top, goal, near, place, walk⟩ := nodesGo b hb absent
    refine ⟨top, goal, key ▸ near.isNearestAbove place absent, place, ?_⟩
    rw [finish, walk, Option.getD_some]
  case linksCome =>
    intro tr htr entering
    obtain ⟨hlink, start⟩ := start_of_entering_link htr entering
    obtain ⟨target, htarget, ends, phase⟩ := exists_target numbered hp hn scope htr
    obtain ⟨b, hb, key, absent, -, origin⟩ := exists_box_of_entering htarget (phase.trans entering)
    have parent : b.parent = some tr.key.source :=
      (hn.isProper numbered).parent_of_target hlink hb (key.symm.trans ends)
    obtain ⟨_, p, _, _, walk⟩ := nodesCome b hb absent
    refine ⟨target, htarget, ends, phase.trans entering, ?_⟩
    rw [origin, walk, start]
    rw [parent, Option.bind_some] at walk
    rw [walk]
    rfl
  case linksGo =>
    intro tr htr exiting
    obtain ⟨hlink, finish⟩ := finish_of_exiting_link htr exiting
    obtain ⟨target, htarget, ends, phase⟩ := exists_target numbered hp hn scope htr
    obtain ⟨b, hb, key, absent, goal⟩ := exists_box_of_exiting htarget (phase.trans exiting)
    have parent : b.parent = some tr.key.source :=
      (hp.isProper numbered).parent_of_target hlink hb (key.symm.trans ends)
    obtain ⟨_, p, _, _, walk⟩ := nodesGo b hb absent
    refine ⟨target, htarget, ends, phase.trans exiting, ?_⟩
    rw [goal, walk, finish]
    rw [parent, Option.bind_some] at walk
    rw [walk]
    rfl

private theorem comesInPlace_of_blank (numbered : t.root.IsNumbered i) (hp : previous.IsOf t.root)
    (hn : next.IsOf t.root) (blank : previous.boxes = []) (scope : Scope) :
    (between previous next scope t).ComesInPlace next := by
  have nodes := isPartition_nodes (hp.isProper numbered) (hn.isProper numbered) scope t
  have links := isPartition_links (hp.isProper numbered) (hn.isProper numbered) scope t
  have noNodes : previous.ids = [] := by rw [Layout.ids, blank, List.map_nil]
  have noLinks : previous.links = [] := by
    rw [List.eq_nil_iff_forall_not_mem]
    intro link hlink
    obtain ⟨b, hb, -⟩ := Layout.mem_links.mp hlink
    exact absurd (blank ▸ hb) List.not_mem_nil
  have nowhere : ∀ id, next.nearest? previous id = none := Layout.nearest?_eq_none blank
  constructor
  case nodes => rw [nodes.keys, noNodes, List.filter_nil, List.append_nil]
  case links => rw [links.keys, noLinks, List.filter_nil, List.append_nil]
  case nodesCome =>
    intro tr htr
    have there := (nodes.mem_keys_iff tr.key).mp (List.mem_map_of_mem htr)
    rw [noNodes] at there
    have entering : tr.phase = .entering := by
      rw [nodes.entering tr htr, noNodes]
      exact ⟨List.not_mem_nil, there.resolve_left List.not_mem_nil⟩
    obtain ⟨b, -, -, -, -, start⟩ := exists_box_of_entering htr entering
    refine ⟨entering, ?_⟩
    rw [start]
    cases b.parent with
    | none => rfl
    | some parent => rw [Option.bind_some, nowhere, Option.getD_none]
  case linksCome =>
    intro tr htr
    have there := (links.mem_keys_iff tr.key).mp (List.mem_map_of_mem htr)
    rw [noLinks] at there
    have entering : tr.phase = .entering := by
      rw [links.entering tr htr, noLinks]
      exact ⟨List.not_mem_nil, there.resolve_left List.not_mem_nil⟩
    refine ⟨entering, ?_⟩
    rw [(start_of_entering_link htr entering).2, nowhere, Option.getD_none]

private theorem fallsBack_iff (numbered : t.root.IsNumbered i) (hp : previous.IsOf t.root)
    (hn : next.IsOf t.root) (after : next.boxes ≠ []) (scope : Scope) :
    (between previous next scope t).FallsBack previous next ↔ previous.boxes = [] := by
  constructor
  · intro falls
    by_contra before
    rcases falls with ⟨tr, htr, entering, -, b, hb, same, stuck⟩ |
      ⟨tr, htr, exiting, -, b, hb, same, stuck⟩ | ⟨tr, htr, entering, -, stuck⟩ |
      ⟨tr, htr, exiting, -, stuck⟩
    · obtain ⟨b', -, key, absent, -⟩ := exists_box_of_entering htr entering
      rw [← key, ← same] at absent
      obtain ⟨_, _, _, _, walk⟩ := hn.exists_nearest_parent hp numbered before hb absent
      exact absurd (stuck.symm.trans walk) (by simp)
    · obtain ⟨b', -, key, absent, -⟩ := exists_box_of_exiting htr exiting
      rw [← key, ← same] at absent
      obtain ⟨_, _, _, _, walk⟩ := hp.exists_nearest_parent hn numbered after hb absent
      exact absurd (stuck.symm.trans walk) (by simp)
    · have hlink := (start_of_entering_link htr entering).1
      have source : tr.key.source ∈ next.ids :=
        hn.parent_mem numbered (hn.isParent numbered hlink) (Refolds.target_mem_ids hlink)
      obtain ⟨_, _, _, _, walk⟩ := hn.exists_nearest hp numbered before source
      exact absurd (stuck.symm.trans walk) (by simp)
    · have hlink := (finish_of_exiting_link htr exiting).1
      have source : tr.key.source ∈ previous.ids :=
        hp.parent_mem numbered (hp.isParent numbered hlink) (Refolds.target_mem_ids hlink)
      obtain ⟨_, _, _, _, walk⟩ := hp.exists_nearest hn numbered after source
      exact absurd (stuck.symm.trans walk) (by simp)
  · intro blank
    have comes := comesInPlace_of_blank numbered hp hn blank scope
    obtain ⟨first, hfirst⟩ := List.exists_mem_of_ne_nil _ after
    have listed : first.id ∈ (between previous next scope t).nodes.map (·.key) :=
      comes.nodes ▸ List.mem_map_of_mem hfirst
    obtain ⟨tr, htr, -⟩ := List.mem_map.mp listed
    obtain ⟨entering, start⟩ := comes.nodesCome tr htr
    obtain ⟨b, hb, key, -⟩ := exists_box_of_entering htr entering
    refine Or.inl ⟨tr, htr, entering, start, b, hb, key.symm, ?_⟩
    cases b.parent with
    | none => rfl
    | some parent => exact Layout.nearest?_eq_none blank parent

/-- Between two layouts of a tree every element comes out of the deepest ancestor that was drawn
before and goes into the deepest that is drawn afterwards, links at the points of their targets. Only
where there is no previous layout does anything come in place, and then all of it does. -/
theorem isRooted_between (reachable : t.IsReachable) (hp : previous.IsOf t.root)
    (hn : next.IsOf t.root) (after : next.boxes ≠ []) (scope : Scope) :
    (previous.boxes ≠ [] → (between previous next scope t).IsRooted previous next t) ∧
      (previous.boxes = [] → (between previous next scope t).ComesInPlace next) ∧
      ((between previous next scope t).FallsBack previous next ↔ previous.boxes = []) := by
  have numbered := reachable.isNumbered
  refine ⟨?_, ?_, fallsBack_iff numbered hp hn after scope⟩
  · intro before
    exact isRooted_of_drawn numbered hp hn before after scope
  · intro blank
    exact comesInPlace_of_blank numbered hp hn blank scope

/-- When one branch is unfolded and another is folded, a node comes out of its grandparent. -/
theorem isRooted_between_of_folds :
    ∃ (t : Tree) (previous next : Layout Rat), t.IsReachable ∧ previous.IsOf t.root ∧
      next.IsOf t.root ∧ previous.ids = [0, 1, 4, 5, 6] ∧ next.ids = [0, 1, 2, 3, 4] ∧
        (between previous next (.subtree 1) t).IsRooted previous next t ∧
          ¬ (between previous next (.subtree 1) t).FallsBack previous next ∧
            ((between previous next (.subtree 1) t).node? 3).map (·.start) =
              (previous.position? 1).map .hidden := by
  let t : Tree := .ofRecord { label := "root", visible := [
    { label := "left", visible := [{ label := "upper", visible := [{ label := "deep" }] }] },
    { label := "right", visible := [{ label := "lower", visible := [{ label := "leaf" }] }] }] }
  have reachable : t.IsReachable := .ofRecord _
  let layout (id : NodeId) : Layout Rat :=
    (Layout.withColumns .standard (Metrics.fixed (8 : Rat)) 200 (t.folded .collapse id) ()).1
  have drawn (id : NodeId) : (layout id).IsOf t.root :=
    (Layout.isOf_withColumns _ _ _ _ _).refold (t.agreesOff_folded .collapse id).symm
  have before : (layout 1).ids = [0, 1, 4, 5, 6] := by decide +kernel
  have after : (layout 4).ids = [0, 1, 2, 3, 4] := by decide +kernel
  have shown : ∀ id, (layout id).ids ≠ [] → (layout id).boxes ≠ [] := by
    intro id listed blank
    exact listed (congrArg (List.map NodeBox.id) blank)
  obtain ⟨rooted, -, falls⟩ := isRooted_between reachable (drawn 1) (drawn 4)
    (shown 4 (by rw [after]; simp)) (.subtree 1)
  have nonempty : (layout 1).boxes ≠ [] := shown 1 (by rw [before]; simp)
  exact ⟨t, layout 1, layout 4, reachable, drawn 1, drawn 4, before, after, rooted nonempty,
    fun falling => nonempty (falls.mp falling), by decide +kernel⟩

end Plan

end TidyTree
