import TidyTree.Proofs.Outline.Paths

set_option autoImplicit false
set_option relaxedAutoImplicit false

/-!
# The chain of owners

A node owns its children, shown or hidden, and through them everything below them. Comparing numbers
decides who is above whom, the way to a number goes from parent to child, and the deepest node above
several numbers is where the ways to them part.
-/

namespace TidyTree

namespace Tree

/-- The node of the first number has the node of the second as a child, shown or hidden. -/
def IsParent (t : Tree) (parent child : NodeId) : Prop :=
  ∃ x ∈ t.nodes, x.id = parent ∧ ∃ c ∈ x.children, c.id = child

/-- The first number is that of a node, and the second is that of the same node or of one below it
in the chain of owners. -/
def IsAbove (t : Tree) (top id : NodeId) : Prop :=
  top ∈ t.nodes.map Node.id ∧ Relation.ReflTransGen t.IsParent top id

/-- The node is above several numbers, and every other node that is so is above it. -/
def IsDeepestAbove (t : Tree) (ids : List NodeId) (top : NodeId) : Prop :=
  (∀ id ∈ ids, t.IsAbove top id) ∧ ∀ a, (∀ id ∈ ids, t.IsAbove a id) → t.IsAbove a top

end Tree

namespace Node

private theorem mem_preorder_of_mem_children {x c : Node} (h : c ∈ x.children) : c ∈ x.preorder
    := by
  obtain ⟨item, shown, children⟩ := x
  have below : c ∈ preorderAll children := by
    rw [preorderAll_eq_flatMap, List.mem_flatMap]
    exact ⟨c, h, c.mem_preorder_self⟩
  exact List.mem_cons_of_mem _ below

mutual

private theorem chain_of_mem_preorder {y : Node} : ∀ {x : Node}, y ∈ x.preorder →
    Relation.ReflTransGen (fun a b => b ∈ a.children) x y
  | mk item shown children, h => by
    rw [preorder, List.mem_cons] at h
    rcases h with rfl | h
    · exact .refl
    · obtain ⟨c, hc, chain⟩ := chain_of_mem_preorderAll h
      exact .head hc chain

private theorem chain_of_mem_preorderAll {y : Node} : ∀ {ns : List Node}, y ∈ preorderAll ns →
    ∃ c ∈ ns, Relation.ReflTransGen (fun a b => b ∈ a.children) c y
  | [], h => absurd h List.not_mem_nil
  | n :: ns, h => by
    rw [preorderAll, List.mem_append] at h
    rcases h with h | h
    · exact ⟨n, List.mem_cons_self, chain_of_mem_preorder h⟩
    · obtain ⟨c, hc, chain⟩ := chain_of_mem_preorderAll h
      exact ⟨c, List.mem_cons_of_mem _ hc, chain⟩

end

private theorem mem_preorder_iff {x y : Node} :
    y ∈ x.preorder ↔ Relation.ReflTransGen (fun a b => b ∈ a.children) x y := by
  refine ⟨chain_of_mem_preorder, fun chain => ?_⟩
  induction chain with
  | refl => exact x.mem_preorder_self
  | tail _ hc ih => exact preorder_subset ih (mem_preorder_of_mem_children hc)

private theorem IsNumbered.id_lt_of_mem_children {i : NodeId} {x c : Node} (h : x.IsNumbered i)
    (hc : c ∈ x.children) : x.id < c.id := by
  obtain ⟨item, shown, children⟩ := x
  have below : c ∈ preorderAll children := by
    rw [preorderAll_eq_flatMap, List.mem_flatMap]
    exact ⟨c, hc, c.mem_preorder_self⟩
  have behind := h.2.2.le_id below
  have start := h.1
  rw [id_mk]
  lia

theorem AreNumbered.not_owns {i : NodeId} {n x : Node} {ns : List Node}
    (h : AreNumbered i (n :: ns)) (hx : x ∈ preorderAll ns) : ¬ n.owns x.id = true := by
  have behind := h.2.le_id hx
  rw [h.1.owns_iff, h.1.map_id_preorder, List.mem_range'_1]
  lia

private theorem trail_self (n : Node) : n.trail n.id = some [n.id] := by
  obtain ⟨item, shown, children⟩ := n
  rw [trail, id_mk, if_pos rfl]

private theorem AreNumbered.trailAny_of_mem {i : NodeId} {c : Node} {ns : List Node}
    (h : AreNumbered i ns) (hc : c ∈ ns) : trailAny c.id ns = some [c.id] := by
  induction ns generalizing i with
  | nil => exact absurd hc List.not_mem_nil
  | cons n ns ih =>
    rw [trailAny]
    rcases List.mem_cons.mp hc with rfl | hc
    · rw [if_pos (h.1.owns_of_mem c.mem_preorder_self), trail_self]
    · have below : c ∈ preorderAll ns := by
        rw [preorderAll_eq_flatMap, List.mem_flatMap]
        exact ⟨c, hc, c.mem_preorder_self⟩
      rw [if_neg (h.not_owns below), ih h.2 hc]

mutual

private theorem IsNumbered.trail_child {i : NodeId} {x c : Node} (hc : c ∈ x.children) :
    ∀ {n : Node}, n.IsNumbered i → x ∈ n.preorder →
      ∃ way, n.trail x.id = some way ∧ n.trail c.id = some (way ++ [c.id])
  | mk item shown children, h, hx => by
    have deeper := (h.of_mem hx).id_lt_of_mem_children hc
    rw [preorder, List.mem_cons] at hx
    rcases hx with rfl | hx
    · have other : item.id ≠ c.id := Nat.ne_of_lt deeper
      refine ⟨[item.id], trail_self _, ?_⟩
      rw [trail, if_neg other, h.2.2.trailAny_of_mem hc, Option.map_some]
      rfl
    · have behind := h.2.2.le_id hx
      have start := h.1
      have otherParent : item.id ≠ x.id := by lia
      have otherChild : item.id ≠ c.id := by lia
      obtain ⟨way, parent, child⟩ := AreNumbered.trailAny_child hc h.2.2 hx
      refine ⟨item.id :: way, ?_, ?_⟩
      · rw [trail, if_neg otherParent, parent, Option.map_some]
      · rw [trail, if_neg otherChild, child, Option.map_some, List.cons_append]

private theorem AreNumbered.trailAny_child {i : NodeId} {x c : Node} (hc : c ∈ x.children) :
    ∀ {ns : List Node}, AreNumbered i ns → x ∈ preorderAll ns →
      ∃ way, trailAny x.id ns = some way ∧ trailAny c.id ns = some (way ++ [c.id])
  | [], _, hx => absurd hx List.not_mem_nil
  | n :: ns, h, hx => by
    rw [preorderAll, List.mem_append] at hx
    rw [trailAny, trailAny]
    rcases hx with hx | hx
    · have child := preorder_subset hx (mem_preorder_of_mem_children hc)
      rw [if_pos (h.1.owns_of_mem hx), if_pos (h.1.owns_of_mem child)]
      exact IsNumbered.trail_child hc h.1 hx
    · have child := preorder_subsetAll hx (mem_preorder_of_mem_children hc)
      rw [if_neg (h.not_owns hx), if_neg (h.not_owns child)]
      exact AreNumbered.trailAny_child hc h.2 hx

end

end Node

namespace Tree

variable {t : Tree} {i : NodeId}

theorem IsParent.lt (numbered : t.root.IsNumbered i) {parent child : NodeId}
    (h : t.IsParent parent child) : parent < child := by
  obtain ⟨x, hx, rfl, c, hc, rfl⟩ := h
  exact (numbered.of_mem hx).id_lt_of_mem_children hc

theorem IsParent.path?_eq (numbered : t.root.IsNumbered i) {parent child : NodeId}
    (h : t.IsParent parent child) :
    ∃ way, t.path? parent = some way ∧ t.path? child = some (way ++ [child]) := by
  obtain ⟨x, hx, rfl, c, hc, rfl⟩ := h
  have member := Node.preorder_subset hx (Node.mem_preorder_of_mem_children hc)
  obtain ⟨way, there, further⟩ := numbered.trail_child hc hx
  refine ⟨way, ?_, ?_⟩
  · rw [path?, Node.path?, if_pos (numbered.owns_of_mem hx), there]
  · rw [path?, Node.path?, if_pos (numbered.owns_of_mem member), further]

theorem mem_of_path? (numbered : t.root.IsNumbered i) {id : NodeId} {way : List NodeId}
    (h : t.path? id = some way) : id ∈ t.nodes.map Node.id := by
  rw [nodes, ← numbered.owns_iff]
  by_contra outside
  rw [path?, Node.path?, if_neg outside] at h
  exact absurd h (by simp)

theorem getLast?_of_path? (numbered : t.root.IsNumbered i) {id : NodeId} {way : List NodeId}
    (h : t.path? id = some way) : way.getLast? = some id := by
  have member := mem_of_path? numbered h
  have owned := (numbered.owns_iff id).mpr member
  obtain ⟨rest, found, ends, _⟩ := numbered.trail_eq_some member
  rw [path?, Node.path?, if_pos owned, found] at h
  obtain rfl := Option.some.inj h
  exact ends

/-- The parent that a node is found with is the one that has it as a child. -/
theorem IsParent.parent?_eq (numbered : t.root.IsNumbered i) {parent child : NodeId}
    (h : t.IsParent parent child) : t.parent? child = some parent := by
  obtain ⟨way, there, further⟩ := h.path?_eq numbered
  rw [parent?, further, Option.bind_some, List.dropLast_concat, getLast?_of_path? numbered there]

private theorem exists_of_isAbove (numbered : t.root.IsNumbered i) {top id : NodeId} {x : Node}
    (hx : x ∈ t.nodes) (same : x.id = top) (h : Relation.ReflTransGen t.IsParent top id) :
    ∃ y ∈ x.preorder, y.id = id := by
  induction h with
  | refl => exact ⟨x, x.mem_preorder_self, same⟩
  | tail _ step ih =>
    obtain ⟨y, hy, rfl⟩ := ih
    obtain ⟨z, hz, samez, c, hc, rfl⟩ := step
    obtain rfl := numbered.eq_of_id_eq hz (Node.preorder_subset hx hy) samez
    exact ⟨c, Node.preorder_subset hy (Node.mem_preorder_of_mem_children hc), rfl⟩

private theorem chain_of_mem_preorder {x y : Node} (hx : x ∈ t.nodes) (hy : y ∈ x.preorder) :
    Relation.ReflTransGen t.IsParent x.id y.id := by
  have chain := Node.mem_preorder_iff.mp hy
  clear hy
  induction chain with
  | refl => exact .refl
  | @tail z c chain hc ih =>
    have member : z ∈ t.nodes := Node.preorder_subset hx (Node.mem_preorder_iff.mpr chain)
    exact ih.tail ⟨z, member, rfl, c, hc, rfl⟩

private theorem isAbove_iff (numbered : t.root.IsNumbered i) {top id : NodeId} :
    t.IsAbove top id ↔ ∃ x ∈ t.nodes, x.id = top ∧ x.owns id = true := by
  constructor
  · rintro ⟨member, chain⟩
    obtain ⟨x, hx, same⟩ := List.mem_map.mp member
    obtain ⟨y, hy, rfl⟩ := exists_of_isAbove numbered hx same chain
    exact ⟨x, hx, same, (numbered.of_mem hx).owns_of_mem hy⟩
  · rintro ⟨x, hx, rfl, owned⟩
    obtain ⟨y, hy, rfl⟩ := List.mem_map.mp (((numbered.of_mem hx).owns_iff id).mp owned)
    exact ⟨List.mem_map_of_mem hx, chain_of_mem_preorder hx hy⟩

theorem isWithin_iff_isAbove (numbered : t.root.IsNumbered i) (top id : NodeId) :
    t.isWithin top id = true ↔ t.IsAbove top id := by
  rw [isAbove_iff numbered, isWithin, Option.any_eq_true]
  constructor
  · rintro ⟨x, found, owned⟩
    obtain ⟨hx, same⟩ := numbered.find?_eq_some_iff.mp found
    exact ⟨x, hx, same, owned⟩
  · rintro ⟨x, hx, same, owned⟩
    exact ⟨x, numbered.find?_eq_some_iff.mpr ⟨hx, same⟩, owned⟩

theorem IsAbove.tail {top parent child : NodeId} (h : t.IsAbove top parent)
    (step : t.IsParent parent child) : t.IsAbove top child := ⟨h.1, h.2.tail step⟩

theorem IsAbove.path?_begins (numbered : t.root.IsNumbered i) {top id : NodeId}
    (h : t.IsAbove top id) :
    ∃ way rest, t.path? top = some way ∧ t.path? id = some (way ++ rest) := by
  obtain ⟨member, chain⟩ := h
  induction chain with
  | refl =>
    obtain ⟨rest, found, _⟩ := numbered.path?_eq_some member
    exact ⟨_, [], found, by rw [List.append_nil]; exact found⟩
  | @tail b c _ step ih =>
    obtain ⟨way, rest, there, further⟩ := ih
    obtain ⟨upTo, parent, child⟩ := step.path?_eq numbered
    obtain rfl : way ++ rest = upTo := Option.some.inj (further.symm.trans parent)
    exact ⟨way, rest ++ [c], there, by rw [child, List.append_assoc]⟩

private theorem prefix_take_shared {q p r : List NodeId} (hp : q <+: p) (hr : q <+: r) :
    q <+: p.take (shared p r) := by
  induction q generalizing p r with
  | nil => exact List.nil_prefix
  | cons a q ih =>
    obtain ⟨p, rfl⟩ := hp
    obtain ⟨r, rfl⟩ := hr
    have deeper : shared (a :: q ++ p) (a :: q ++ r) = shared (q ++ p) (q ++ r) + 1 := by
      simp [shared]
    rw [deeper, List.cons_append, List.take_succ_cons, List.cons_prefix_cons]
    exact ⟨rfl, ih (List.prefix_append q p) (List.prefix_append q r)⟩

private theorem prefix_foldl_shared {q : List NodeId} (ps : List (List NodeId)) {p : List NodeId}
    (hp : q <+: p) (hps : ∀ r ∈ ps, q <+: r) :
    q <+: ps.foldl (fun common r => common.take (shared common r)) p := by
  induction ps generalizing p with
  | nil => exact hp
  | cons r ps ih =>
    obtain ⟨hr, hps⟩ := List.forall_mem_cons.mp hps
    exact ih (prefix_take_shared hp hr) hps

theorem exists_isParent {id : NodeId} (member : id ∈ t.nodes.map Node.id) (other : id ≠ t.root.id) :
    ∃ parent, t.IsParent parent id := by
  obtain ⟨y, hy, rfl⟩ := List.mem_map.mp member
  cases Node.mem_preorder_iff.mp hy with
  | refl => exact absurd rfl other
  | @tail x _ chain hc => exact ⟨x.id, x, Node.mem_preorder_iff.mpr chain, rfl, y, hc, rfl⟩

theorem path?_root (t : Tree) (numbered : t.root.IsNumbered i) :
    t.path? t.root.id = some [t.root.id] := by
  rw [path?, Node.path?, if_pos (numbered.owns_of_mem t.root.mem_preorder_self), Node.trail_self]

theorem isParent_iff (numbered : t.root.IsNumbered i) {parent child : NodeId} :
    t.IsParent parent child ↔ t.parent? child = some parent := by
  refine ⟨fun h => h.parent?_eq numbered, fun found => ?_⟩
  obtain ⟨way, there, _⟩ := Option.bind_eq_some_iff.mp found
  have member := mem_of_path? numbered there
  have other : child ≠ t.root.id := by
    rintro rfl
    rw [parent?, path?_root t numbered] at found
    exact absurd found (by simp)
  obtain ⟨owner, step⟩ := exists_isParent member other
  obtain rfl : owner = parent := Option.some.inj ((step.parent?_eq numbered).symm.trans found)
  exact step

theorem isChain_path? (numbered : t.root.IsNumbered i) {id : NodeId} {way : List NodeId}
    (member : id ∈ t.nodes.map Node.id) (h : t.path? id = some way) : way.IsChain t.IsParent := by
  -- A parent has a smaller number than its child, so the induction climbs up to the root.
  induction id using Nat.strong_induction_on generalizing way with
  | _ id ih =>
    by_cases top : id = t.root.id
    · rw [top, path?_root t numbered] at h
      obtain rfl := Option.some.inj h
      exact List.isChain_singleton _
    · obtain ⟨parent, step⟩ := exists_isParent member top
      obtain ⟨upTo, there, further⟩ := step.path?_eq numbered
      obtain rfl : upTo ++ [id] = way := Option.some.inj (further.symm.trans h)
      have above : parent ∈ t.nodes.map Node.id := by
        obtain ⟨x, hx, same, _⟩ := step
        exact same ▸ List.mem_map_of_mem hx
      have chain := ih parent (step.lt numbered) above there
      refine List.isChain_append.mpr ⟨chain, List.isChain_singleton _, ?_⟩
      intro a ha b hb
      rw [getLast?_of_path? numbered there] at ha
      obtain rfl := Option.mem_some.mp ha
      obtain rfl := Option.mem_some.mp hb
      exact step

theorem isAbove_of_mem_path? (numbered : t.root.IsNumbered i) {id c : NodeId} {way : List NodeId}
    (member : id ∈ t.nodes.map Node.id) (h : t.path? id = some way) (hc : c ∈ way) :
    t.IsAbove c id := by
  obtain ⟨rest, found, met⟩ := numbered.path?_eq_some member
  obtain rfl : t.root.id :: rest = way := Option.some.inj (found.symm.trans h)
  exact (isAbove_iff numbered).mpr (met c hc)

private theorem IsAbove.of_chain {top : NodeId} {way : List NodeId} (chain : way.IsChain t.IsParent)
    (ends : way.getLast? = some top) (members : ∀ c ∈ way, c ∈ t.nodes.map Node.id) :
    ∀ c ∈ way, t.IsAbove c top := by
  have reach := chain.backwards_induction (fun c => Relation.ReflTransGen t.IsParent c top) way
    (fun _ _ step further => .head step further) (fun nonempty => by
      rw [List.getLast?_eq_getLast_of_ne_nil nonempty] at ends
      rw [Option.some.inj ends])
  exact fun c hc => ⟨members c hc, reach c hc⟩

private theorem exists_commonAncestor (numbered : t.root.IsNumbered i) {ids : List NodeId}
    (nonempty : ids ≠ []) (members : ∀ id ∈ ids, id ∈ t.nodes.map Node.id) :
    ∃ common : List NodeId, common.getLast? = some (t.commonAncestor ids) ∧
      (∀ id ∈ ids, ∀ way, t.path? id = some way → common <+: way) ∧
        ∀ q, (∀ id ∈ ids, ∀ way, t.path? id = some way → q <+: way) → q <+: common := by
  obtain ⟨first, hfirst⟩ := List.exists_mem_of_ne_nil ids nonempty
  obtain ⟨rest, found, _⟩ := numbered.path?_eq_some (members first hfirst)
  have path_mem : ∀ id ∈ ids, ∀ way, t.path? id = some way → way ∈ ids.filterMap t.path? :=
    fun id hid way hway => List.mem_filterMap.mpr ⟨id, hid, hway⟩
  have mem_path : ∀ way ∈ ids.filterMap t.path?, ∃ id ∈ ids, t.path? id = some way :=
    fun way hway => List.mem_filterMap.mp hway
  unfold commonAncestor
  cases hps : ids.filterMap t.path? with
  | nil => exact absurd (hps ▸ path_mem first hfirst _ found) List.not_mem_nil
  | cons p ps =>
    rw [hps] at path_mem mem_path
    -- Every way starts at the root, so what they share is not empty.
    have heads : ∀ q ∈ p :: ps, q.head? = some t.root.id := by
      intro q hq
      obtain ⟨_, _, hway⟩ := mem_path q hq
      exact Node.head?_of_path? hway
    obtain ⟨hp, hps⟩ := List.forall_mem_cons.mp heads
    obtain ⟨head, begins⟩ := foldl_shared ps hp hps
    refine ⟨_, ?_, fun id hid way hway => begins way (path_mem id hid way hway), ?_⟩
    · dsimp only
      cases hlast : (ps.foldl (fun common q => common.take (shared common q)) p).getLast? with
      | some last => rfl
      | none =>
        rw [List.getLast?_eq_none_iff.mp hlast] at head
        exact absurd head (by simp)
    · intro q hq
      have all : ∀ r ∈ p :: ps, q <+: r := by
        intro r hr
        obtain ⟨id, hid, hway⟩ := mem_path r hr
        exact hq id hid r hway
      exact prefix_foldl_shared ps (all p List.mem_cons_self)
        fun r hr => all r (List.mem_cons_of_mem _ hr)

/-- The node found to be above several numbers is the deepest that is so. -/
theorem isDeepestAbove_commonAncestor (numbered : t.root.IsNumbered i) {ids : List NodeId}
    (nonempty : ids ≠ []) (members : ∀ id ∈ ids, id ∈ t.nodes.map Node.id) :
    t.IsDeepestAbove ids (t.commonAncestor ids) := by
  obtain ⟨common, ends, begins, longest⟩ := exists_commonAncestor numbered nonempty members
  constructor
  · intro id hid
    obtain ⟨rest, found, _⟩ := numbered.path?_eq_some (members id hid)
    have met : t.commonAncestor ids ∈ t.root.id :: rest :=
      (begins id hid _ found).subset (List.mem_of_getLast? ends)
    exact isAbove_of_mem_path? numbered (members id hid) found met
  · intro a above
    obtain ⟨first, hfirst⟩ := List.exists_mem_of_ne_nil ids nonempty
    obtain ⟨rest, found, _⟩ := numbered.path?_eq_some (members first hfirst)
    obtain ⟨toA, _, there, _⟩ := (above first hfirst).path?_begins numbered
    -- The way to a node above all of the numbers begins each of their ways.
    have early : toA <+: common := by
      refine longest toA fun id hid way hway => ?_
      obtain ⟨toA', more, there', further⟩ := (above id hid).path?_begins numbered
      obtain rfl : toA = toA' := Option.some.inj (there.symm.trans there')
      obtain rfl : toA ++ more = way := Option.some.inj (further.symm.trans hway)
      exact List.prefix_append toA more
    obtain ⟨further, same⟩ := begins first hfirst _ found
    have chain : common.IsChain t.IsParent := by
      have whole := isChain_path? numbered (members first hfirst) found
      rw [← same] at whole
      exact whole.left_of_append
    have inTree : ∀ c ∈ common, c ∈ t.nodes.map Node.id := fun c hc =>
      (isAbove_of_mem_path? numbered (members first hfirst) found
        (same ▸ List.mem_append_left further hc)).1
    exact IsAbove.of_chain chain ends inTree a
      (early.subset (List.mem_of_getLast? (getLast?_of_path? numbered there)))

private theorem map_id_nodes_folded (numbered : t.root.IsNumbered i) (how : Fold) (id : NodeId) :
    (t.folded how id).nodes.map Node.id = t.nodes.map Node.id := by
  rcases t.folded_cases how id with same | ⟨_, state, _, _, _, changed⟩
  · rw [same]
  · have span : (t.root.setState id state).span = t.root.span := by
      rw [Node.span, Node.span, Node.item_setState]
    rw [changed, nodes, nodes, (numbered.setState id state).map_id_preorder,
      numbered.map_id_preorder, span]

theorem IsReachable.feed_mem (h : t.IsReachable) :
    ∀ id ∈ t.feed.map (·.id), id ∈ t.nodes.map Node.id := by
  induction h with
  | ofRecord r => exact fun id hid => absurd hid List.not_mem_nil
  | drained _ _ => exact fun id hid => absurd hid List.not_mem_nil
  | @folded t reached how j ih =>
    have numbered := reached.isNumbered
    intro id hid
    rw [map_id_nodes_folded numbered]
    rcases t.folded_cases how j with same | ⟨n, state, found, _, _, changed⟩
    · exact ih id (same ▸ hid)
    · rw [changed, List.map_append, List.mem_append] at hid
      rcases hid with hid | hid
      · exact ih id hid
      · obtain rfl := List.mem_singleton.mp hid
        obtain ⟨hn, same⟩ := numbered.find?_eq_some_iff.mp found
        exact same ▸ List.mem_map_of_mem hn

end Tree

end TidyTree
