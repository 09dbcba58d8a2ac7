import TidyTree.Proofs.Layout.Boxes
import TidyTree.Proofs.Outline.Paths

set_option autoImplicit false
set_option relaxedAutoImplicit false

namespace TidyTree

namespace Node

mutual

/-- The same nodes, which show the same except for some numbers. -/
def AgreesOff (P : NodeId → Prop) : Node → Node → Prop
  | mk item shown children, mk item' shown' children' =>
    item = item' ∧ (shown = shown' ∨ P item.id) ∧ AgreeOff P children children'

def AgreeOff (P : NodeId → Prop) : List Node → List Node → Prop
  | [], [] => True
  | n :: ns, m :: ms => n.AgreesOff P m ∧ AgreeOff P ns ms
  | _, _ => False

end

variable {P Q : NodeId → Prop}

mutual

theorem AgreesOff.refl (P : NodeId → Prop) : ∀ n : Node, n.AgreesOff P n
  | mk _ _ children => ⟨rfl, Or.inl rfl, AgreeOff.refl P children⟩

private theorem AgreeOff.refl (P : NodeId → Prop) : ∀ ns : List Node, AgreeOff P ns ns
  | [] => trivial
  | n :: ns => ⟨AgreesOff.refl P n, AgreeOff.refl P ns⟩

end

mutual

theorem AgreesOff.symm : ∀ {n m : Node}, n.AgreesOff P m → m.AgreesOff P n
  | mk _ _ _, mk _ _ _, ⟨same, shown, children⟩ =>
    ⟨same.symm, shown.imp Eq.symm fun h => same ▸ h, AgreeOff.symm children⟩

private theorem AgreeOff.symm : ∀ {ns ms : List Node}, AgreeOff P ns ms → AgreeOff P ms ns
  | [], [], _ => trivial
  | _ :: _, _ :: _, ⟨first, rest⟩ => ⟨AgreesOff.symm first, AgreeOff.symm rest⟩

end

mutual

theorem AgreesOff.trans : ∀ {n m k : Node}, n.AgreesOff P m → m.AgreesOff Q k →
    n.AgreesOff (fun id => P id ∨ Q id) k
  | mk _ _ _, mk _ _ _, mk _ _ _, ⟨same, shown, children⟩, ⟨same', shown', children'⟩ => by
    subst same same'
    refine ⟨rfl, ?_, AgreeOff.trans children children'⟩
    rcases shown with rfl | here
    · exact shown'.imp_right Or.inr
    · exact Or.inr (Or.inl here)

private theorem AgreeOff.trans : ∀ {ns ms ks : List Node}, AgreeOff P ns ms → AgreeOff Q ms ks →
    AgreeOff (fun id => P id ∨ Q id) ns ks
  | [], [], [], _, _ => trivial
  | _ :: _, _ :: _, _ :: _, ⟨first, rest⟩, ⟨first', rest'⟩ =>
    ⟨AgreesOff.trans first first', AgreeOff.trans rest rest'⟩

end

mutual

theorem AgreesOff.mono (h : ∀ id, P id → Q id) : ∀ {n m : Node}, n.AgreesOff P m → n.AgreesOff Q m
  | mk _ _ _, mk _ _ _, ⟨same, shown, children⟩ =>
    ⟨same, shown.imp_right (h _), AgreeOff.mono h children⟩

private theorem AgreeOff.mono (h : ∀ id, P id → Q id) :
    ∀ {ns ms : List Node}, AgreeOff P ns ms → AgreeOff Q ns ms
  | [], [], _ => trivial
  | _ :: _, _ :: _, ⟨first, rest⟩ => ⟨AgreesOff.mono h first, AgreeOff.mono h rest⟩

end

private theorem agreesOff_withState (n : Node) (state : BranchState) :
    n.AgreesOff (· = n.id) (n.withState state) := by
  obtain ⟨item, shown, children⟩ := n
  cases children with
  | nil => cases state <;> exact AgreesOff.refl _ _
  | cons c cs =>
    cases state with
    | leaf => exact AgreesOff.refl _ _
    | expanded => exact ⟨rfl, Or.inr rfl, AgreeOff.refl _ _⟩
    | collapsed => exact ⟨rfl, Or.inr rfl, AgreeOff.refl _ _⟩

mutual

theorem agreesOff_setState (id : NodeId) (state : BranchState) :
    ∀ n : Node, n.AgreesOff (· = id) (n.setState id state)
  | mk item shown children => by
    rw [setState]
    split
    · next here => exact here ▸ agreesOff_withState (mk item shown children) state
    · exact ⟨rfl, Or.inl rfl, agreeOff_setStateAny id state children⟩

private theorem agreeOff_setStateAny (id : NodeId) (state : BranchState) :
    ∀ ns : List Node, AgreeOff (· = id) ns (setStateAny id state ns)
  | [] => trivial
  | n :: ns => by
    rw [setStateAny]
    split
    · exact ⟨agreesOff_setState id state n, AgreeOff.refl _ ns⟩
    · exact ⟨AgreesOff.refl _ n, agreeOff_setStateAny id state ns⟩

end

theorem AgreesOff.item_eq : ∀ {n m : Node}, n.AgreesOff P m → n.item = m.item
  | mk _ _ _, mk _ _ _, h => h.1

private theorem AgreesOff.owns_eq {n m : Node} (h : n.AgreesOff P m) (id : NodeId) :
    n.owns id = m.owns id := by
  rw [owns, owns, h.item_eq]

mutual

theorem AgreesOff.map_item_preorder : ∀ {n m : Node}, n.AgreesOff P m →
    n.preorder.map item = m.preorder.map item
  | mk _ _ _, mk _ _ _, ⟨same, _, children⟩ => by
    rw [preorder, preorder, List.map_cons, List.map_cons, AgreeOff.map_item_preorderAll children]
    exact congrArg (· :: _) same

private theorem AgreeOff.map_item_preorderAll : ∀ {ns ms : List Node}, AgreeOff P ns ms →
    (preorderAll ns).map item = (preorderAll ms).map item
  | [], [], _ => rfl
  | _ :: _, _ :: _, ⟨first, rest⟩ => by
    rw [preorderAll, preorderAll, List.map_append, List.map_append,
      AgreesOff.map_item_preorder first, AgreeOff.map_item_preorderAll rest]

end

mutual

private theorem AgreesOff.trail_eq (id : NodeId) : ∀ {n m : Node}, n.AgreesOff P m →
    n.trail id = m.trail id
  | mk _ _ _, mk _ _ _, ⟨same, _, children⟩ => by
    rw [trail, trail, same, AgreeOff.trailAny_eq id children]

private theorem AgreeOff.trailAny_eq (id : NodeId) : ∀ {ns ms : List Node}, AgreeOff P ns ms →
    trailAny id ns = trailAny id ms
  | [], [], _ => rfl
  | _ :: _, _ :: _, ⟨first, rest⟩ => by
    rw [trailAny, trailAny, first.owns_eq, AgreesOff.trail_eq id first,
      AgreeOff.trailAny_eq id rest]

end

theorem AgreesOff.path?_eq {n m : Node} (h : n.AgreesOff P m) (id : NodeId) :
    n.path? id = m.path? id := by
  rw [path?, path?, h.owns_eq, h.trail_eq]

private theorem AgreesOff.span_eq {n m : Node} (h : n.AgreesOff P m) : n.span = m.span :=
  congrArg Item.span h.item_eq

private theorem AgreeOff.totalSpan_eq : ∀ {ns ms : List Node}, AgreeOff P ns ms →
    totalSpan ns = totalSpan ms
  | [], [], _ => rfl
  | _ :: _, _ :: _, ⟨first, rest⟩ => by
    rw [totalSpan, totalSpan, first.span_eq, AgreeOff.totalSpan_eq rest]

mutual

theorem AgreesOff.isNumbered {i : NodeId} : ∀ {n m : Node}, n.AgreesOff P m →
    n.IsNumbered i → m.IsNumbered i
  | mk _ _ _, mk _ _ _, ⟨same, _, children⟩, ⟨start, span, numbered⟩ => by
    subst same
    refine ⟨start, ?_, AgreeOff.areNumbered children numbered⟩
    rw [span, children.totalSpan_eq]

private theorem AgreeOff.areNumbered {i : NodeId} : ∀ {ns ms : List Node}, AgreeOff P ns ms →
    AreNumbered i ns → AreNumbered i ms
  | [], [], _, _ => trivial
  | _ :: _, _ :: _, ⟨first, rest⟩, ⟨numbered, others⟩ =>
    ⟨first.isNumbered numbered, first.span_eq ▸ AgreeOff.areNumbered rest others⟩

end

mutual

theorem AgreesOff.eq_of_nowhere (nowhere : ∀ id, ¬ P id) : ∀ {n m : Node}, n.AgreesOff P m → n = m
  | mk _ _ _, mk _ _ _, ⟨same, shown, children⟩ => by
    rw [same, shown.resolve_right (nowhere _), AgreeOff.eq_of_nowhere nowhere children]

private theorem AgreeOff.eq_of_nowhere (nowhere : ∀ id, ¬ P id) :
    ∀ {ns ms : List Node}, AgreeOff P ns ms → ns = ms
  | [], [], _ => rfl
  | _ :: _, _ :: _, ⟨first, rest⟩ => by
    rw [AgreesOff.eq_of_nowhere nowhere first, AgreeOff.eq_of_nowhere nowhere rest]

end

mutual

theorem AgreesOff.exists_owner {i id : NodeId} : ∀ {n m : Node}, n.AgreesOff P m →
    n.IsNumbered i → id ∈ n.drawn.map Node.id → id ∉ m.drawn.map Node.id →
      ∃ x ∈ m.preorder, P x.id ∧ x.owns id = true
  | mk item shown children, mk item' shown' children', h, numbered, hn, hm => by
    have owned : (mk item shown children).owns id = true := by
      rw [numbered.owns_iff]
      exact List.map_subset Node.id (drawn_sublist _).subset hn
    rw [h.owns_eq] at owned
    obtain ⟨rfl, shows, children⟩ := h
    rw [drawn, List.map_cons, List.mem_cons, not_or] at hm
    rw [drawn, List.map_cons, List.mem_cons] at hn
    have below := hn.resolve_left hm.1
    cases shown with
    | false => exact absurd below List.not_mem_nil
    | true =>
      cases shown' with
      | false => exact ⟨_, List.mem_cons_self, shows.resolve_left (by simp), owned⟩
      | true =>
        obtain ⟨x, hx, both⟩ := AgreeOff.exists_owner children numbered.2.2 below hm.2
        exact ⟨x, List.mem_cons_of_mem _ hx, both⟩

private theorem AgreeOff.exists_owner {i id : NodeId} : ∀ {ns ms : List Node}, AgreeOff P ns ms →
    AreNumbered i ns → id ∈ (drawnAll ns).map Node.id → id ∉ (drawnAll ms).map Node.id →
      ∃ x ∈ preorderAll ms, P x.id ∧ x.owns id = true
  | [], [], _, _, hn, _ => absurd hn List.not_mem_nil
  | n :: ns, m :: ms, ⟨first, rest⟩, ⟨numbered, others⟩, hn, hm => by
    rw [drawnAll, List.map_append, List.mem_append] at hn
    rw [drawnAll, List.map_append, List.mem_append, not_or] at hm
    rcases hn with hn | hn
    · obtain ⟨x, hx, both⟩ := AgreesOff.exists_owner first numbered hn hm.1
      exact ⟨x, List.mem_append_left _ hx, both⟩
    · obtain ⟨x, hx, both⟩ := AgreeOff.exists_owner rest others hn hm.2
      exact ⟨x, List.mem_append_right _ hx, both⟩

end

private theorem id_mem_of_mem_visits {v : Visit} {parent : Option NodeId} {depth siblingIndex : Nat}
    {n : Node} (h : v ∈ (n.visits parent depth siblingIndex).preorder) :
    v.item.id ∈ n.preorder.map Node.id := by
  have member : v.item ∈ n.drawn.map item := by
    rw [← map_item_visits parent depth siblingIndex n]
    exact List.mem_map_of_mem h
  obtain ⟨x, hx, same⟩ := List.mem_map.mp member
  exact same ▸ List.mem_map_of_mem (n.drawn_sublist.subset hx)

mutual

private theorem IsNumbered.parent_eq {i : NodeId} {v : Visit} {parent : Option NodeId}
    {depth siblingIndex : Nat} : ∀ {n : Node}, n.IsNumbered i →
      v ∈ (n.visits parent depth siblingIndex).preorder →
      ∃ rest, n.trail v.item.id = some (n.id :: rest) ∧
        v.parent = ((n.id :: rest).dropLast.getLast?).or parent
  | mk item shown children, h, hv => by
    rw [trail]
    rw [visits, Rose.preorder, List.mem_cons] at hv
    rcases hv with rfl | hv
    · exact ⟨[], if_pos rfl, rfl⟩
    · cases shown with
      | false => exact absurd hv List.not_mem_nil
      | true =>
        obtain ⟨behind, first, rest, found, same⟩ := AreNumbered.parent_eq h.2.2 hv
        have other : item.id ≠ v.item.id := by
          have here := h.1
          lia
        refine ⟨first :: rest, by rw [if_neg other, found]; rfl, ?_⟩
        rw [same, id_mk, List.dropLast_cons_cons, List.getLast?_cons]
        cases (first :: rest).dropLast.getLast? <;> rfl

private theorem AreNumbered.parent_eq {i : NodeId} {v : Visit} {parent : Option NodeId}
    {depth siblingIndex : Nat} : ∀ {ns : List Node}, AreNumbered i ns →
      v ∈ Rose.preorderAll (visitsAll parent depth siblingIndex ns) →
      i ≤ v.item.id ∧ ∃ first rest, trailAny v.item.id ns = some (first :: rest) ∧
        v.parent = ((first :: rest).dropLast.getLast?).or parent
  | [], _, hv => absurd hv List.not_mem_nil
  | n :: ns, h, hv => by
    rw [trailAny]
    rw [visitsAll, Rose.preorderAll, List.mem_append] at hv
    rcases hv with hv | hv
    · have owned : n.owns v.item.id = true := (h.1.owns_iff _).mpr (id_mem_of_mem_visits hv)
      obtain ⟨rest, found, same⟩ := IsNumbered.parent_eq h.1 hv
      have start := id_mem_of_mem_visits hv
      rw [h.1.map_id_preorder, List.mem_range'_1] at start
      exact ⟨start.1, n.id, rest, (if_pos owned).trans found, same⟩
    · obtain ⟨behind, first, rest, found, same⟩ := AreNumbered.parent_eq h.2 hv
      have outside : ¬ n.owns v.item.id = true := by
        rw [h.1.owns_iff, h.1.map_id_preorder, List.mem_range'_1]
        lia
      exact ⟨Nat.le_trans (Nat.le_add_right _ _) behind, first, rest,
        (if_neg outside).trans found, same⟩

end

mutual

theorem AgreesOff.visits_inj {xs ys : List Visit} {parent : Option NodeId}
    {depth siblingIndex : Nat} : ∀ {n m : Node}, n.AgreesOff P m →
      (n.visits parent depth siblingIndex).preorder ++ xs =
        (m.visits parent depth siblingIndex).preorder ++ ys →
      n.visits parent depth siblingIndex = m.visits parent depth siblingIndex ∧ xs = ys
  | mk item shown [], mk item' shown' [], ⟨same, _, _⟩, h => by
    subst same
    have nothing : ∀ shown : Bool, (mk item shown []).visits parent depth siblingIndex =
        .mk ⟨item, .leaf, parent, depth, siblingIndex⟩ [] := by
      intro shown
      cases shown <;> rfl
    rw [nothing, nothing] at h ⊢
    exact ⟨rfl, (List.cons.inj h).2⟩
  | mk item shown (c :: cs), mk item' shown' (d :: ds), ⟨same, _, children⟩, h => by
    subst same
    -- A node with children tells by its state whether it shows them.
    obtain ⟨visit, below⟩ := List.cons.inj h
    have state : (mk item shown (c :: cs)).state = (mk item shown' (d :: ds)).state :=
      congrArg Visit.state visit
    cases shown with
    | false =>
      cases shown' with
      | false => exact ⟨rfl, below⟩
      | true => exact absurd state (by simp [Node.state])
    | true =>
      cases shown' with
      | false => exact absurd state (by simp [Node.state])
      | true =>
        obtain ⟨rest, behind⟩ := AgreeOff.visitsAll_inj children below
        exact ⟨congrArg (Rose.mk _) rest, behind⟩

private theorem AgreeOff.visitsAll_inj {xs ys : List Visit} {parent : Option NodeId}
    {depth siblingIndex : Nat} : ∀ {ns ms : List Node}, AgreeOff P ns ms →
      Rose.preorderAll (visitsAll parent depth siblingIndex ns) ++ xs =
        Rose.preorderAll (visitsAll parent depth siblingIndex ms) ++ ys →
      visitsAll parent depth siblingIndex ns = visitsAll parent depth siblingIndex ms ∧ xs = ys
  | [], [], _, h => ⟨rfl, h⟩
  | n :: ns, m :: ms, ⟨first, rest⟩, h => by
    rw [visitsAll, visitsAll, Rose.preorderAll, Rose.preorderAll, List.append_assoc,
      List.append_assoc] at h
    obtain ⟨same, h⟩ := AgreesOff.visits_inj first h
    obtain ⟨others, h⟩ := AgreeOff.visitsAll_inj rest h
    refine ⟨?_, h⟩
    rw [visitsAll, visitsAll, same, others]

end
end Node

theorem Tree.agreesOff_folded (t : Tree) (how : Fold) (id : NodeId) :
    t.root.AgreesOff (fun _ => True) (t.folded how id).root := by
  rcases t.folded_cases how id with same | ⟨_, state, _, _, _, changed⟩
  · rw [same]
    exact .refl _ _
  · rw [changed]
    exact (Node.agreesOff_setState id state t.root).mono fun _ _ => trivial

namespace Layout

variable {α : Type} {l : Layout α} {root : Node} {i : NodeId}

theorem Shows.parent_eq (h : l.Shows root) (numbered : root.IsNumbered i) {b : NodeBox α}
    (hb : b ∈ l.boxes) : b.parent = (root.path? b.id).bind (·.dropLast.getLast?) := by
  have visit : b.visit ∈ root.visibleTree.preorder := h ▸ List.mem_map_of_mem hb
  have owned : root.owns b.id = true :=
    (numbered.owns_iff _).mpr (Node.id_mem_of_mem_visits visit)
  obtain ⟨rest, found, same⟩ := numbered.parent_eq visit
  have path : root.path? b.id = some (root.id :: rest) := (if_pos owned).trans found
  rw [path, Option.bind_some]
  exact same.trans (Option.or_none)

/-- A node that two layouts of a tree draw has one parent in both, however the tree was folded. -/
theorem Shows.parent_congr {P : NodeId → Prop} {l' : Layout α} {root' : Node} (h : l.Shows root)
    (numbered : root.IsNumbered i) (h' : l'.Shows root') (numbered' : root'.IsNumbered i)
    (agree : root.AgreesOff P root') {b b' : NodeBox α} (hb : b ∈ l.boxes) (hb' : b' ∈ l'.boxes)
    (same : b.id = b'.id) : b.parent = b'.parent := by
  rw [h.parent_eq numbered hb, h'.parent_eq numbered' hb', same, agree.path?_eq]

end Layout

end TidyTree
