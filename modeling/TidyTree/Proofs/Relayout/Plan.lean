import TidyTree.Proofs.Layout.Boxes
import TidyTree.Proofs.Motion.Presence
import TidyTree.Relayout.Plan

set_option autoImplicit false
set_option relaxedAutoImplicit false

namespace TidyTree

theorem map_filterMap_eq_self {β γ : Type} {l : List β} {f : β → Option γ} {g : γ → β}
    (h : ∀ x ∈ l, ∃ y, f x = some y ∧ g y = x) : (l.filterMap f).map g = l := by
  rw [List.map_filterMap]
  refine (List.filterMap_congr fun x hx => ?_).trans List.filterMap_some
  obtain ⟨y, hy, back⟩ := h x hx
  rw [hy, Option.map_some, back]

variable {α : Type} [Scalar α]

namespace Layout

/-- Where a node is drawn, fully visible. -/
def spot? (l : Layout α) (id : NodeId) : Option (Spot α) := (l.position? id).map .shown

/-- Where a link is drawn, fully visible; what is no link of the layout is not drawn. -/
def line? (l : Layout α) (link : Link) : Option (Strand α) :=
  if link ∈ l.links then l.strand? link else none

variable {l : Layout α}

theorem isSome_spot?_iff (id : NodeId) : (l.spot? id).isSome ↔ id ∈ l.ids := by
  rw [spot?, Option.isSome_map, isSome_position?_iff]

theorem spot?_eq_none_iff (id : NodeId) : l.spot? id = none ↔ id ∉ l.ids := by
  rw [← isSome_spot?_iff, Option.not_isSome_iff_eq_none]

theorem IsProper.spot?_id (h : l.IsProper) {b : NodeBox α} (hb : b ∈ l.boxes) :
    l.spot? b.id = some (.shown b.position) := by
  rw [spot?, h.position?_id hb, Option.map_some]

theorem IsProper.isSome_strand? (h : l.IsProper) {link : Link} (hlink : link ∈ l.links) :
    (l.strand? link).isSome := by
  obtain ⟨b, hb, hp, hid⟩ := mem_links.mp hlink
  obtain ⟨source, hsource⟩ :=
    Option.isSome_iff_exists.mp ((isSome_position?_iff _).mpr (h.parents b hb _ hp))
  have htarget : l.position? link.target = some b.position := hid ▸ h.position?_id hb
  simp [strand?, hsource, htarget]

theorem strand?_eq_some {link : Link} {s : Strand α} (h : l.strand? link = some s) :
    ∃ p q, l.position? link.source = some p ∧ l.position? link.target = some q ∧
      s = .shown p q := by
  simp only [strand?, Option.bind_eq_bind, Option.bind_eq_some_iff, Option.pure_def,
    Option.some.injEq] at h
  obtain ⟨p, hp, q, hq, rfl⟩ := h
  exact ⟨p, q, hp, hq, rfl⟩

theorem line?_of_mem {link : Link} (h : link ∈ l.links) : l.line? link = l.strand? link :=
  if_pos h

theorem line?_of_not_mem {link : Link} (h : link ∉ l.links) : l.line? link = none := if_neg h

theorem IsProper.isSome_line?_iff (h : l.IsProper) (link : Link) :
    (l.line? link).isSome ↔ link ∈ l.links := by
  by_cases hlink : link ∈ l.links
  · simp only [line?_of_mem hlink, h.isSome_strand? hlink, hlink]
  · simp only [line?_of_not_mem hlink, hlink, Option.isSome_none, Bool.false_eq_true]

end Layout

namespace Plan

variable {previous next : Layout α} {includes : NodeId → Bool}

theorem key_nodeTo (b : NodeBox α) : (nodeTo previous next includes b).key = b.id := by
  unfold nodeTo
  dsimp only
  split <;> rfl

theorem key_linkTo (link : Link) (finish : Strand α) :
    (linkTo previous next includes link finish).key = link := by
  unfold linkTo
  dsimp only
  split <;> rfl

private theorem fits_nodeTo (hn : next.IsProper) {b : NodeBox α} (hb : b ∈ next.boxes) :
    (nodeTo previous next includes b).Fits previous.spot? next.spot? := by
  have after := hn.spot?_id hb
  unfold nodeTo
  dsimp only
  split
  · next position hposition => exact ⟨by rw [Layout.spot?, hposition, Option.map_some], after⟩
  · next hnone => exact ⟨by rw [Layout.spot?, hnone, Option.map_none], after⟩

private theorem fits_linkTo {link : Link} {finish : Strand α}
    (hlink : next.line? link = some finish) :
    (linkTo previous next includes link finish).Fits previous.line? next.line? := by
  have before : previous.line? link =
      if link ∈ previous.links then previous.strand? link else none := rfl
  unfold linkTo
  dsimp only
  split
  · next start hstart => exact ⟨before.trans hstart, hlink⟩
  · next hnone => exact ⟨before.trans hnone, hlink⟩

theorem keys_nodes (previous next : Layout α) (scope : Scope) (t : Tree) :
    (between previous next scope t).nodes.map (·.key) =
      next.ids ++ previous.ids.filter fun id => !next.contains id := by
  simp only [between, List.map_append, List.map_map, Layout.ids, List.filter_map]
  congr 1
  exact List.map_congr_left fun b _ => key_nodeTo b

theorem keys_links (hp : previous.IsProper) (hn : next.IsProper) (scope : Scope) (t : Tree) :
    (between previous next scope t).links.map (·.key) =
      next.links ++ previous.links.filter fun link => link ∉ next.links := by
  rw [between, List.map_append]
  congr 1 <;> refine map_filterMap_eq_self fun link hlink => ?_
  · obtain ⟨s, hs⟩ := Option.isSome_iff_exists.mp (hn.isSome_strand? hlink)
    exact ⟨_, by rw [hs, Option.map_some], key_linkTo link s⟩
  · obtain ⟨s, hs⟩ :=
      Option.isSome_iff_exists.mp (hp.isSome_strand? (List.mem_of_mem_filter hlink))
    exact ⟨_, by rw [hs, Option.map_some], rfl⟩

/-- A plan takes every node from its place in the previous layout to its place in the next. -/
theorem leadsTo_nodes (hp : previous.IsProper) (hn : next.IsProper) (scope : Scope) (t : Tree) :
    LeadsTo (between previous next scope t).nodes previous.spot? next.spot? where
  nodup := by
    rw [keys_nodes]
    refine List.Nodup.append hn.nodup (hp.nodup.filter _) fun id here there => ?_
    have absent := (List.mem_filter.mp there).2
    rw [(Layout.contains_iff id).mpr here] at absent
    exact absurd absent (by decide)
  fits := by
    intro transition h
    rcases List.mem_append.mp h with h | h
    · obtain ⟨b, hb, rfl⟩ := List.mem_map.mp h
      exact fits_nodeTo hn hb
    · obtain ⟨b, hb, rfl⟩ := List.mem_map.mp h
      obtain ⟨hb, absent⟩ := List.mem_filter.mp hb
      refine ⟨hp.spot?_id hb, (Layout.spot?_eq_none_iff _).mpr fun there => ?_⟩
      rw [(Layout.contains_iff b.id).mpr there] at absent
      exact absurd absent (by decide)
  complete := by
    intro id drawn
    rw [keys_nodes, List.mem_append]
    rw [Layout.isSome_spot?_iff, Layout.isSome_spot?_iff] at drawn
    by_cases there : id ∈ next.ids
    · exact Or.inl there
    · refine Or.inr (List.mem_filter.mpr ⟨drawn.resolve_right there, ?_⟩)
      rw [Bool.not_eq_true', ← Bool.not_eq_true, Layout.contains_iff]
      exact there

theorem leadsTo_links (hp : previous.IsProper) (hn : next.IsProper) (scope : Scope) (t : Tree) :
    LeadsTo (between previous next scope t).links previous.line? next.line? where
  nodup := by
    rw [keys_links hp hn]
    refine List.Nodup.append hn.nodup_links (hp.nodup_links.filter _) fun link here there => ?_
    exact of_decide_eq_true (List.mem_filter.mp there).2 here
  fits := by
    intro transition h
    rcases List.mem_append.mp h with h | h
    · obtain ⟨link, hlink, h⟩ := List.mem_filterMap.mp h
      obtain ⟨finish, hfinish, rfl⟩ := Option.map_eq_some_iff.mp h
      exact fits_linkTo ((Layout.line?_of_mem hlink).trans hfinish)
    · obtain ⟨link, hlink, h⟩ := List.mem_filterMap.mp h
      obtain ⟨start, hstart, rfl⟩ := Option.map_eq_some_iff.mp h
      obtain ⟨hlink, absent⟩ := List.mem_filter.mp hlink
      exact ⟨(Layout.line?_of_mem hlink).trans hstart,
        Layout.line?_of_not_mem (of_decide_eq_true absent)⟩
  complete := by
    intro link drawn
    rw [keys_links hp hn, List.mem_append]
    rw [hp.isSome_line?_iff, hn.isSome_line?_iff] at drawn
    by_cases there : link ∈ next.links
    · exact Or.inl there
    · exact Or.inr (List.mem_filter.mpr ⟨drawn.resolve_right there, decide_eq_true there⟩)

end Plan

end TidyTree
