import TidyTree.Proofs.Layout.Surveyed
import TidyTree.Proofs.Layout.Widths
import TidyTree.Proofs.Outline.Requests

set_option autoImplicit false
set_option relaxedAutoImplicit false

namespace TidyTree

/-- What is seen of a node, whatever its number. -/
structure Look where
  label : String
  kind : Option String
  hasComment : Bool
  state : BranchState
  deriving DecidableEq, Repr

def Visit.look (v : Visit) : Look := ⟨v.item.label, v.item.kind, v.item.hasComment, v.state⟩

/-- What is seen of a box, whatever the number of its node. -/
structure Sight (α : Type) where
  look : Look
  depth : Nat
  siblingIndex : Nat
  position : Point α
  size : Size α
  labelWidth : α
  deriving DecidableEq, Repr

def NodeBox.sight {α : Type} (b : NodeBox α) : Sight α :=
  ⟨b.visit.look, b.visit.depth, b.visit.siblingIndex, b.position, b.size, b.labelWidth⟩

namespace Layout

variable {α : Type} [Scalar α]

/-- The places in pre-order that the links lead from and to. -/
def linkedPlaces (l : Layout α) : List (Nat × Nat) :=
  l.links.map fun link => (l.ids.idxOf link.source, l.ids.idxOf link.target)

/-- The layouts differ in the numbers of their nodes only. -/
structure SeenAs (l l' : Layout α) : Prop where
  boxes : l.boxes.map NodeBox.sight = l'.boxes.map NodeBox.sight
  links : l.linkedPlaces = l'.linkedPlaces
  columnWidth : l.columnWidth = l'.columnWidth

end Layout

/-- What is hidden has no influence on layouts and on the width of a column. -/
structure Sizing.IgnoresHidden {σ α : Type} [Scalar α] (s : Sizing α) (m : Metrics σ α) : Prop where
  layout : ∀ t t' : Tree, t.IsReachable → t'.IsReachable →
    t.root.visibleTree.map Visit.look = t'.root.visibleTree.map Visit.look →
    ∀ (columnWidth : α) (state state' : σ),
      (Layout.withColumns s m columnWidth t state).1.SeenAs
        (Layout.withColumns s m columnWidth t' state').1
  columns : ∀ t : Tree, t.IsReachable → ∀ (requests requests' : List Request) (state state' : σ),
    (s.columnWidth m (t.complyAll requests) state).1 =
      (s.columnWidth m (t.complyAll requests') state').1

private def Node.look (n : Node) : Look := ⟨n.item.label, n.item.kind, n.item.hasComment, n.state⟩

namespace Survey

variable {s s' : Survey} {root root' : Node} {i i' : NodeId}

private def looks (s : Survey) : List (Look × Standing) := s.stops.map (Prod.map Node.look id)

private theorem map_snd_looks (s : Survey) : s.looks.map Prod.snd = s.stops.map Prod.snd := by
  rw [looks, List.map_map]
  rfl

private theorem map_label_looks (s : Survey) : s.looks.map (·.1.label) = s.stops.map
    (·.1.item.label) := by
  rw [looks, List.map_map]
  rfl

private theorem IsOf.map_look (h : s.IsOf root) :
    root.visibleTree.map Visit.look = root.shownTree.map Node.look := by
  rw [← h.map_visit_rank, Rose.map_map]
  conv_rhs => rw [← Rose.map_fst_rank ⟨none, 0, 0⟩ 0 root.shownTree, Rose.map_map]
  rfl

private theorem IsOf.looks_eq (h : s.IsOf root) :
    s.looks = ((root.visibleTree.map Visit.look).rank ⟨none, 0, 0⟩ 0).preorder := by
  rw [h.map_look, Rose.rank_map, Rose.preorder_map, looks, h.stops_eq]

private theorem IsOf.children_eq_look (h : s.IsOf root) :
    s.children = (root.visibleTree.map Visit.look).childLists := by
  rw [Rose.childLists_map, h.children_eq_visibleTree]

private def linked (ids : List NodeId) (v : Visit) : Option (Nat × Nat) :=
  v.parent.map fun parent => (ids.idxOf parent, ids.idxOf v.item.id)

private theorem linkedPlaces_eq_filterMap {α : Type} [Scalar α] (l : Layout α) :
    l.linkedPlaces = (l.boxes.map (·.visit)).filterMap (linked l.ids) := by
  rw [Layout.linkedPlaces, Layout.links, List.map_filterMap, List.filterMap_map]
  apply List.filterMap_congr
  intro b _
  rw [NodeBox.link?, Option.map_map]
  rfl

private theorem IsOf.linked_visit (h : s.IsOf root) (numbered : root.IsNumbered i) {place : Nat}
    {stop : Node × Standing} (found : s.stops[place]? = some stop) :
    linked (s.stops.map (·.1.id)) (s.visit stop) = stop.2.parent.map (·, place) := by
  rw [linked]
  cases parent : stop.2.parent with
  | none =>
    rw [visit, parent]
    rfl
  | some p =>
    obtain ⟨above, there, same⟩ := h.exists_parent (List.mem_of_getElem? found) parent
    rw [same, Option.map_some, Option.map_some, h.idxOf_id numbered there]
    exact congrArg (fun place => some (p, place)) (h.idxOf_id numbered found)

private theorem IsOf.linkedPlaces_eq {α : Type} [Scalar α] (h : s.IsOf root)
    (numbered : root.IsNumbered i)
    {l : Layout α} (shows : l.Shows root) :
    l.linkedPlaces = (s.stops.map Prod.snd).zipIdx.filterMap fun x => x.1.parent.map (·, x.2) := by
  have visits : l.boxes.map (·.visit) = s.stops.map s.visit := shows.trans h.map_visit.symm
  have ids : l.ids = s.stops.map (·.1.id) := by
    have numbers := congrArg (List.map fun v : Visit => v.item.id) visits
    rw [List.map_map, List.map_map] at numbers
    exact numbers
  let place : Node × Standing → Option (Nat × Nat) := linked (s.stops.map (·.1.id)) ∘ s.visit
  calc l.linkedPlaces
      = s.stops.filterMap place := by
        rw [linkedPlaces_eq_filterMap, visits, ids, List.filterMap_map]
    _ = s.stops.zipIdx.filterMap (place ∘ Prod.fst) := by
        rw [← List.filterMap_map (f := Prod.fst), List.zipIdx_map_fst]
    _ = s.stops.zipIdx.filterMap fun x => x.1.2.parent.map (·, x.2) := by
        apply List.filterMap_congr
        intro x hx
        exact h.linked_visit numbered (List.mem_zipIdx_iff_getElem?.mp hx)
    _ = (s.stops.map Prod.snd).zipIdx.filterMap fun x => x.1.parent.map (·, x.2) := by
        rw [List.zipIdx_map, List.filterMap_map]
        rfl

variable {α : Type} [Scalar α]

private def sightOf (sizing : Sizing α) (columnWidth : α) (v : ((Look × Standing) × α) × α) :
    Sight α :=
  let (((look, standing), labelWidth), row) := v
  { look
    depth := standing.depth
    siblingIndex := standing.siblingIndex
    position := ⟨(standing.depth : α) * columnWidth, row * sizing.rowSpacing⟩
    size := ⟨sizing.boxWidth labelWidth, sizing.boxHeight⟩
    labelWidth }

private theorem separation_congr (same : s.looks = s'.looks) (sizing : Sizing α) (columnWidth : α)
    (widths : List α) :
    s.separation sizing columnWidth widths = s'.separation sizing columnWidth widths := by
  have standings : s.stops.map Prod.snd = s'.stops.map Prod.snd := by
    rw [← map_snd_looks, same, map_snd_looks]
  have parents (place : Nat) : (s.stops[place]?).bind (·.2.parent) =
      (s'.stops[place]?).bind (·.2.parent) := by
    have there := congrArg (·[place]?) standings
    simp only [List.getElem?_map] at there
    have owner := congrArg (Option.bind · Standing.parent) there
    rwa [Option.bind_map, Option.bind_map] at owner
  funext a b
  simp only [separation, parents]

private theorem map_sight_layout {sizing : Sizing α} {columnWidth : α} {widths : List α}
    {l : Layout α}
    (h : s.layout sizing columnWidth widths = some l) :
    ∃ rows, Placement.positions (s.separation sizing columnWidth widths) s.children = some rows ∧
      l.boxes.map NodeBox.sight =
        ((s.looks.zip widths).zip rows).map (sightOf sizing columnWidth) := by
  obtain ⟨rows, found, rfl⟩ := Option.map_eq_some_iff.mp h
  refine ⟨rows, found, ?_⟩
  rw [List.map_map, looks, List.zip_map_left, List.zip_map_left, List.map_map, List.zip_map_left,
    List.zip_map_left, List.map_map]
  rfl

end Survey

namespace Layout

variable {σ α : Type} [Scalar α] {m : Metrics σ α}
  {f : String → Font α → Except (MeasureError α) α}

private theorem exists_survey_withColumns (answers : m.Answers f) (s : Sizing α) (columnWidth : α)
    {t : Tree}
    {i : NodeId} (numbered : t.root.IsNumbered i) (state : σ) :
    ∃ survey : Survey, survey.IsOf t.root ∧
      survey.layout s columnWidth (survey.looks.map fun x => s.widthBy f x.1.label) =
        some (withColumns s m columnWidth t state).1 := by
  obtain ⟨survey, found, lists⟩ := t.root.exists_survey
  have laid := surveyed_eq s m columnWidth numbered state
  rw [surveyed, found] at laid
  simp only [Option.bind_eq_bind, Option.bind_some, Option.bind_eq_some_iff] at laid
  obtain ⟨l, laid, same⟩ := laid
  have widths : (s.labelWidths m (survey.stops.map (·.1.item.label)) state).1 =
      survey.looks.map fun x => s.widthBy f x.1.label := by
    rw [Sizing.labelWidths, answers.widthsOr_eq, ← survey.map_label_looks, List.map_map]
    rfl
  refine ⟨survey, lists, ?_⟩
  rw [← widths, laid]
  exact congrArg (Option.map Prod.fst) same

private theorem seenAs_withColumns (answers : m.Answers f) (s : Sizing α) (columnWidth : α)
    {t t' : Tree}
    {i i' : NodeId} (numbered : t.root.IsNumbered i) (numbered' : t'.root.IsNumbered i')
    (same : t.root.visibleTree.map Visit.look = t'.root.visibleTree.map Visit.look)
    (state state' : σ) :
    (withColumns s m columnWidth t state).1.SeenAs (withColumns s m columnWidth t' state').1 := by
  obtain ⟨survey, lists, laid⟩ := exists_survey_withColumns answers s columnWidth numbered state
  obtain ⟨survey', lists', laid'⟩ :=
    exists_survey_withColumns answers s columnWidth numbered' state'
  have looks : survey.looks = survey'.looks := by
    rw [lists.looks_eq, same, lists'.looks_eq]
  have children : survey.children = survey'.children := by
    rw [lists.children_eq_look, same, lists'.children_eq_look]
  constructor
  case boxes =>
    obtain ⟨rows, found, sights⟩ := Survey.map_sight_layout laid
    obtain ⟨rows', found', sights'⟩ := Survey.map_sight_layout laid'
    rw [Survey.separation_congr looks, looks, children, found', Option.some.injEq] at found
    rw [sights, sights', looks, found]
  case links =>
    rw [lists.linkedPlaces_eq numbered (shows_withColumns s m columnWidth t state),
      lists'.linkedPlaces_eq numbered' (shows_withColumns s m columnWidth t' state'),
      ← survey.map_snd_looks, looks, survey'.map_snd_looks]
  case columnWidth => rfl

end Layout

namespace Sizing

variable {σ α : Type} [Scalar α] {m : Metrics σ α}
  {f : String → Font α → Except (MeasureError α) α}

private theorem columnWidth_complyAll (answers : m.Answers f) (s : Sizing α) {t : Tree} {i : NodeId}
    (numbered : t.root.IsNumbered i) (requests : List Request) (state : σ) :
    (s.columnWidth m (t.complyAll requests) state).1 =
      s.columnWidthOf ((t.nodes.map fun n => s.widthBy f n.item.label).foldl Scalar.max 0) := by
  have widths : ((t.complyAll requests).nodes.map fun n => s.widthBy f n.item.label) =
      t.nodes.map fun n => s.widthBy f n.item.label := by
    rw [Tree.nodes_complyAll numbered, List.map_map]
    apply List.map_congr_left
    intro x _
    show s.widthBy f (x.restate _).item.label = _
    rw [Node.item_restate]
  rw [columnWidth_eq answers, widths]

/-- With a metrics that answers like a function, hidden things do not show in layouts. -/
theorem ignoresHidden_of_answers (answers : m.Answers f) (s : Sizing α) : s.IgnoresHidden m where
  layout := by
    intro t t' reachable reachable' same columnWidth state state'
    exact Layout.seenAs_withColumns answers s columnWidth reachable.isNumbered
      reachable'.isNumbered same state state'
  columns := by
    intro t reachable requests requests' state state'
    rw [columnWidth_complyAll answers s reachable.isNumbered,
      columnWidth_complyAll answers s reachable.isNumbered]

/-- One tree hides a branch of two nodes and the other one a single node, so the node behind it has
another number in each. -/
theorem ignoresHidden_of_answers_fixed :
    ∃ t t' : Tree, t.IsReachable ∧ t'.IsReachable ∧
      t.root.drawn.map Node.id = [0, 1, 4] ∧ t'.root.drawn.map Node.id = [0, 1, 3] ∧
      (Layout.withColumns (.standard : Sizing Rat) (Metrics.fixed 8) 150 t ()).1.SeenAs
        (Layout.withColumns .standard (Metrics.fixed 8) 150 t' ()).1 := by
  let t : Tree := .ofRecord { label := "root", visible := [
    { label := "left", hidden := [{ label := "upper", hidden := [{ label := "end" }] }] },
    { label := "right" }] }
  let t' : Tree := .ofRecord { label := "root", visible := [
    { label := "left", hidden := [{ label := "other" }] }, { label := "right" }] }
  have hidden := ignoresHidden_of_answers (m := Metrics.fixed (8 : Rat)) (fun _ _ _ => rfl)
    (.standard : Sizing Rat)
  exact ⟨t, t', .ofRecord _, .ofRecord _, by decide +kernel, by decide +kernel,
    hidden.layout t t' (.ofRecord _) (.ofRecord _) rfl 150 () ()⟩

end Sizing

end TidyTree
