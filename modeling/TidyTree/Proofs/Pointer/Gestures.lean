import TidyTree.Proofs.Pointer.History

set_option autoImplicit false
set_option relaxedAutoImplicit false

namespace TidyTree

variable {α : Type}

def Intent.isOfWindow : Intent α → Bool
  | pan _ _ => true
  | zoom _ _ => true
  | resize _ => true
  | _ => false

/-- What a click on the target asks for, while clicks outside of the tooltip are listened for or
not. -/
def Target.answer (armed : Bool) (position : Point α) : Target → List (Intent α)
  | indicator id => [.openTooltip id position]
  | node id => if armed then [.closeTooltip, .toggle id] else [.toggle id]
  | background => if armed then [.closeTooltip] else []
  | closeButton => [.closeTooltip]
  | tooltip => []

variable [Scalar α]

namespace Press

private def moveTo (press : Press α) (distance : α) (position : Point α) : Press α :=
  if press.target.isTooltip then press
  else
    { press with last := position, moved := press.moved || press.origin.isBeyond position distance }

/-- The press that began at a point where the target was hit, after the way that it has gone. -/
private def along (distance : α) (origin : Point α) (target : Target) (way : List (Point α)) :
    Press α :=
  if target.isTooltip then ⟨origin, origin, target, false⟩
  else ⟨origin, way.getLastD origin, target, way.any (origin.isBeyond · distance)⟩

variable {distance : α} {origin position : Point α} {target : Target} {way : List (Point α)}

private theorem along_concat :
    along distance origin target (way ++ [position]) =
      (along distance origin target way).moveTo distance position := by
  unfold along moveTo
  cases part : target.isTooltip with
  | true => simp [part]
  | false => simp [part, List.any_append]

private theorem origin_moveTo (press : Press α) :
    (press.moveTo distance position).origin = press.origin := by
  unfold moveTo
  split <;> rfl

private theorem target_moveTo (press : Press α) :
    (press.moveTo distance position).target = press.target := by
  unfold moveTo
  split <;> rfl

private theorem along_nil : along distance origin target [] = ⟨origin, origin, target, false⟩ := by
  unfold along
  split <;> rfl

private theorem origin_along : (along distance origin target way).origin = origin := by
  unfold along
  split <;> rfl

private theorem target_along : (along distance origin target way).target = target := by
  unfold along
  split <;> rfl

private theorem along_way_concat (distance : α) (origin : Point α) (target : Target)
    (since : List (Occurrence α)) (occurrence : Occurrence α) :
    along distance origin target (Occurrence.way (since ++ [occurrence])) =
      occurrence.movedTo?.elim (.along distance origin target (Occurrence.way since))
        ((along distance origin target (Occurrence.way since)).moveTo distance) := by
  rw [Occurrence.way, List.filterMap_append]
  cases moved : occurrence.movedTo? with
  | none => simp [moved, Occurrence.way]
  | some position => simp [moved, Occurrence.way, along_concat]

private theorem moved_along_eq_false_iff :
    (along distance origin target way).moved = false ↔
      (target.isTooltip = false → ∀ point ∈ way, origin.isBeyond point distance = false) := by
  unfold along
  split
  · next part => simp [part]
  · next part => simp [part]

end Press

namespace Listener

variable {l : Listener} {target : Target}

omit [Scalar α] in
theorem settle_eq (h : l ≠ .pending) : l.settle = l := by
  cases l with
  | pending => exact absurd rfl h
  | _ => rfl

private theorem settle_clicked_eq_armed_iff (h : l ≠ .pending) :
    (l.clicked target).settle = .armed ↔
      (∃ id, target = .indicator id) ∨
        l = .armed ∧ target.isOutside = false ∧ target ≠ .closeButton := by
  cases l with
  | pending => exact absurd rfl h
  | _ => cases target <;> simp [clicked, settle, Target.isOutside]

end Listener

namespace Pointer

structure IsSettled {α : Type} (p : Pointer α) (clickDistance : α) : Prop where
  distance : p.clickDistance = clickDistance
  listener : p.listener ≠ .pending

variable {p : Pointer α} {distance : α} {regions : Regions α} {press : Press α}
  {position : Point α} {target : Target}

omit [Scalar α] in
private theorem IsSettled.tooltipClosed (h : p.IsSettled distance) :
    p.tooltipClosed.IsSettled distance := ⟨h.distance, Listener.noConfusion⟩

omit [Scalar α] in
theorem IsSettled.listener_eq (h : p.IsSettled distance) (unarmed : p.isArmed = false) :
    p.listener = .disarmed := by
  have pending := h.listener
  rw [isArmed, decide_eq_false_iff_not] at unarmed
  cases listener : p.listener with
  | disarmed => rfl
  | pending => exact absurd listener pending
  | armed => exact absurd listener unarmed

/-- What a release at the position completes a click on. -/
def clickedAt? (p : Pointer α) (position : Point α) : Option Target :=
  p.press?.bind fun press =>
    if press.moved || press.origin.isBeyond position p.clickDistance then none
    else some press.target

theorem press_of_clickedAt? (h : p.clickedAt? position = some target) :
    ∃ press, p.press? = some press ∧ press.target = target := by
  obtain ⟨press, held, near⟩ := Option.bind_eq_some_iff.mp h
  refine ⟨press, held, ?_⟩
  split at near
  · exact absurd near (by simp)
  · exact Option.some.inj near

theorem released_eq (p : Pointer α) (position : Point α) :
    p.released position =
      ({ p with
          press? := none
          listener := (p.clickedAt? position).elim p.listener p.listener.clicked },
        (p.clickedAt? position).elim [] fun target => (p.click target position).2) := by
  obtain ⟨distance, ctrl, press?, listener⟩ := p
  cases press? with
  | none => rfl
  | some press =>
    dsimp only [released, clickedAt?, Option.bind_some]
    split <;> rfl

private theorem moved_eq (p : Pointer α) (position : Point α) :
    (p.moved position).1 =
      { p with press? := p.press?.map (·.moveTo p.clickDistance position) } := by
  obtain ⟨distance, ctrl, press?, listener⟩ := p
  cases press? with
  | none => rfl
  | some press =>
    dsimp only [moved, Option.map_some, Press.moveTo]
    split <;> rfl

variable [PowTwo α]

private theorem react_eq (p : Pointer α) (regions : Regions α) (event : Event α) :
    (p.react regions event).1 =
      { p with
        press? := match event with
          | .down .primary position => some ⟨position, position, regions.hit position, false⟩
          | .up .primary _ => none
          | .leave => none
          | .move position => p.press?.map (·.moveTo p.clickDistance position)
          | _ => p.press?
        listener := match event with
          | .up .primary position => (p.clickedAt? position).elim p.listener p.listener.clicked
          | _ => p.listener } := by
  cases event with
  | down button position => cases button <;> rfl
  | up button position =>
    cases button with
    | primary =>
      dsimp only [react]
      rw [released_eq]
    | _ => rfl
  | move position =>
    dsimp only [react]
    rw [moved_eq]
  | _ => rfl

private theorem IsSettled.handle (h : p.IsSettled distance) (regions : Regions α) (event : Event α)
    :
    (p.handle regions event).1.IsSettled distance := by
  constructor
  · show (p.react regions event).1.clickDistance = distance
    rw [react_eq]
    exact h.distance
  · show (p.react regions event).1.listener.settle ≠ .pending
    cases (p.react regions event).1.listener <;> exact Listener.noConfusion

omit [PowTwo α] in
private theorem isOfWindow_of_moved {intent : Intent α} (mem : intent ∈ (p.moved position).2) :
    intent.isOfWindow = true := by
  unfold moved at mem
  dsimp only at mem
  repeat' split at mem
  all_goals first
    | exact absurd mem List.not_mem_nil
    | rw [List.mem_singleton.mp mem, Intent.isOfWindow]

private theorem isOfWindow_of_wheeled {delta : α} {unit : WheelUnit} {ctrl : Bool}
    {intent : Intent α}
    (mem : intent ∈ p.wheeled position delta unit ctrl) : intent.isOfWindow = true := by
  unfold wheeled at mem
  dsimp only at mem
  repeat' split at mem
  all_goals first
    | exact absurd mem List.not_mem_nil
    | rw [List.mem_singleton.mp mem, Intent.isOfWindow]

theorem handle_cases (p : Pointer α) (regions : Regions α) (event : Event α) :
    (∃ position target, event = .up .primary position ∧ p.clickedAt? position = some target ∧
      (p.handle regions event).2 = (p.click target position).2 ∧
      (p.handle regions event).1.listener = (p.listener.clicked target).settle) ∨
    (∀ intent ∈ (p.handle regions event).2, intent.isOfWindow = true) ∧
      (p.handle regions event).1.listener = p.listener.settle := by
  have listener : (p.handle regions event).1.listener = (p.react regions event).1.listener.settle :=
    rfl
  rw [listener, react_eq]
  cases event with
  | up button position =>
    cases button with
    | primary =>
      show _ ∨ (∀ intent ∈ (p.released position).2, _) ∧ _
      cases clicked : p.clickedAt? position with
      | none =>
        refine Or.inr ⟨fun intent mem => ?_, by simp [clicked]⟩
        rw [released_eq, clicked] at mem
        exact absurd mem List.not_mem_nil
      | some target =>
        refine Or.inl ⟨position, target, rfl, clicked, ?_, by simp [clicked]⟩
        show (p.released position).2 = _
        rw [released_eq, clicked]
        rfl
    | _ => exact Or.inr ⟨fun _ mem => absurd mem List.not_mem_nil, rfl⟩
  | down button position =>
    cases button <;> exact Or.inr ⟨fun _ mem => absurd mem List.not_mem_nil, rfl⟩
  | move position => exact Or.inr ⟨fun _ mem => isOfWindow_of_moved mem, rfl⟩
  | leave => exact Or.inr ⟨fun _ mem => absurd mem List.not_mem_nil, rfl⟩
  | wheel position delta unit ctrl => exact Or.inr ⟨fun _ mem => isOfWindow_of_wheeled mem, rfl⟩
  | resize size =>
    refine Or.inr ⟨fun intent mem => ?_, rfl⟩
    rw [List.mem_singleton.mp mem, Intent.isOfWindow]

theorem press_of_react {event : Event α} (h : (p.react regions event).1.press? = some press) :
    (∃ position, event = .down .primary position ∧ press.origin = position ∧
        press.target = regions.hit position) ∨
      event.endsPress = false ∧ ∃ held, p.press? = some held ∧ held.origin = press.origin ∧
        held.target = press.target := by
  rw [react_eq] at h
  cases event with
  | down button position =>
    cases button with
    | primary =>
      obtain rfl := Option.some.inj h
      exact Or.inl ⟨position, rfl, rfl, rfl⟩
    | _ => exact Or.inr ⟨rfl, press, h, rfl, rfl⟩
  | up button position =>
    cases button with
    | primary => exact absurd h (by simp)
    | _ => exact Or.inr ⟨rfl, press, h, rfl, rfl⟩
  | move position =>
    obtain ⟨held, holds, rfl⟩ := Option.map_eq_some_iff.mp h
    refine Or.inr ⟨rfl, held, holds, ?_, ?_⟩
    · rw [Press.origin_moveTo]
    · rw [Press.target_moveTo]
  | leave => exact absurd h (by simp)
  | _ => exact Or.inr ⟨rfl, press, h, rfl, rfl⟩

def meet (p : Pointer α) : Occurrence α → Pointer α
  | .event regions event => (p.handle regions event).1
  | .tooltipClosed => p.tooltipClosed
  | .detach => p.detach

def after (p : Pointer α) (history : List (Occurrence α)) : Pointer α := history.foldl meet p

variable {history : List (Occurrence α)} {occurrence : Occurrence α}

theorem after_append (p : Pointer α) (earlier later : List (Occurrence α)) :
    p.after (earlier ++ later) = (p.after earlier).after later := List.foldl_append

structure Recounts (p : Pointer α) (distance : α) (history : List (Occurrence α)) : Prop where
  settled : p.IsSettled distance
  press : ∀ press, p.press? = some press ↔ ∃ origin target since,
    Occurrence.Holds history origin target since ∧
      press = .along distance origin target (Occurrence.way since)
  listener : p.listener = .armed ↔ Occurrence.Listens distance history

private theorem press?_meet (p : Pointer α) (occurrence : Occurrence α) :
    (p.meet occurrence).press? =
      if occurrence.endsPress then
        occurrence.pressedOn?.map fun pressed => ⟨pressed.1, pressed.1, pressed.2, false⟩
      else
        p.press?.map fun press =>
          occurrence.movedTo?.elim press (press.moveTo p.clickDistance) := by
  have same : p.press? = p.press?.map fun press => press := Option.map_id'.symm
  cases occurrence with
  | event regions event =>
    show (p.react regions event).1.press? = _
    rw [react_eq]
    cases event with
    | down button position =>
      cases button with
      | primary => rfl
      | _ => exact same
    | up button position =>
      cases button with
      | primary => rfl
      | _ => exact same
    | move position => rfl
    | leave => rfl
    | _ => exact same
  | tooltipClosed => exact same
  | detach => rfl

private theorem listener_meet_event (p : Pointer α) (regions : Regions α) (event : Event α) :
    (p.meet (.event regions event)).listener =
      (((Occurrence.event regions event).releasedAt?.bind p.clickedAt?).elim p.listener
        p.listener.clicked).settle := by
  show (p.react regions event).1.listener.settle = _
  rw [react_eq]
  cases event with
  | up button position => cases button <;> rfl
  | _ => rfl

namespace Recounts

omit [PowTwo α] in
theorem clickedAt?_eq_some_iff (h : p.Recounts distance history) :
    p.clickedAt? position = some target ↔
      Occurrence.IsClick distance history position target := by
  unfold clickedAt? Occurrence.IsClick
  rw [h.settled.distance]
  constructor
  · intro clicked
    obtain ⟨press, held, near⟩ := Option.bind_eq_some_iff.mp clicked
    obtain ⟨origin, target', since, holds, rfl⟩ := (h.press press).mp held
    rw [Press.origin_along, Press.target_along] at near
    split at near
    · exact absurd near (by simp)
    · next still =>
      obtain rfl := Option.some.inj near
      rw [Bool.not_eq_true, Bool.or_eq_false_iff, Press.moved_along_eq_false_iff] at still
      exact ⟨origin, since, holds, still.2, still.1⟩
  · rintro ⟨origin, since, holds, near, still⟩
    have held := (h.press _).mpr ⟨origin, target, since, holds, rfl⟩
    rw [held, Option.bind_some, Press.moved_along_eq_false_iff.mpr still, Press.origin_along, near,
      Press.target_along]
    rfl

private theorem press_meet (h : p.Recounts distance history) (occurrence : Occurrence α)
    (press : Press α) :
    (p.meet occurrence).press? = some press ↔ ∃ origin target since,
      Occurrence.Holds (history ++ [occurrence]) origin target since ∧
        press = .along distance origin target (Occurrence.way since) := by
  rw [press?_meet, h.settled.distance]
  cases ends : occurrence.endsPress with
  | false =>
    rw [if_neg Bool.false_ne_true, Option.map_eq_some_iff]
    constructor
    · rintro ⟨held, holding, rfl⟩
      obtain ⟨origin, target, since, holds, rfl⟩ := (h.press held).mp holding
      have longer := Press.along_way_concat distance origin target since occurrence
      refine ⟨origin, target, since ++ [occurrence], ?_, longer.symm⟩
      exact Occurrence.holds_concat_iff.mpr (Or.inr ⟨ends, since, rfl, holds⟩)
    · rintro ⟨origin, target, since, holds, rfl⟩
      rcases Occurrence.holds_concat_iff.mp holds with ⟨_, begun⟩ | ⟨_, earlier, rfl, before⟩
      · exact absurd (ends.symm.trans (Occurrence.endsPress_of_pressedOn? begun)) (by simp)
      · have holding := (h.press _).mpr ⟨origin, target, earlier, before, rfl⟩
        have longer := Press.along_way_concat distance origin target earlier occurrence
        exact ⟨_, holding, longer.symm⟩
  | true =>
    rw [if_pos rfl, Option.map_eq_some_iff]
    constructor
    · rintro ⟨⟨origin, target⟩, begun, rfl⟩
      refine ⟨origin, target, [], ?_, Press.along_nil.symm⟩
      exact Occurrence.holds_concat_iff.mpr (Or.inl ⟨rfl, begun⟩)
    · rintro ⟨origin, target, since, holds, rfl⟩
      rcases Occurrence.holds_concat_iff.mp holds with ⟨rfl, begun⟩ | ⟨stays, _⟩
      · exact ⟨_, begun, Press.along_nil.symm⟩
      · exact absurd (ends.symm.trans stays) (by simp)

private theorem listener_meet (h : p.Recounts distance history) (occurrence : Occurrence α) :
    (p.meet occurrence).listener = .armed ↔
      Occurrence.Listens distance (history ++ [occurrence]) := by
  rw [Occurrence.listens_concat_iff, ← h.listener]
  simp only [← h.clickedAt?_eq_some_iff]
  cases occurrence with
  | tooltipClosed => simp [meet, tooltipClosed, Occurrence.releasedAt?]
  | detach => simp [meet, detach, Occurrence.releasedAt?]
  | event regions event =>
    rw [listener_meet_event]
    cases released : (Occurrence.event regions event).releasedAt? with
    | none => simp [Listener.settle_eq h.settled.listener]
    | some position =>
      cases clicked : p.clickedAt? position with
      | none => simp [Listener.settle_eq h.settled.listener, clicked]
      | some target =>
        simp [Listener.settle_clicked_eq_armed_iff h.settled.listener, clicked]

private theorem meet (h : p.Recounts distance history) (occurrence : Occurrence α) :
    (p.meet occurrence).Recounts distance (history ++ [occurrence]) where
  settled := by
    cases occurrence with
    | event regions event => exact h.settled.handle regions event
    | tooltipClosed => exact h.settled.tooltipClosed
    | detach => exact ⟨h.settled.distance, Listener.noConfusion⟩
  press := h.press_meet occurrence
  listener := h.listener_meet occurrence

end Recounts

omit [PowTwo α] in
private theorem recounts_idle (distance : α) (zoomRequiresCtrl : Bool) :
    (idle distance zoomRequiresCtrl).Recounts distance [] where
  settled := ⟨rfl, Listener.noConfusion⟩
  press := by
    intro press
    refine ⟨fun held => absurd held (by simp [idle]), ?_⟩
    rintro ⟨origin, target, since, ⟨⟨before, regions, split, _⟩, _⟩, _⟩
    exact absurd split (by simp)
  listener := iff_of_false Listener.noConfusion Occurrence.not_listens_nil

/-- A pointer is as its history says, however long it is. -/
theorem recounts_after (distance : α) (zoomRequiresCtrl : Bool) (history : List (Occurrence α)) :
    ((idle distance zoomRequiresCtrl).after history).Recounts distance history := by
  induction history using List.reverseRecOn with
  | nil => exact recounts_idle distance zoomRequiresCtrl
  | append_singleton history occurrence ih =>
    rw [after_append]
    exact ih.meet occurrence

omit [Scalar α] [PowTwo α] in
theorem click_eq_answer (h : p.IsSettled distance) (target : Target) (position : Point α) :
    (p.click target position).2 = target.answer p.isArmed position := by
  have settled := h.listener
  unfold click isArmed
  generalize p.listener = listener at *
  cases listener with
  | pending => exact absurd rfl settled
  | _ => cases target <;> rfl

/-- What the pointer asks for is what its history says: a release that completes a click gets the
answer of what was clicked, and no other does; a move pans by the way since the last one while a
press is held that did not begin on the tooltip; and all else that a pointer does is ignored. -/
structure Heeds (p : Pointer α) (distance : α) (history : List (Occurrence α)) : Prop where
  armed : p.isArmed = true ↔ Occurrence.Listens distance history
  click : ∀ regions position target, Occurrence.IsClick distance history position target →
    (p.handle regions (.up .primary position)).2 = target.answer p.isArmed position
  drag : ∀ regions position, (¬ ∃ target, Occurrence.IsClick distance history position target) →
    (p.handle regions (.up .primary position)).2 = []
  pan : ∀ regions position origin target since, Occurrence.Holds history origin target since →
    target.isTooltip = false →
      let way := position.sub ((Occurrence.way since).getLastD origin)
      (p.handle regions (.move position)).2 =
        if way.x != 0 || way.y != 0 then [.pan way.x way.y] else []
  hover : ∀ regions position, (¬ ∃ origin target since,
      Occurrence.Holds history origin target since ∧ target.isTooltip = false) →
    (p.handle regions (.move position)).2 = []
  down : ∀ regions button position, (p.handle regions (.down button position)).2 = []
  up : ∀ regions position, ∀ button ≠ .primary, (p.handle regions (.up button position)).2 = []
  leave : ∀ regions, (p.handle regions .leave).2 = []

/-- After any history of events, closed tooltips and detachments a pointer asks for what the history
says. -/
theorem heeds_after (distance : α) (zoomRequiresCtrl : Bool) (history : List (Occurrence α)) :
    ((idle distance zoomRequiresCtrl).after history).Heeds distance history := by
  have h := recounts_after distance zoomRequiresCtrl history
  generalize (idle distance zoomRequiresCtrl).after history = p at *
  constructor
  case armed =>
    rw [isArmed, decide_eq_true_eq]
    exact h.listener
  case click =>
    intro regions position target click
    rw [← h.clickedAt?_eq_some_iff] at click
    show (p.released position).2 = _
    rw [released_eq, click]
    exact click_eq_answer h.settled target position
  case drag =>
    intro regions position drag
    have unclicked : p.clickedAt? position = none := by
      rw [Option.eq_none_iff_forall_ne_some]
      intro target clicked
      exact drag ⟨target, h.clickedAt?_eq_some_iff.mp clicked⟩
    show (p.released position).2 = []
    rw [released_eq, unclicked]
    rfl
  case pan =>
    intro regions position origin target since holds outside
    have held := (h.press _).mpr ⟨origin, target, since, holds, rfl⟩
    show (p.moved position).2 = _
    unfold Press.along at held
    rw [outside, if_neg Bool.false_ne_true] at held
    rw [moved, held]
    dsimp only
    rw [outside, if_neg Bool.false_ne_true]
  case hover =>
    intro regions position hover
    show (p.moved position).2 = []
    unfold moved
    cases held : p.press? with
    | none => rfl
    | some press =>
      obtain ⟨origin, target, since, holds, rfl⟩ := (h.press press).mp held
      have part : target.isTooltip = true := by
        by_contra outside
        exact hover ⟨origin, target, since, holds, Bool.not_eq_true _ ▸ outside⟩
      dsimp only
      rw [Press.target_along, part, if_pos rfl]
  case down =>
    intro regions button position
    cases button <;> rfl
  case up =>
    intro regions position button other
    cases button with
    | primary => exact absurd rfl other
    | _ => rfl
  case leave => exact fun _ => rfl

end Pointer

end TidyTree
