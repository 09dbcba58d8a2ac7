import Mathlib.Data.List.Induction
import TidyTree.Pointer.Basic

set_option autoImplicit false
set_option relaxedAutoImplicit false

namespace TidyTree

variable {α : Type}

def Event.endsPress : Event α → Bool
  | down .primary _ => true
  | up .primary _ => true
  | leave => true
  | _ => false

inductive Occurrence (α : Type) where
  /-- An event on a picture. -/
  | event (regions : Regions α) (event : Event α)
  /-- The tooltip is closed otherwise. -/
  | tooltipClosed
  | detach

namespace Occurrence

def endsPress : Occurrence α → Bool
  | event _ happened => happened.endsPress
  | tooltipClosed => false
  | detach => true

def pressedOn? [Scalar α] : Occurrence α → Option (Point α × Target)
  | event regions (.down .primary position) => some (position, regions.hit position)
  | _ => none

def movedTo? : Occurrence α → Option (Point α)
  | event _ (.move position) => some position
  | _ => none

def releasedAt? : Occurrence α → Option (Point α)
  | event _ (.up .primary position) => some position
  | _ => none

def way (since : List (Occurrence α)) : List (Point α) := since.filterMap movedTo?

variable [Scalar α]

/-- The button went down at a point where the target was hit, and what has happened since has not
ended the press. -/
def Holds (history : List (Occurrence α)) (origin : Point α) (target : Target)
    (since : List (Occurrence α)) : Prop :=
  (∃ before occurrence, history = before ++ occurrence :: since ∧
      occurrence.pressedOn? = some (origin, target)) ∧
    ∀ occurrence ∈ since, occurrence.endsPress = false

/-- After the history a release at the position completes a click on the target. Only a press on the
tooltip may have been farther away in between. -/
def IsClick (distance : α) (history : List (Occurrence α)) (position : Point α) (target : Target) :
    Prop :=
  ∃ origin since, Holds history origin target since ∧
    origin.isBeyond position distance = false ∧
    (target.isTooltip = false → ∀ point ∈ way since, origin.isBeyond point distance = false)

/-- After the history clicks outside of the tooltip are listened for: since a click on an indicator
the tooltip has not been closed, neither by a click nor otherwise. -/
inductive Listens (distance : α) : List (Occurrence α) → Prop
  | arm {history : List (Occurrence α)} {occurrence : Occurrence α} {position : Point α}
      {id : NodeId} (release : position ∈ occurrence.releasedAt?)
      (click : IsClick distance history position (.indicator id)) :
      Listens distance (history ++ [occurrence])
  | keep {history : List (Occurrence α)} {occurrence : Occurrence α}
      (listens : Listens distance history) (opened : occurrence ≠ .tooltipClosed)
      (attached : occurrence ≠ .detach)
      (unheard : ∀ position ∈ occurrence.releasedAt?, ∀ target,
        IsClick distance history position target →
          target.isOutside = false ∧ target ≠ .closeButton) :
      Listens distance (history ++ [occurrence])

variable {distance : α} {history since : List (Occurrence α)} {occurrence : Occurrence α}
  {origin : Point α} {target : Target}

theorem endsPress_of_pressedOn? (h : occurrence.pressedOn? = some (origin, target)) :
    occurrence.endsPress = true := by
  cases occurrence with
  | event regions event =>
    cases event with
    | down button position =>
      cases button with
      | primary => rfl
      | _ => exact absurd h (by simp [pressedOn?])
    | _ => exact absurd h (by simp [pressedOn?])
  | _ => exact absurd h (by simp [pressedOn?])

theorem holds_concat_iff :
    Holds (history ++ [occurrence]) origin target since ↔
      (since = [] ∧ occurrence.pressedOn? = some (origin, target)) ∨
      occurrence.endsPress = false ∧ ∃ earlier, since = earlier ++ [occurrence] ∧
        Holds history origin target earlier := by
  constructor
  · rintro ⟨⟨before, began, split, hit⟩, kept⟩
    cases since using List.reverseRecOn with
    | nil =>
      obtain ⟨_, rfl⟩ := List.append_singleton_inj.mp split
      exact Or.inl ⟨rfl, hit⟩
    | append_singleton earlier last =>
      rw [← List.cons_append, ← List.append_assoc, List.append_singleton_inj] at split
      obtain ⟨rfl, rfl⟩ := split
      have stays := kept occurrence (by simp)
      exact Or.inr ⟨stays, earlier, rfl, ⟨before, began, rfl, hit⟩,
        fun other mem => kept other (List.mem_append_left _ mem)⟩
  · rintro (⟨rfl, hit⟩ | ⟨stays, earlier, rfl, ⟨before, began, rfl, hit⟩, kept⟩)
    · exact ⟨⟨history, occurrence, rfl, hit⟩, fun _ mem => absurd mem List.not_mem_nil⟩
    · refine ⟨⟨before, began, by simp, hit⟩, fun other mem => ?_⟩
      rcases List.mem_append.mp mem with mem | mem
      · exact kept other mem
      · exact List.mem_singleton.mp mem ▸ stays

theorem not_listens_nil : ¬ Listens distance ([] : List (Occurrence α)) := by
  intro h
  generalize empty : ([] : List (Occurrence α)) = history at h
  cases h <;> exact absurd empty (by simp)

theorem listens_concat_iff :
    Listens distance (history ++ [occurrence]) ↔
      (∃ position ∈ occurrence.releasedAt?, ∃ id,
        IsClick distance history position (.indicator id)) ∨
      Listens distance history ∧ occurrence ≠ .tooltipClosed ∧ occurrence ≠ .detach ∧
        ∀ position ∈ occurrence.releasedAt?, ∀ target,
          IsClick distance history position target →
            target.isOutside = false ∧ target ≠ .closeButton := by
  constructor
  · intro h
    generalize whole : history ++ [occurrence] = longer at h
    cases h with
    | arm release click =>
      obtain ⟨rfl, rfl⟩ := List.append_singleton_inj.mp whole
      exact Or.inl ⟨_, release, _, click⟩
    | keep listens opened attached unheard =>
      obtain ⟨rfl, rfl⟩ := List.append_singleton_inj.mp whole
      exact Or.inr ⟨listens, opened, attached, unheard⟩
  · rintro (⟨position, release, id, click⟩ | ⟨listens, opened, attached, unheard⟩)
    · exact .arm release click
    · exact .keep listens opened attached unheard

end Occurrence

end TidyTree
