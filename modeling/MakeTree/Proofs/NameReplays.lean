import MakeTree.Proofs.NameRecords
import MakeTree.Proofs.SortedNames

/-! One name at a time. A value is what the calls that end up on its name make of it, in their order,
whatever other calls stand between them; the records of how names were assigned only grow. -/
namespace MakeTree
open Text LeftSide

namespace Event

def name? : Event → Option Text
  | .assigned raw _ => some (ofText raw).name
  | .unassigned name => some name
  | _ => none

def appended (old : Option Text) (value : Text) : Text :=
  match old with
  | some before => before ++ ' ' :: value
  | none => value

/-- The value of a name behind a call that ends up on it. A value is put behind the old one where the
name lost a plus sign, the last of the marks that are taken off. -/
def revise (old : Option Text) : Event → Option Text
  | .assigned raw value =>
    if endsWithChar '+' (uncoloned raw) then some (appended old value) else some value
  | .unassigned _ => none
  | _ => old

end Event

def replayName (name : Text) (old : Option Text) (events : List Event) : Option Text :=
  (events.filter (·.name? = some name)).foldl Event.revise old

theorem applyNamed {event : Event} {name : Text} (here : event.name? = some name)
    (vars : Variables) : (event.apply vars).get? name = event.revise (vars.get? name) := by
  cases event with
  | assigned raw value =>
    cases Option.some.inj here
    have assigned := vars.setAssigned raw value
    have plus : (ofText raw).append = endsWithChar '+' (uncoloned raw) := by rw [stages]
    rw [Event.apply, Event.revise, ← plus]
    split
    · rename_i append
      cases was : vars.get? (ofText raw).name with
      | none => exact assigned.stores fun _ => was
      | some old => exact assigned.appends old append was
    · rename_i plain
      exact assigned.stores fun append => absurd append plain
  | unassigned other =>
    cases Option.some.inj here
    exact (vars.unsetUnset name).gone
  | _ => cases here

theorem applyUnnamed {event : Event} {name : Text} (there : event.name? ≠ some name)
    (vars : Variables) : (event.apply vars).get? name = vars.get? name := by
  cases event with
  | assigned raw value =>
    exact (vars.setAssigned raw value).elsewhere name fun same => there (congrArg some same.symm)
  | unassigned other =>
    exact (vars.unsetUnset other).elsewhere name fun same => there (congrArg some same.symm)
  | _ => rfl

theorem replayNamed (vars : Variables) (events : List Event) (name : Text) :
    (replay vars events).get? name = replayName name (vars.get? name) events := by
  induction events generalizing vars with
  | nil => rfl
  | cons event rest ih =>
    rw [show replay vars (event :: rest) = replay (event.apply vars) rest from rfl, ih, replayName,
      replayName]
    by_cases here : event.name? = some name
    · rw [List.filter_cons_of_pos (by simp [here]), List.foldl_cons, applyNamed here]
    · rw [List.filter_cons_of_neg (by simp [here]), applyUnnamed here]

example : replayName ['A'] none [.assigned "A ?".toList ['1'], .unassigned ['B'],
    .assigned " A + ::".toList ['2']] = some "1 2".toList := by decide +kernel

def Alike (events others : List Event) : Prop :=
  ∀ name, events.filter (·.name? = some name) = others.filter (·.name? = some name)

theorem alikeAssigned {events others : List Event} (alike : Alike events others) (raw value : Text) :
    .assigned raw value ∈ events ↔ .assigned raw value ∈ others := by
  have inside (list : List Event) : .assigned raw value ∈ list ↔
      .assigned raw value ∈ list.filter (·.name? = some (ofText raw).name) := by
    simp [List.mem_filter, Event.name?]
  rw [inside events, inside others, alike]

theorem alikeReplays {events others : List Event} (alike : Alike events others) {vars : Variables}
    (ascending : vars.Ascending) : replay vars events = replay vars others := by
  refine Variables.ascendingSame (replayAscending ascending _) (replayAscending ascending _)
    (fun name => ?_) (fun name => ?_) fun name => ?_
  · rw [replayNamed, replayNamed, replayName, replayName, alike]
  · rw [replayRecords conditionalRecords, replayRecords conditionalRecords]
    simp only [alikeAssigned alike]
  · rw [replayRecords simpleRecords, replayRecords simpleRecords]
    simp only [alikeAssigned alike]

theorem swappedAlike {first second : Event} (apart : first.name? ≠ second.name?)
    (before after : List Event) :
    Alike (before ++ first :: second :: after) (before ++ second :: first :: after) := by
  intro name
  rw [List.filter_append, List.filter_append]
  congr 1
  by_cases here : first.name? = some name
  · have there : second.name? ≠ some name := fun same => apart (here.trans same.symm)
    simp [here, there]
  · simp [List.filter_cons, here]

structure Grown (before after : Variables) : Prop where
  conditional : before.conditional ⊆ after.conditional
  simple : before.simple ⊆ after.simple

theorem replayGrown (vars : Variables) (events : List Event) : Grown vars (replay vars events) where
  conditional := fun name member =>
    (replayRecords conditionalRecords vars events name).mpr (.inr member)
  simple := fun name member => (replayRecords simpleRecords vars events name).mpr (.inr member)

namespace Grown

variable {before after : Variables}

theorem staysConditional (grown : Grown before after) {name : Text}
    (was : before.flavor name = .conditional) : after.flavor name = .conditional := by
  have member : name ∈ before.conditional := by
    by_contra out
    rw [Variables.flavor, if_neg out] at was
    split at was <;> cases was
  exact if_pos (grown.conditional member)

theorem staysMarked (grown : Grown before after) {name : Text}
    (was : before.flavor name = .simple) : after.flavor name ≠ .recursive := by
  have member : name ∈ before.simple := by
    by_contra out
    rw [Variables.flavor, if_neg out] at was
    split at was <;> cases was
  rw [Variables.flavor, if_pos (grown.simple member)]
  split <;> decide

end Grown

structure Enumerates (vars : Variables) : Prop where
  ascending : (vars.entries.map (·.1)).Pairwise (· < ·)
  exact : ∀ name flavor value, (name, flavor, value) ∈ vars.entries ↔
    vars.get? name = some value ∧ flavor = vars.flavor name
  size : vars.size = vars.entries.length
  contains : ∀ name, vars.contains name = true ↔ name ∈ vars.entries.map (·.1)

theorem ascendingEnumerates {vars : Variables} (ascending : vars.Ascending) : Enumerates vars := by
  have names : vars.entries.map (·.1) = vars.values.map (·.1) := by simp [Variables.entries]
  constructor
  · rw [names]
    exact ascending.values
  · intro name flavor value
    rw [Variables.getAscending ascending]
    simp only [Variables.entries, List.mem_map, Prod.exists, Prod.mk.injEq]
    constructor
    · rintro ⟨_, _, member, rfl, rfl, rfl⟩
      exact ⟨member, rfl⟩
    · rintro ⟨member, rfl⟩
      exact ⟨name, value, member, rfl, rfl, rfl⟩
  · simp [Variables.size, Variables.entries]
  · intro name
    rw [names, Variables.contains, Option.isSome_iff_exists]
    simp only [Variables.getAscending ascending, List.mem_map, Prod.exists, exists_and_right,
      exists_eq_right]

structure Replays (events : List Event) : Prop where
  values : ∀ name, (replay .empty events).get? name = replayName name none events
  alike : ∀ others, Alike events others → replay .empty others = replay .empty events
  commute : ∀ before first second after, events = before ++ first :: second :: after →
    first.name? ≠ second.name? →
      replay .empty (before ++ second :: first :: after) = replay .empty events
  enumerates : Enumerates (replay .empty events)
  grows : ∀ before after, events = before ++ after →
    Grown (replay .empty before) (replay .empty events)
  flavors : ∀ before after name, events = before ++ after →
    ((replay .empty before).flavor name = .conditional →
      (replay .empty events).flavor name = .conditional) ∧
    ((replay .empty before).flavor name = .simple →
      (replay .empty events).flavor name ≠ .recursive)

theorem eventsReplayed (events : List Event) : Replays events := by
  have grows (before after : List Event) (parts : events = before ++ after) :
      Grown (replay .empty before) (replay .empty events) := by
    rw [parts, replayAppend]
    exact replayGrown _ _
  constructor
  · exact replayNamed .empty events
  · exact fun _ alike => (alikeReplays alike Variables.emptyAscending).symm
  · rintro before first second after rfl apart
    exact (alikeReplays (swappedAlike apart before after) Variables.emptyAscending).symm
  · exact ascendingEnumerates (replayAscending Variables.emptyAscending events)
  · exact grows
  · intro before after name parts
    have grown := grows before after parts
    exact ⟨grown.staysConditional, grown.staysMarked⟩

end MakeTree
