import MakeTree.Variables

/-! What is found under a name in a list of pairs, and among the names of a record, once a pair or a name
has been put in or taken out. Order does not matter to it. -/
namespace MakeTree
open Text

theorem lookupFiltered {α β : Type} [BEq α] [LawfulBEq α] [DecidableEq α] {place other : α}
    (entries : List (α × β)) (elsewhere : other ≠ place) :
    (entries.filter (·.1 ≠ place)).lookup other = entries.lookup other := by
  induction entries with
  | nil => rfl
  | cons entry rest ih =>
    obtain ⟨at?, content⟩ := entry
    by_cases here : at? = place
    · rw [List.filter_cons_of_neg (by simp [here]), ih, List.lookup_cons,
        beq_false_of_ne fun same => elsewhere (same.trans here)]
    · rw [List.filter_cons_of_pos (by simp [here]), List.lookup_cons, List.lookup_cons, ih]

theorem lookupRemoved {α β : Type} [BEq α] [LawfulBEq α] [DecidableEq α] (place : α)
    (entries : List (α × β)) : (entries.filter (·.1 ≠ place)).lookup place = none := by
  induction entries with
  | nil => rfl
  | cons entry rest ih =>
    obtain ⟨at?, content⟩ := entry
    by_cases here : at? = place
    · rw [List.filter_cons_of_neg (by simp [here]), ih]
    · rw [List.filter_cons_of_pos (by simp [here]), List.lookup_cons,
        beq_false_of_ne fun same => here same.symm, ih]

variable {name other : Text}

theorem lookupInserted (name value : Text) (values : List (Text × Text)) :
    (insertValue name value values).lookup name = some value := by
  induction values with
  | nil => simp [insertValue]
  | cons entry rest ih =>
    obtain ⟨first, old⟩ := entry
    unfold insertValue
    split
    · simp
    · split
      · simp
      · rename_i different
        rw [List.lookup_cons, beq_false_of_ne different, ih]

theorem lookupElsewhere (elsewhere : other ≠ name) (value : Text) (values : List (Text × Text)) :
    (insertValue name value values).lookup other = values.lookup other := by
  induction values with
  | nil => simp [insertValue, List.lookup_cons, beq_false_of_ne elsewhere]
  | cons entry rest ih =>
    obtain ⟨first, old⟩ := entry
    unfold insertValue
    split
    · rw [List.lookup_cons, beq_false_of_ne elsewhere]
    · split
      · rename_i same
        subst same
        simp only [List.lookup_cons, beq_false_of_ne elsewhere]
      · rw [List.lookup_cons, List.lookup_cons, ih]

theorem memberInserted (name : Text) (names : List Text) :
    other ∈ insertName name names ↔ other = name ∨ other ∈ names := by
  induction names with
  | nil => simp [insertName]
  | cons first rest ih =>
    unfold insertName
    split
    · simp
    · split
      · rename_i same
        subst same
        simp
      · rw [List.mem_cons, ih, List.mem_cons]
        exact or_left_comm

namespace Variables

theorem memberRecorded (names : List Text) (noted : Option Text) :
    other ∈ record names noted ↔ noted = some other ∨ other ∈ names := by
  cases noted with
  | none => simp [record]
  | some name => rw [record, memberInserted, Option.some.injEq, eq_comm]

structure Assigned (vars : Variables) (left : LeftSide) (value : Text) (after : Variables) : Prop where
  appends : ∀ old, left.append = true → vars.get? left.name = some old →
    after.get? left.name = some (old ++ ' ' :: value)
  stores : (left.append = true → vars.get? left.name = none) → after.get? left.name = some value
  elsewhere : ∀ other ≠ left.name, after.get? other = vars.get? other
  conditional : ∀ other, other ∈ after.conditional ↔
    left.conditional = some other ∨ other ∈ vars.conditional
  simple : ∀ other, other ∈ after.simple ↔ left.simple = some other ∨ other ∈ vars.simple

theorem setAssigned (vars : Variables) (raw value : Text) :
    vars.Assigned (.ofText raw) value (vars.set raw value) := by
  have here : (vars.set raw value).get? (LeftSide.ofText raw).name =
      some (vars.stored (.ofText raw) value) := lookupInserted _ _ _
  constructor
  · intro old append was
    rw [here, stored, if_pos append, was]
  · intro fresh
    rw [here, stored]
    split
    · rename_i append
      rw [fresh append]
    · rfl
  · exact fun _ different => lookupElsewhere different _ _
  · exact fun _ => memberRecorded _ _
  · exact fun _ => memberRecorded _ _

structure Unset (vars : Variables) (name : Text) (after : Variables) : Prop where
  gone : after.get? name = none
  elsewhere : ∀ other ≠ name, after.get? other = vars.get? other
  conditional : after.conditional = vars.conditional
  simple : after.simple = vars.simple

theorem unsetUnset (vars : Variables) (name : Text) : vars.Unset name (vars.unset name) where
  gone := lookupRemoved _ _
  elsewhere := fun _ different => lookupFiltered _ different
  conditional := rfl
  simple := rfl

end Variables
end MakeTree
