import Mathlib.Data.List.Sort
import Mathlib.Data.String.Basic
import MakeTree.Journal
import MakeTree.Proofs.Lookups

/-! Names stand in ascending order of code points, each of them once, whatever was assigned and taken
back. Variables of that kind are the same as soon as they give the same answers. -/
namespace MakeTree
open Text

theorem insertAscending {names : List Text} (ascending : names.Pairwise (· < ·)) (name : Text) :
    (insertName name names).Pairwise (· < ·) := by
  induction ascending with
  | nil => exact List.pairwise_singleton ..
  | @cons first rest below ascending ih =>
    unfold insertName
    split
    · rename_i before
      have all : ∀ other ∈ first :: rest, name < other := by
        intro other member
        rcases List.mem_cons.mp member with rfl | later
        · exact before
        · exact lt_trans before (below other later)
      exact .cons all (.cons below ascending)
    · split
      · exact .cons below ascending
      · rename_i behind different
        have first_lt : first < name := lt_of_le_of_ne (not_lt.mp behind) (Ne.symm different)
        refine .cons (fun other member => ?_) ih
        rcases (memberInserted name rest).mp member with rfl | later
        · exact first_lt
        · exact below other later

theorem namesInserted (name value : Text) (values : List (Text × Text)) :
    (insertValue name value values).map (·.1) = insertName name (values.map (·.1)) := by
  induction values with
  | nil => rfl
  | cons entry rest ih =>
    obtain ⟨first, old⟩ := entry
    simp only [insertValue, insertName, List.map_cons]
    split
    · rfl
    · split
      · rename_i same
        rw [List.map_cons, same]
      · rw [List.map_cons, ih]

theorem lookupAscending {values : List (Text × Text)} {name value : Text}
    (ascending : (values.map (·.1)).Pairwise (· < ·)) :
    values.lookup name = some value ↔ (name, value) ∈ values := by
  induction values with
  | nil => simp
  | cons entry rest ih =>
    obtain ⟨first, old⟩ := entry
    obtain ⟨below, further⟩ := List.pairwise_cons.mp ascending
    rw [List.lookup_cons, List.mem_cons, Prod.mk.injEq]
    by_cases here : name = first
    · subst here
      have none : (name, value) ∉ rest := fun later =>
        lt_irrefl name (below name (List.mem_map.mpr ⟨_, later, rfl⟩))
      simp [none, eq_comm]
    · rw [beq_false_of_ne here]
      simp [here, ih further]

theorem recordAscending {names : List Text} (ascending : names.Pairwise (· < ·))
    (noted : Option Text) : (Variables.record names noted).Pairwise (· < ·) := by
  cases noted with
  | none => exact ascending
  | some name => exact insertAscending ascending name

namespace Variables

structure Ascending (vars : Variables) : Prop where
  values : (vars.values.map (·.1)).Pairwise (· < ·)
  conditional : vars.conditional.Pairwise (· < ·)
  simple : vars.simple.Pairwise (· < ·)

theorem emptyAscending : empty.Ascending := ⟨.nil, .nil, .nil⟩

theorem setAscending {vars : Variables} (ascending : vars.Ascending) (raw value : Text) :
    (vars.set raw value).Ascending where
  values := by
    rw [set, namesInserted]
    exact insertAscending ascending.values _
  conditional := recordAscending ascending.conditional _
  simple := recordAscending ascending.simple _

theorem unsetAscending {vars : Variables} (ascending : vars.Ascending) (name : Text) :
    (vars.unset name).Ascending where
  values := ascending.values.sublist (List.filter_sublist.map _)
  conditional := ascending.conditional
  simple := ascending.simple

theorem getAscending {vars : Variables} (ascending : vars.Ascending) {name value : Text} :
    vars.get? name = some value ↔ (name, value) ∈ vars.values := lookupAscending ascending.values

theorem ascendingSame {vars others : Variables} (left : vars.Ascending) (right : others.Ascending)
    (values : ∀ name, vars.get? name = others.get? name)
    (conditional : ∀ name, name ∈ vars.conditional ↔ name ∈ others.conditional)
    (simple : ∀ name, name ∈ vars.simple ↔ name ∈ others.simple) : vars = others := by
  have pairs : vars.values = others.values := by
    -- The order of the names is an order of the pairs as well.
    have ordered (list : List (Text × Text)) (ascending : (list.map (·.1)).Pairwise (· < ·)) :
        list.Pairwise fun p q => p.1 < q.1 := List.pairwise_map.mp ascending
    have asymmetric : Std.Antisymm fun p q : Text × Text => p.1 < q.1 :=
      ⟨fun _ _ first second => absurd first (lt_asymm second)⟩
    have irreflexive : Std.Irrefl fun p q : Text × Text => p.1 < q.1 := ⟨fun _ => lt_irrefl _⟩
    refine (ordered _ left.values).eq_of_mem_iff (ordered _ right.values) ?_
    rintro ⟨name, value⟩
    rw [← getAscending left, ← getAscending right, values]
  have first : vars.conditional = others.conditional :=
    left.conditional.eq_of_mem_iff right.conditional conditional
  have second : vars.simple = others.simple := left.simple.eq_of_mem_iff right.simple simple
  cases vars
  cases others
  simp_all

end Variables

theorem applyAscending {vars : Variables} (ascending : vars.Ascending) (event : Event) :
    (event.apply vars).Ascending := by
  cases event with
  | assigned raw value => exact Variables.setAscending ascending raw value
  | unassigned name => exact Variables.unsetAscending ascending name
  | _ => exact ascending

theorem replayAscending {vars : Variables} (ascending : vars.Ascending) (events : List Event) :
    (replay vars events).Ascending := by
  induction events generalizing vars with
  | nil => exact ascending
  | cons event rest ih => exact ih (applyAscending ascending event)

end MakeTree
