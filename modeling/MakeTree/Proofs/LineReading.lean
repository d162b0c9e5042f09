import Mathlib.Tactic.Choose
import MakeTree.Block.Open
import MakeTree.Proofs.Unlogged

/-! Reading one line at the place of a statement or as a step of a recipe. Unless the line is an
include directive, what comes of it depends on the line and on where it stands, and the stream is
left alone. -/
namespace MakeTree
open Text

def Event.isAside : Event → Bool
  | .peeked | .took _ | .included _ => false
  | _ => true

def Idle (events : List Event) : Prop := events.all Event.isAside = true

theorem idleNil : Idle [] := rfl

theorem idleOne {event : Event} (aside : event.isAside = true) : Idle [event] := by
  simp [Idle, aside]

theorem idleAppend {first second : List Event} (left : Idle first) (right : Idle second) :
    Idle (first ++ second) := by
  simp only [Idle, List.all_append, Bool.and_eq_true]
  exact ⟨left, right⟩

theorem onlyToldIdle {events : List Event} (told : OnlyTold events) : Idle events := by
  refine List.all_eq_true.mpr fun event member => ?_
  obtain ⟨message, rfl⟩ := told event member
  rfl

def LineStream.standing (location : Location) : LineStream :=
  { LineStream.empty [] with location := some location }

namespace Action
variable {σ τ α β : Type}

def Quiet (x : Action σ α) : Prop := ∀ s, Idle (x none s).events

theorem quietPure (a : α) : (pure a : Action σ α).Quiet := fun _ => idleNil

theorem quietFail (failure : Failure) : (fail failure : Action σ α).Quiet := fun _ => idleNil

theorem quietState : (state : Action σ σ).Quiet := fun _ => idleNil

theorem quietSetState (s : σ) : (setState s).Quiet := fun _ => idleNil

theorem quietEmit {event : Event} (aside : event.isAside = true) :
    (emit event : Action σ Unit).Quiet := fun _ => idleOne aside

theorem quietBind {x : Action σ α} {f : α → Action σ β} (first : x.Quiet)
    (rest : ∀ a, (f a).Quiet) : (x >>= f).Quiet := by
  intro s
  have idle := first s
  cases outcome : x none s with
  | mk events t result =>
    rw [outcome] at idle
    cases result with
    | error failure => rw [bindFailed outcome]; exact idle
    | ok a => rw [bindReturned outcome]; exact idleAppend idle (rest a t)

structure Stateless (x : Action σ α) : Prop where
  quiet : x.Quiet
  same : ∀ s t, x none s = { x none t with state := s }

theorem statelessPure (a : α) : (pure a : Action σ α).Stateless := ⟨quietPure a, fun _ _ => rfl⟩

theorem statelessFail (failure : Failure) : (fail failure : Action σ α).Stateless :=
  ⟨quietFail failure, fun _ _ => rfl⟩

theorem statelessEmit {event : Event} (aside : event.isAside = true) :
    (emit event : Action σ Unit).Stateless := ⟨quietEmit aside, fun _ _ => rfl⟩

theorem statelessWithin {x : Action τ α} (quiet : x.Quiet) (inner : τ) :
    (within inner x : Action σ (α × τ)).Stateless := ⟨fun _ => quiet inner, fun _ _ => rfl⟩

theorem Stateless.state {x : Action σ α} (stateless : x.Stateless) (s : σ) :
    (x none s).state = s := congrArg Outcome.state (stateless.same s s)

theorem statelessBind {x : Action σ α} {f : α → Action σ β} (first : x.Stateless)
    (rest : ∀ a, (f a).Stateless) : (x >>= f).Stateless := by
  refine ⟨quietBind first.quiet fun a => (rest a).quiet, fun s t => ?_⟩
  have here := first.same s t
  have there := first.state t
  cases outcome : x none t with
  | mk events u result =>
    rw [outcome] at here there
    cases there
    cases result with
    | error failure => rw [bindFailed outcome, bindFailed here]
    | ok a =>
      rw [bindReturned outcome, bindReturned here, (rest a).same s u]
      rfl

theorem statelessIte {c : Prop} [Decidable c] {x y : Action σ α} (yes : x.Stateless)
    (no : y.Stateless) : (if c then x else y).Stateless := by
  split
  · exact yes
  · exact no

/-- What the action does hangs on the location of the line taken last and on nothing else of the
stream, which stays as it is. -/
def Detached (x : Action LineStream α) : Prop :=
  ∀ location, ∃ y : Action LineStream α, y.Stateless ∧
    ∀ s, s.location = some location → x none s = y none s

theorem detachedStateless {x : Action LineStream α} (stateless : x.Stateless) : x.Detached :=
  fun _ => ⟨x, stateless, fun _ _ => rfl⟩

theorem detachedBind {x : Action LineStream α} {f : α → Action LineStream β} (first : x.Detached)
    (rest : ∀ a, (f a).Detached) : (x >>= f).Detached := by
  intro location
  obtain ⟨y, stateless, same⟩ := first location
  -- What stands for the rest depends on the result of the first action, not on the stream.
  choose g onward alike using fun a => rest a location
  refine ⟨y >>= g, statelessBind stateless onward, fun s located => ?_⟩
  have here := same s located
  have there := stateless.state s
  cases outcome : y none s with
  | mk events t result =>
    rw [outcome] at here there
    cases there
    cases result with
    | error failure => rw [bindFailed outcome, bindFailed here]
    | ok a => rw [bindReturned outcome, bindReturned here, alike a t located]

theorem detachedLocated {f : LineStream → Action LineStream α}
    (detached : ∀ s location, s.location = some location → (f s).Detached)
    (same : ∀ s t location, s.location = some location → t.location = some location → f s = f t) :
    (state >>= f).Detached := by
  intro location
  obtain ⟨y, stateless, alike⟩ := detached (LineStream.standing location) location rfl location
  refine ⟨y, stateless, fun s located => ?_⟩
  rw [bindSilent (stateApply none s), same s (LineStream.standing location) location located rfl,
    alike s located]

end Action
open MakeTree.Action

theorem detachedApply {α : Type} {x : Action LineStream α} (detached : x.Detached) {s : LineStream}
    {location : Location} (located : s.location = some location) :
    ∃ events, Idle events ∧
      x none s = ⟨events, s, (x none (LineStream.standing location)).result⟩ := by
  obtain ⟨y, stateless, same⟩ := detached location
  have there := same (LineStream.standing location) rfl
  rw [same s located, there, stateless.same s (LineStream.standing location)]
  exact ⟨_, stateless.quiet _, rfl⟩

theorem assignStateless {σ : Type} (vars : Variables) (raw value : Text) :
    (assign vars raw value : Action σ _).Stateless :=
  statelessBind (statelessEmit rfl) fun _ => statelessBind (statelessEmit rfl) fun _ => statelessPure _

theorem readVariableStateless {σ : Type} (vars : Variables) (line : Text)
    (location : Option Location) : (readVariable vars line location : Action σ _).Stateless := by
  unfold readVariable
  simp only
  split
  · exact statelessFail _
  · split
    · exact statelessFail _
    · split
      · exact statelessBind (statelessEmit rfl) fun _ => statelessPure _
      · split
        · exact statelessFail _
        · split
          · exact statelessFail _
          · exact statelessBind (assignStateless _ _ _) fun _ => statelessPure _

namespace Recipe

theorem changeDirectoryQuiet (files : FileTree) (target : Text) (location : Option Location) :
    (changeDirectory files target location).Quiet := by
  unfold changeDirectory
  refine quietBind quietState fun directory => quietBind (quietEmit rfl) fun _ => ?_
  split
  · exact quietBind (quietEmit rfl) fun _ => quietSetState _
  · exact quietEmit rfl

theorem findManifestQuiet {σ : Type} (location : Option Location) (words : List Text) :
    (findManifest location words : Action σ (Option Text)).Quiet := by
  induction words with
  | nil => exact quietPure none
  | cons word rest ih =>
    unfold findManifest
    split
    · split
      · exact quietPure _
      · exact quietBind (quietEmit rfl) fun _ => quietPure _
    · split
      · exact quietPure _
      · exact ih

theorem manifestDirectoryQuiet (root manifest : Text) (location : Option Location) :
    (manifestDirectory root manifest location).Quiet := by
  unfold manifestDirectory
  refine quietBind quietState fun directory => ?_
  simp only
  split
  · exact quietBind (quietEmit rfl) fun _ => quietPure _
  · exact quietPure _

theorem readCargoQuiet (root line : Text) (location : Option Location) :
    (readCargo root line location).Quiet := by
  unfold readCargo
  split
  · exact quietBind (quietEmit rfl) fun _ => quietPure _
  · refine quietBind (findManifestQuiet location _) fun manifest => ?_
    split
    · exact quietPure _
    · exact quietBind (manifestDirectoryQuiet root _ location) fun _ => quietPure _

theorem readStepQuiet (setting : Setting) (vars : Variables) (line : Text)
    (location : Option Location) : (readStep setting vars line location).Quiet := by
  unfold readStep
  simp only
  split
  · exact quietPure _
  · split
    · exact (readVariableStateless _ _ _).quiet
    · exact (readVariableStateless _ _ _).quiet
    · split
      · exact quietFail _
      · split
        · exact quietBind (readCargoQuiet _ _ _) fun _ => quietPure _
        · split
          · split
            · exact quietBind (changeDirectoryQuiet _ _ _) fun _ => quietPure _
            · exact quietBind (quietEmit rfl) fun _ => quietPure _
          · exact quietPure _

end Recipe

theorem openLinkDetached (line : Text) : (openLink line).Detached := by
  refine detachedLocated (fun s location located => ?_) fun s t location here there => ?_
  · refine detachedStateless ?_
    simp only
    split
    · exact statelessFail _
    · exact statelessPure _
  · rw [here, there]

theorem openRuleDetached (setting : Setting) (vars : Variables) (line : Text) :
    (openRule setting vars line).Detached := by
  refine detachedLocated (fun s location located => ?_) fun s t location here there => ?_
  · refine detachedStateless ?_
    simp only
    split
    · exact statelessFail _
    · split
      · exact statelessFail _
      · exact statelessIte (statelessPure _)
          (statelessBind (statelessWithin (Recipe.readStepQuiet _ _ _ _) _) fun _ => statelessPure _)
  · simp only [here, there]

theorem beginDetached {setting : Setting} {vars : Variables} {line : Text}
    (other : LineKind.of (trim line) ≠ .inclusion) :
    (beginStatement setting vars line).Detached := by
  refine detachedLocated (fun s location located => ?_) fun s t location here there => ?_
  · simp only
    split
    · exact detachedStateless (statelessPure _)
    · exact detachedBind (detachedStateless (readVariableStateless _ _ _)) fun _ =>
        detachedStateless (statelessPure _)
    · exact detachedStateless (statelessBind (assignStateless _ _ _) fun _ => statelessPure _)
    · contradiction
    · exact detachedBind (openLinkDetached _) fun _ => detachedStateless (statelessPure _)
    · exact detachedStateless (statelessFail _)
    · exact detachedBind (openRuleDetached _ _ _) fun _ => detachedStateless (statelessPure _)
    · exact detachedStateless (statelessBind (statelessEmit rfl) fun _ => statelessPure _)
  · simp only [here, there]

end MakeTree
