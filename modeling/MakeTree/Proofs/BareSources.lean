import MakeTree.Proofs.LineEndings
import MakeTree.Proofs.Turns

/-! While no file changes, a reader does not ask where a source comes from: it does with the bare source,
which is tied to no file, what it does with the source itself. -/
namespace MakeTree
open Text MakeTree.Action LineStream

def LineStream.bare (s : LineStream) : LineStream := { s with sources := s.sources.map Source.bare }

def Outcome.onto {σ τ α : Type} (o : Outcome σ α) (f : σ → τ) : Outcome τ α :=
  ⟨o.events, f o.state, o.result⟩

def Action.Mirrors {σ α : Type} (f : σ → σ) (x y : Action σ α) : Prop :=
  ∀ s, y none (f s) = (x none s).onto f

namespace Action
variable {σ α β : Type} {f : σ → σ} {x y : Action σ α}

theorem mirrorsPure (a : α) : Mirrors f (pure a : Action σ α) (pure a) := fun _ => rfl

theorem mirrorsBind {g h : α → Action σ β} (first : Mirrors f x y)
    (rest : ∀ a, Mirrors f (g a) (h a)) : Mirrors f (x >>= g) (y >>= h) := by
  intro s
  have here := first s
  cases outcome : x none s with
  | mk events t result =>
    rw [outcome] at here
    cases result with
    | error failure =>
      rw [bindFailed outcome, bindFailed here]
      rfl
    | ok a =>
      rw [bindReturned outcome, bindReturned here, rest a t]
      rfl

theorem mirrorsState {g h : σ → Action σ α} (rest : ∀ s, Mirrors f (g s) (h (f s))) :
    Mirrors f (state >>= g) (state >>= h) := by
  intro s
  rw [bindSilent (stateApply none s), bindSilent (stateApply none (f s))]
  exact rest s s

theorem mirrorsSet (s : σ) : Mirrors f (setState s) (setState (f s)) := fun _ => rfl

theorem mirrorsTell (event : Event) (rest : Mirrors f x y) :
    Mirrors f (emit event >>= fun _ => x) (emit event >>= fun _ => y) :=
  mirrorsBind (fun _ => rfl) fun _ => rest

theorem mirrorsIte {c : Prop} [Decidable c] {x' y' : Action σ α} (yes : Mirrors f x y)
    (no : Mirrors f x' y') : Mirrors f (if c then x else x') (if c then y else y') := by
  split
  · exact yes
  · exact no

end Action

namespace Source

theorem readLineBare : Mirrors bare readLine readLine := by
  rintro ⟨path, lines, number, ending, feed⟩
  cases lines with
  | cons line rest => rfl
  | nil => cases ending <;> rfl

theorem continuationBare (fuel : Nat) : Mirrors bare (continuation fuel) (continuation fuel) := by
  induction fuel with
  | zero => exact mirrorsPure _
  | succ fuel ih =>
    refine mirrorsBind readLineBare fun line => ?_
    cases line with
    | none => exact mirrorsPure _
    | some line =>
      refine mirrorsIte (mirrorsPure _) (mirrorsIte ?_ ?_)
      · exact mirrorsState fun _ => mirrorsTell _ ih
      · exact mirrorsIte (mirrorsBind ih fun _ => mirrorsPure _) (mirrorsPure _)

theorem joinBare (line : Text) : Mirrors bare (join line) (join line) :=
  mirrorsIte (mirrorsPure _) <| mirrorsState fun _ =>
    mirrorsBind (continuationBare _) fun _ => mirrorsPure _

end Source

theorem firstLineRead (source : Source) :
    firstLine none source = match Source.readLine none source.atSolid with
      | ⟨events, t, .ok line⟩ => ⟨events, t, .ok (line, t)⟩
      | ⟨events, t, .error failure⟩ => ⟨events, t, .error failure⟩ := by
  unfold firstLine
  rw [bindSilent (Source.skipBlankApply source)]
  cases outcome : Source.readLine none source.atSolid with
  | mk events t result =>
    cases result with
    | error failure => rw [bindFailed outcome]
    | ok line =>
      rw [bindReturned outcome]
      simp [bindSilent (stateApply none t)]

theorem onSourceBare {α : Type} {x : Action Source α} (mirrors : Mirrors Source.bare x x) (source : Source)
    (below : List Source) :
    Mirrors LineStream.bare (onSource source below x)
      (onSource source.bare (below.map Source.bare) x) := by
  intro s
  rw [onSourceApply, onSourceApply, mirrors source]
  rfl

theorem findLineBare (sources : List Source) :
    Mirrors LineStream.bare (findLine sources) (findLine (sources.map Source.bare)) := by
  induction sources with
  | nil => exact mirrorsState fun _ => mirrorsSet _
  | cons source below ih =>
    have rest (line : Option Text) (t : Source) : Mirrors LineStream.bare (withFirst below (line, t))
        (withFirst (below.map Source.bare) (line, t.bare)) := by
      cases line with
      | none => exact mirrorsTell _ ih
      | some line =>
        exact mirrorsState fun _ => mirrorsBind (mirrorsSet _) fun _ =>
          mirrorsBind (onSourceBare (Source.joinBare line) t below) fun _ =>
            mirrorsState fun _ => mirrorsSet _
    intro s
    have opened := onSourceApply source below firstLine none s
    have bared := onSourceApply source.bare (below.map Source.bare) firstLine none s.bare
    have read : Source.readLine none source.bare.atSolid = _ := Source.readLineBare source.atSolid
    rw [firstLineRead] at opened bared
    rw [read] at bared
    rw [List.map_cons, findLineCons, findLineCons]
    -- The source found is part of the result, so this is no mirrored action followed by another.
    cases outcome : Source.readLine none source.atSolid with
    | mk events t result =>
      rw [outcome] at opened bared
      cases result with
      | error failure =>
        rw [bindFailed opened, bindFailed bared]
        rfl
      | ok line =>
        have further := rest line t { s with sources := t :: below }
        rw [bindReturned opened, bindReturned bared]
        exact congrArg (Outcome.behind · events) further

theorem findLineSame {sources more : List Source} {s t : LineStream}
    (same : more.map Source.bare = sources.map Source.bare) (alike : t.bare = s.bare) :
    (findLine more none t).onto LineStream.bare = (findLine sources none s).onto LineStream.bare := by
  rw [← findLineBare sources s, ← findLineBare more t, alike, same]

theorem takeBare (deferred : Bool) : Mirrors LineStream.bare (take deferred) (take deferred) := by
  refine mirrorsTell _ (mirrorsState fun s => mirrorsBind (mirrorsSet s.atNext) fun _ => ?_)
  refine mirrorsIte (mirrorsBind ?_ fun _ => mirrorsPure _) (mirrorsPure _)
  exact mirrorsState fun s => findLineBare s.sources

end MakeTree
