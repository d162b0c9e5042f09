import MakeTree.Proofs.LineReading
import MakeTree.Proofs.StreamSteps

/-! The bargain between a stream and its reader. A line that names a file is handed over without
moving on; then the reader has to enter the file before it asks for anything else. The bargain is an
automaton over events, which keeps account of the lines that have not been handed over yet. -/
namespace MakeTree
open Text

inductive Phase where
  | moving (lines : List LogicalLine)
  | waiting (lines : List LogicalLine)
  | halted
  deriving DecidableEq, Repr

namespace Phase

def after (files : FileTree) : Phase → Event → Option Phase
  | .moving lines, .peeked => some (.moving lines)
  | .moving (_ :: lines), .took true => some (.moving lines)
  | .moving (_ :: lines), .took false => some (.waiting lines)
  | .waiting lines, .included path => some <| match files.source? path with
    | some source => .moving (source.remaining ++ lines)
    | none => .halted
  | phase, event => if event.isAside then some phase else none

def replay (files : FileTree) : Phase → List Event → Option Phase
  | phase, [] => some phase
  | phase, event :: rest => do replay files (← phase.after files event) rest

def MayStop : Phase → Cause → Prop
  | .moving _, _ => True
  | .waiting _, cause => cause = .noIncludePath
  | .halted, cause => (∃ path reason, cause = .cannotOpen path reason) ∨ cause = .nullPath

theorem replayAppend (files : FileTree) (phase : Phase) (first second : List Event) :
    phase.replay files (first ++ second) =
      (phase.replay files first).bind fun middle => middle.replay files second := by
  induction first generalizing phase with
  | nil => rfl
  | cons event rest ih =>
    simp only [List.cons_append, replay, bind, Option.bind]
    cases phase.after files event with
    | none => rfl
    | some next => exact ih next

theorem afterAside (files : FileTree) (phase : Phase) {event : Event}
    (aside : event.isAside = true) : phase.after files event = some phase := by
  cases event with
  | peeked | took _ | included _ => cases aside
  | told _ | assigned _ _ | unassigned _ | lookedUp _ | printed _ | reported _ => cases phase <;> simp [after, aside]

theorem replayIdle (files : FileTree) (phase : Phase) {events : List Event} (idle : Idle events) :
    phase.replay files events = some phase := by
  induction events with
  | nil => rfl
  | cons event rest ih =>
    simp only [Idle, List.all_cons, Bool.and_eq_true] at idle
    simp only [replay, afterAside files phase idle.1, bind, Option.bind]
    exact ih idle.2

end Phase

def Entered (events : List Event) : Prop := ∃ path, .included path ∈ events

theorem enteredLeft {first : List Event} (entered : Entered first) (second : List Event) :
    Entered (first ++ second) :=
  entered.imp fun _ member => List.mem_append_left second member

theorem enteredRight {second : List Event} (entered : Entered second) (first : List Event) :
    Entered (first ++ second) :=
  entered.imp fun _ member => List.mem_append_right first member

inductive LineStream.Onward (files : FileTree) (start : LineStream) : LineStream → Prop where
  | here : Onward files start start
  | taken {s t deferred events line} (before : Onward files start s)
      (ok : take deferred none s = ⟨events, t, .ok line⟩) : Onward files start t
  | entered {s t path events} (before : Onward files start s)
      (ok : enter files path none s = ⟨events, t, .ok ()⟩) : Onward files start t

namespace LineStream

theorem Onward.trans {files : FileTree} {s t u : LineStream} (first : Onward files s t)
    (second : Onward files t u) : Onward files s u := by
  induction second with
  | here => exact first
  | taken _ ok ih => exact .taken ih ok
  | entered _ ok ih => exact .entered ih ok

theorem Onward.workDir {files : FileTree} {s t : LineStream} (onward : Onward files s t) :
    t.workDir = s.workDir := by
  induction onward with
  | here => rfl
  | @taken u v deferred events line before ok ih =>
    rw [← ih]
    cases deferred with
    | true => rw [takeDeferred] at ok; cases ok; rfl
    | false => rw [(takeReturned ok).2]; exact (foundKeeps _ _).1
  | @entered u v path events before ok ih =>
    obtain ⟨source, _, rfl⟩ := enterReturned ok
    rw [← ih]
    exact (foundKeeps _ _).1

end LineStream

namespace Action
variable {α β : Type}

/-- From `phase` on, the action keeps the bargain; if it gives a result, `post` holds of its events,
of the result and of what it has come to. -/
def Follows (files : FileTree) (phase : Phase) (x : Action LineStream α) (s : LineStream)
    (post : List Event → α → LineStream → Phase → Prop) : Prop :=
  ∃ reached, phase.replay files (x none s).events = some reached ∧
    match (x none s).result with
    | .ok a => post (x none s).events a (x none s).state reached
    | .error failure => reached.MayStop failure.cause

variable {files : FileTree} {phase : Phase} {s : LineStream} {x : Action LineStream α}
  {post : List Event → α → LineStream → Phase → Prop}

theorem followsPure {a : α} (holds : post [] a s phase) :
    (pure a : Action LineStream α).Follows files phase s post := ⟨phase, rfl, holds⟩

theorem followsFail {failure : Failure} (stop : phase.MayStop failure.cause) :
    (fail failure : Action LineStream α).Follows files phase s post := ⟨phase, rfl, stop⟩

theorem followsWeaken {weaker : List Event → α → LineStream → Phase → Prop}
    (strong : x.Follows files phase s post)
    (weaken : ∀ events a t q, post events a t q → weaker events a t q) :
    x.Follows files phase s weaker := by
  obtain ⟨reached, events, rest⟩ := strong
  refine ⟨reached, events, ?_⟩
  cases result : (x none s).result with
  | error failure => rw [result] at rest; exact rest
  | ok a => rw [result] at rest; exact weaken _ _ _ _ rest

theorem followsBind {f : α → Action LineStream β}
    {whole : List Event → β → LineStream → Phase → Prop} (first : x.Follows files phase s post)
    (rest : ∀ before a t q, post before a t q →
      (f a).Follows files q t fun events => whole (before ++ events)) :
    (x >>= f).Follows files phase s whole := by
  obtain ⟨reached, replayed, after⟩ := first
  cases outcome : x none s with
  | mk events t result =>
    rw [outcome] at replayed after
    cases result with
    | error failure =>
      refine ⟨reached, ?_, ?_⟩
      · rw [bindFailed outcome]; exact replayed
      · rw [bindFailed outcome]; exact after
    | ok a =>
      obtain ⟨final, onward, result⟩ := rest events a t reached after
      refine ⟨final, ?_, ?_⟩
      · rw [bindReturned outcome, Outcome.behind, Phase.replayAppend, replayed]
        exact onward
      · rw [bindReturned outcome]
        exact result

theorem followsState {f : LineStream → Action LineStream α}
    (rest : (f s).Follows files phase s post) : (state >>= f).Follows files phase s post := by
  unfold Follows
  rw [bindSilent (stateApply none s)]
  exact rest

theorem followsRemark {c : Prop} [Decidable c] {event : Event} (aside : event.isAside = true)
    (rest : x.Follows files phase s post)
    (further : ∀ events a t q, post events a t q → post (event :: events) a t q) :
    (if c then emit event >>= fun _ => x else x).Follows files phase s post := by
  split
  · have told : (emit event).Follows files phase s fun events _ t q =>
        events = [event] ∧ t = s ∧ q = phase :=
      ⟨phase, phase.replayIdle files (idleOne aside), rfl, rfl, rfl⟩
    refine followsBind told fun before _ t q same => ?_
    obtain ⟨rfl, rfl, rfl⟩ := same
    exact followsWeaken rest further
  · exact rest

theorem followsDetached {location : Location} (detached : x.Detached)
    (located : s.location = some location) (free : ∀ cause, phase.MayStop cause)
    (rest : ∀ events a, (x none (LineStream.standing location)).result = .ok a →
      post events a s phase) :
    x.Follows files phase s post := by
  obtain ⟨events, idle, outcome⟩ := detachedApply detached located
  unfold Follows
  rw [outcome]
  refine ⟨phase, phase.replayIdle files idle, ?_⟩
  simp only
  split
  · rename_i a result
    exact rest events a result
  · exact free _

end Action

namespace LineStream
variable {files : FileTree} {s : LineStream} {lines : List LogicalLine}

theorem peekFollows : peek.Follows files (.moving lines) s fun _ text t phase =>
    text = s.next ∧ t = s ∧ phase = .moving lines := ⟨.moving lines, rfl, rfl, rfl, rfl⟩

theorem atEndFollows : atEnd.Follows files (.moving lines) s fun _ eof t phase =>
    eof = s.eof ∧ t = s ∧ phase = .moving lines := ⟨.moving lines, rfl, rfl, rfl, rfl⟩

structure Left (files : FileTree) (s : LineStream) (line : LogicalLine) (lines : List LogicalLine)
    (deferred : Bool) (t : LineStream) (phase : Phase) : Prop where
  onward : Onward files s t
  location : t.location = some line.location
  phase : phase = if deferred then .waiting lines else .moving lines
  lines : if deferred then pending t.sources = lines else t.Shows lines

theorem takeFollows {line : LogicalLine} (shows : s.Shows (line :: lines)) (deferred : Bool) :
    (take deferred).Follows files (.moving (line :: lines)) s fun _ text t phase =>
      text = line.text ∧ Left files s line lines deferred t phase := by
  cases deferred with
  | true =>
    refine ⟨.waiting lines, rfl, shows.next, ?_⟩
    exact ⟨.taken .here (takeDeferred s), shows.nextLocation, rfl, shows.behind⟩
  | false =>
    -- A fault may keep the line after it from being found, but this one has been handed over.
    obtain ⟨told, messages, events⟩ := takeEvents s
    refine ⟨.moving lines, ?_, ?_⟩
    · rw [events]
      exact Phase.replayIdle files _ (onlyToldIdle messages)
    · cases outcome : take false none s with
      | mk events t result =>
        cases result with
        | error failure => trivial
        | ok text =>
          obtain ⟨rfl, rfl⟩ := takeReturned outcome
          refine ⟨shows.next, .taken .here outcome, ?_, rfl, takenShows shows⟩
          exact (foundKeeps _ _).2.trans shows.nextLocation

theorem sourceClosed {path : Text} (closed : files.source? path = none) :
    ∃ reason, files.openFile path = .error reason := by
  unfold FileTree.source? at closed
  split at closed
  · cases closed
  · exact ⟨_, by assumption⟩

theorem enterFollows (path : Text) (behind : pending s.sources = lines) :
    (enter files path).Follows files (.waiting lines) s fun events _ t phase =>
      Entered events ∧ Onward files s t ∧ ∃ source, files.source? (s.target path) = some source ∧
        t.Shows (source.remaining ++ lines) ∧ phase = .moving (source.remaining ++ lines) := by
  obtain ⟨told, messages, events⟩ := enterEvents s files path
  have idle : Idle (.lookedUp (s.target path) :: told) :=
    idleAppend (idleOne rfl) (onlyToldIdle messages)
  cases opened : files.source? (s.target path) with
  | none =>
    obtain ⟨reason, closed⟩ := sourceClosed opened
    refine ⟨.halted, ?_, ?_⟩
    · rw [events, Phase.replay, Phase.after, opened]
      exact Phase.halted.replayIdle files idle
    · rw [enterApply, goIntoClosed closed]
      cases reason with
      | nullByte => exact .inr rfl
      | missing | notDirectory | isDirectory | nameTooLong => exact .inl ⟨_, _, rfl⟩
  | some source =>
    refine ⟨.moving (source.remaining ++ lines), ?_, ?_⟩
    · rw [events, Phase.replay, Phase.after, opened]
      exact (Phase.moving (source.remaining ++ lines)).replayIdle files idle
    · cases outcome : enter files path none s with
      | mk whole t result =>
        cases result with
        | error failure => trivial
        | ok done =>
          obtain ⟨source', opened', rfl⟩ := enterReturned outcome
          cases Option.some.inj (opened.symm.trans opened')
          have shows := foundShows s (source :: s.sources)
          rw [pending, List.flatMap_cons, ← pending, behind] at shows
          have entered : Entered whole := by
            rw [outcome] at events
            exact ⟨_, events ▸ List.mem_cons_self ..⟩
          exact ⟨entered, .entered .here outcome, source, rfl, shows, rfl⟩

end LineStream
end MakeTree
