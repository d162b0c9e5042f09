import MakeTree.Makefile
import MakeTree.Proofs.Lookahead

/-! What starting a stream, taking a line and entering a file do to the lines a stream shows. -/
namespace MakeTree
open Text

def FileTree.source? (files : FileTree) (path : Text) : Option Source :=
  match files.openFile path with
  | .ok (place, bytes) => some (.ofFile path place bytes [])
  | .error _ => none

inductive Origin where
  | file (path : Text)
  | text (path content : Text)
  deriving DecidableEq, Repr

namespace Origin

def path : Origin → Text
  | .file path => path
  | .text path _ => path

def source? (files : FileTree) : Origin → Option Source
  | .file path => files.source? path
  | .text path content => some (.ofText path content)

def workDir (files : FileTree) (workDir? : Option Text) (origin : Origin) : Text :=
  LineStream.workDirFor files origin.path workDir?

def start (files : FileTree) (workDir? : Option Text) : Origin → Action LineStream Unit
  | .file path => LineStream.startFile files path workDir?
  | .text path content => LineStream.startText files path content workDir?

end Origin

namespace LineStream

theorem findLineTells (s : LineStream) (sources : List Source) :
    OnlyTold (findLine sources none s).events := by
  have finds := findLineFinds s sources
  generalize findLine sources none s = o at finds
  cases finds with
  | whole messages => exact messages
  | broken messages member unsound => exact messages

theorem findLineReturned {s t : LineStream} {sources : List Source} {events : List Event}
    (ok : findLine sources none s = ⟨events, t, .ok ()⟩) : t = s.found sources := by
  have finds := findLineFinds s sources
  rw [ok] at finds
  cases finds with
  | whole messages => rfl

theorem findLineSound {s : LineStream} {sources : List Source}
    (sound : ∀ source ∈ sources, source.ending = .finished) :
    ∃ events, findLine sources none s = ⟨events, s.found sources, .ok ()⟩ := by
  have finds := findLineFinds s sources
  generalize findLine sources none s = o at finds
  cases finds with
  | whole messages => exact ⟨_, rfl⟩
  | broken messages member unsound => exact absurd (sound _ member) unsound

def atNext (s : LineStream) : LineStream := { s with location := s.nextLocation }

theorem takeDeferred (s : LineStream) :
    take true none s = ⟨[.took false], s.atNext, .ok s.next⟩ := rfl

theorem takeMoving (s : LineStream) :
    take false none s =
      ((do findLine s.sources; return s.next : Action LineStream Text) none s.atNext).behind
        [.took true] := rfl

theorem takeEvents (s : LineStream) :
    ∃ told, OnlyTold told ∧ (take false none s).events = .took true :: told := by
  rw [takeMoving]
  refine ⟨(findLine s.sources none s.atNext).events, findLineTells _ _, ?_⟩
  cases found : findLine s.sources none s.atNext with
  | mk events t result =>
    cases result with
    | error failure => rw [Action.bindFailed found]; rfl
    | ok a => rw [Action.bindReturned found]; simp

theorem takeReturned {s t : LineStream} {events : List Event} {line : Text}
    (ok : take false none s = ⟨events, t, .ok line⟩) :
    line = s.next ∧ t = s.atNext.found s.sources := by
  rw [takeMoving] at ok
  cases found : findLine s.sources none s.atNext with
  | mk events t' result =>
    cases result with
    | error failure => rw [Action.bindFailed found] at ok; cases ok
    | ok a =>
      rw [Action.bindReturned found] at ok
      cases ok
      exact ⟨rfl, findLineReturned found⟩

theorem takeThen {α : Type} (deferred : Bool) (f : Text → Action LineStream α) (s : LineStream) :
    (take deferred >>= f) none s = (take deferred >>= fun _ => f s.next) none s := by
  cases deferred with
  | true => rfl
  | false =>
    cases taken : take false none s with
    | mk events t result =>
      cases result with
      | error failure => rw [Action.bindFailed taken, Action.bindFailed taken]
      | ok line =>
        obtain ⟨rfl, _⟩ := takeReturned taken
        rw [Action.bindReturned taken, Action.bindReturned taken]

theorem takeSound {s : LineStream} (sound : s.Sound) :
    ∃ events, take false none s = ⟨events, s.atNext.found s.sources, .ok s.next⟩ := by
  obtain ⟨events, found⟩ := findLineSound (s := s.atNext) sound
  rw [takeMoving, Action.bindReturned found]
  exact ⟨_, rfl⟩

theorem takenShows {s : LineStream} {line : LogicalLine} {lines : List LogicalLine}
    (shows : s.Shows (line :: lines)) : (s.atNext.found s.sources).Shows lines := by
  have found := foundShows s.atNext s.sources
  rw [shows.behind] at found
  exact found

theorem taken {s : LineStream} {line : LogicalLine} {lines : List LogicalLine}
    (shows : s.Shows (line :: lines)) (sound : s.Sound) :
    ∃ events t, take false none s = ⟨events, t, .ok line.text⟩ ∧ t.Shows lines ∧ t.Sound ∧
      t.location = some line.location ∧ t.workDir = s.workDir := by
  obtain ⟨events, outcome⟩ := takeSound sound
  have keeps := foundKeeps s.atNext s.sources
  rw [shows.next] at outcome
  exact ⟨events, _, outcome, takenShows shows, foundSound sound,
    keeps.2.trans shows.nextLocation, keeps.1⟩

def target (s : LineStream) (path : Text) : Text := Path.normalJoin s.workDir path

def opening (path : Text) : Message :=
  ⟨.debug, .stream, "Reading makefile '".toList ++ path ++ ['\'']⟩

theorem pushClosed {s : LineStream} {files : FileTree} {path : Text} {reason : AccessError}
    (closed : files.openFile path = .error reason) :
    push files path none s =
      ⟨[.lookedUp path], s, .error (.ofAccess path s.location reason)⟩ := by
  simp [push, Action.bindApply, Outcome.andThen, closed]

theorem pushOpened {s : LineStream} {files : FileTree} {path : Text} {place : Place}
    {bytes : List UInt8} (opened : files.openFile path = .ok (place, bytes)) :
    push files path none s = ⟨[.lookedUp path, .told (opening path)],
      { s with sources := .ofFile path place bytes [] :: s.sources }, .ok ()⟩ := by
  simp only [push, Action.bindApply, Outcome.andThen, Action.emitApply, opened]
  rfl

def goInto (files : FileTree) (path : Text) : Action LineStream Unit := do
  push files path
  advance

theorem goIntoClosed {s : LineStream} {files : FileTree} {path : Text} {reason : AccessError}
    (closed : files.openFile path = .error reason) :
    goInto files path none s =
      ⟨[.lookedUp path], s, .error (.ofAccess path s.location reason)⟩ :=
  Action.bindFailed (pushClosed closed)

theorem goIntoOpened {s : LineStream} {files : FileTree} {path : Text} {place : Place}
    {bytes : List UInt8} (opened : files.openFile path = .ok (place, bytes)) :
    goInto files path none s =
      (findLine (.ofFile path place bytes [] :: s.sources) none
        { s with sources := .ofFile path place bytes [] :: s.sources }).behind
        [.lookedUp path, .told (opening path)] :=
  Action.bindReturned (pushOpened opened)

theorem goIntoReturned {s t : LineStream} {files : FileTree} {path : Text} {events : List Event}
    (ok : goInto files path none s = ⟨events, t, .ok ()⟩) :
    ∃ source, files.source? path = some source ∧ t = s.found (source :: s.sources) := by
  cases opened : files.openFile path with
  | error reason => rw [goIntoClosed opened] at ok; cases ok
  | ok file =>
    obtain ⟨place, bytes⟩ := file
    rw [goIntoOpened opened] at ok
    refine ⟨.ofFile path place bytes [], by simp [FileTree.source?, opened], ?_⟩
    generalize found : findLine _ none _ = o at ok
    obtain ⟨told, last, result⟩ := o
    cases ok
    rw [findLineReturned found, foundSources]

theorem goIntoSound {s : LineStream} {files : FileTree} {path : Text} {source : Source}
    (opened : files.source? path = some source) (finished : source.ending = .finished)
    (sound : s.Sound) :
    ∃ events, goInto files path none s = ⟨events, s.found (source :: s.sources), .ok ()⟩ := by
  unfold FileTree.source? at opened
  split at opened <;> try contradiction
  rename_i place bytes file
  cases Option.some.inj opened
  have all : ∀ other ∈ Source.ofFile path place bytes [] :: s.sources,
      other.ending = .finished := by
    intro other member
    rcases List.mem_cons.mp member with rfl | inside
    · exact finished
    · exact sound other inside
  obtain ⟨events, found⟩ := findLineSound (s := { s with sources := _ :: s.sources }) all
  rw [goIntoOpened file, found, foundSources]
  exact ⟨_, rfl⟩

theorem goIntoEvents (s : LineStream) (files : FileTree) (path : Text) :
    ∃ told, OnlyTold told ∧ (goInto files path none s).events = .lookedUp path :: told := by
  cases opened : files.openFile path with
  | error reason => exact ⟨[], onlyToldNil, by rw [goIntoClosed opened]⟩
  | ok file =>
    obtain ⟨place, bytes⟩ := file
    rw [goIntoOpened opened]
    exact ⟨_, onlyToldCons (findLineTells _ _), rfl⟩

theorem enterApply (s : LineStream) (files : FileTree) (path : Text) :
    enter files path none s =
      (goInto files (s.target path) none s).behind [.included (s.target path)] := rfl

theorem startFileApply (s : LineStream) (files : FileTree) (path : Text) (workDir? : Option Text) :
    startFile files path workDir? none s =
      goInto files path none (empty (workDirFor files path workDir?)) := rfl

theorem startTextApply (s : LineStream) (files : FileTree) (path content : Text)
    (workDir? : Option Text) :
    startText files path content workDir? none s =
      findLine [.ofText path content] none { empty (workDirFor files path workDir?) with
        sources := [.ofText path content] } := rfl

theorem enterReturned {s t : LineStream} {files : FileTree} {path : Text} {events : List Event}
    (ok : enter files path none s = ⟨events, t, .ok ()⟩) :
    ∃ source, files.source? (s.target path) = some source ∧ t = s.found (source :: s.sources) := by
  rw [enterApply] at ok
  generalize gone : goInto files (s.target path) none s = o at ok
  obtain ⟨told, last, result⟩ := o
  cases ok
  exact goIntoReturned gone

theorem enterSound {s : LineStream} {files : FileTree} {path : Text} {source : Source}
    (opened : files.source? (s.target path) = some source) (finished : source.ending = .finished)
    (sound : s.Sound) :
    ∃ events, enter files path none s = ⟨events, s.found (source :: s.sources), .ok ()⟩ := by
  obtain ⟨events, gone⟩ := goIntoSound opened finished sound
  rw [enterApply, gone]
  exact ⟨_, rfl⟩

theorem enterEvents (s : LineStream) (files : FileTree) (path : Text) :
    ∃ told, OnlyTold told ∧ (enter files path none s).events =
      .included (s.target path) :: .lookedUp (s.target path) :: told := by
  obtain ⟨told, messages, events⟩ := goIntoEvents s files (s.target path)
  exact ⟨told, messages, by rw [enterApply, Outcome.behind, events]; rfl⟩

end LineStream

namespace Origin
open LineStream

theorem startReturned {origin : Origin} {s t : LineStream} {files : FileTree}
    {workDir? : Option Text} {events : List Event}
    (ok : origin.start files workDir? none s = ⟨events, t, .ok ()⟩) :
    ∃ source, origin.source? files = some source ∧
      t = (empty (origin.workDir files workDir?)).found [source] := by
  cases origin with
  | file path =>
    change startFile files path workDir? none s = _ at ok
    rw [startFileApply] at ok
    exact goIntoReturned ok
  | text path content =>
    change startText files path content workDir? none s = _ at ok
    rw [startTextApply] at ok
    exact ⟨_, rfl, by rw [findLineReturned ok, foundSources]; rfl⟩

theorem startSound {origin : Origin} {files : FileTree} {source : Source}
    (opened : origin.source? files = some source) (finished : source.ending = .finished)
    (workDir? : Option Text) (s : LineStream) :
    ∃ events, origin.start files workDir? none s =
      ⟨events, (empty (origin.workDir files workDir?)).found [source], .ok ()⟩ := by
  cases origin with
  | file path => exact goIntoSound opened finished (by simp [Sound, empty])
  | text path content =>
    cases Option.some.inj opened
    have all : ∀ other ∈ [Source.ofText path content], other.ending = .finished := by
      simpa using finished
    obtain ⟨events, found⟩ := findLineSound (s := { empty (workDirFor files path workDir?) with
      sources := [Source.ofText path content] }) all
    rw [foundSources] at found
    exact ⟨events, found⟩

theorem startEvents (origin : Origin) (s : LineStream) (files : FileTree)
    (workDir? : Option Text) :
    ∃ first told, OnlyTold told ∧ (∀ event ∈ first, event = .lookedUp origin.path) ∧
      (origin.start files workDir? none s).events = first ++ told := by
  cases origin with
  | file path =>
    obtain ⟨told, messages, events⟩ :=
      goIntoEvents (empty (workDirFor files path workDir?)) files path
    exact ⟨[.lookedUp path], told, messages, by simp [Origin.path], events⟩
  | text path content =>
    exact ⟨[], _, findLineTells _ _, by simp, rfl⟩

end Origin
end MakeTree
