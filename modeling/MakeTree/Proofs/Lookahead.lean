import MakeTree.LineStream
import MakeTree.Proofs.LogicalLines

/-! The line ahead of a stream. Whatever sources are open, the stream shows the first of the logical
lines they still hold, and moving on leaves the others: exhausted sources are put away on the way,
and only a fault in a source that has run out of lines can stop it. -/
namespace MakeTree
open Text

namespace Source

def atSolid (s : Source) : Source := s.past (s.lines.takeWhile allBlank).length

theorem atSolidLines (s : Source) : s.atSolid.lines = s.lines.dropWhile allBlank := by
  have split := List.takeWhile_append_dropWhile (p := allBlank) (l := s.lines)
  have dropped := congrArg (List.drop (s.lines.takeWhile allBlank).length) split
  rw [List.drop_left] at dropped
  exact dropped.symm

theorem skipBlankApply (s : Source) : skipBlank none s = ⟨[], s.atSolid, .ok ()⟩ := by
  have lines := atSolidLines s
  simp only [atSolid, past] at lines
  simp [skipBlank, grow, atSolid, past, lines]

theorem remainingAtSolid (s : Source) : s.atSolid.remaining = s.remaining := by
  simp only [remaining, atSolidLines]
  exact (logicalLinesBlank s.path s.lineNumber s.lines).symm

theorem atSolidHead {s : Source} {line : Text} {rest : List Text}
    (lines : s.atSolid.lines = line :: rest) : allBlank line = false := by
  rw [atSolidLines] at lines
  have solid := List.head?_dropWhile_not allBlank s.lines
  rw [lines] at solid
  simpa using solid

theorem remainingCons {s : Source} {line : Text} {rest : List Text}
    (lines : s.atSolid.lines = line :: rest) :
    s.remaining = ⟨(joined line rest).text, ⟨s.path, s.atSolid.lineNumber + 1⟩⟩ ::
      ((s.atSolid.past 1).past (joined line rest).length).remaining := by
  rw [← remainingAtSolid, remaining, lines, logicalLinesCons _ _ _ _ (atSolidHead lines)]
  simp only [remaining, pastLines, pastNumber, pastPath, lines, List.drop_succ_cons, List.drop_zero]
  rfl

theorem remainingNil {s : Source} (lines : s.atSolid.lines = []) : s.remaining = [] := by
  rw [← remainingAtSolid, remaining, lines]
  rfl

end Source

namespace LineStream

def found (s : LineStream) : List Source → LineStream
  | [] => { s with sources := [], eof := true, next := [], nextLocation := none }
  | source :: below =>
    match source.atSolid.lines with
    | [] => found s below
    | line :: rest => { s with
        sources := (source.atSolid.past 1).past (joined line rest).length :: below
        eof := false
        next := (joined line rest).text
        nextLocation := some ⟨source.path, source.atSolid.lineNumber + 1⟩ }

theorem foundSources (s : LineStream) (before sources : List Source) :
    ({ s with sources := before } : LineStream).found sources = s.found sources := by
  induction sources with
  | nil => rfl
  | cons source below ih =>
    simp only [found]
    split
    · exact ih
    · rfl

theorem foundKeeps (s : LineStream) (sources : List Source) :
    (s.found sources).workDir = s.workDir ∧ (s.found sources).location = s.location := by
  induction sources with
  | nil => exact ⟨rfl, rfl⟩
  | cons source below ih =>
    simp only [found]
    split
    · exact ih
    · exact ⟨rfl, rfl⟩

theorem onSourceApply {α : Type} (source : Source) (below : List Source) (x : Action Source α)
    (log : Log) (s : LineStream) :
    onSource source below x log s =
      ⟨(x log source).events, { s with sources := (x log source).state :: below },
        (x log source).result⟩ := rfl

inductive Finds (s : LineStream) (sources : List Source) : Outcome LineStream Unit → Prop where
  | whole {events} (messages : OnlyTold events) : Finds s sources ⟨events, s.found sources, .ok ()⟩
  | broken {source events t fault location} (messages : OnlyTold events) (member : source ∈ sources)
      (unsound : source.ending ≠ .finished) :
      Finds s sources ⟨events, t, .error ⟨.undecodable fault, some location⟩⟩

def firstLine : Action Source (Option Text × Source) := do
  Source.skipBlank
  let first ← Source.readLine
  return (first, ← Action.state)

def withFirst (below : List Source) : Option Text × Source → Action LineStream Unit
  | (none, source) => do
    Action.emit (.debug .stream ("Finished reading makefile '".toList ++ source.path ++ ['\'']))
    findLine below
  | (some line, source) => do
    let s ← Action.state
    Action.setState { s with nextLocation := some ⟨source.path, source.lineNumber⟩ }
    let text ← onSource source below (Source.join line)
    let s ← Action.state
    Action.setState { s with eof := false, next := text }

theorem findLineCons (source : Source) (below : List Source) :
    findLine (source :: below) = onSource source below firstLine >>= withFirst below := by
  rw [findLine]
  congr 1
  funext ⟨first, source⟩
  cases first <;> rfl

theorem firstLineCons {source : Source} {line : Text} {rest : List Text}
    (lines : source.atSolid.lines = line :: rest) :
    firstLine none source =
      ⟨[], source.atSolid.past 1, .ok (some line, source.atSolid.past 1)⟩ := by
  rw [firstLine, Action.bindSilent (Source.skipBlankApply source),
    Action.bindSilent (Source.readLineCons lines)]
  rfl

theorem firstLineNil {source : Source} (lines : source.atSolid.lines = []) :
    source.ending = .finished ∧
      firstLine none source = ⟨[], source.atSolid, .ok (none, source.atSolid)⟩ ∨
    source.ending ≠ .finished ∧ ∃ t fault location,
      firstLine none source = ⟨[], t, .error ⟨.undecodable fault, some location⟩⟩ := by
  rw [firstLine, Action.bindSilent (Source.skipBlankApply source)]
  rcases Source.readLineNil lines with ⟨sound, outcome⟩ | ⟨unsound, t, fault, location, outcome⟩
  · exact .inl ⟨sound, by rw [Action.bindSilent outcome]; rfl⟩
  · exact .inr ⟨unsound, t, fault, location, Action.bindFailed outcome⟩

theorem withFirstNone (s : LineStream) (source : Source) (below : List Source) :
    ∃ message, withFirst below (none, source) none s =
      (findLine below none s).behind [.told message] := ⟨_, rfl⟩

theorem findLineFinds (s : LineStream) (sources : List Source) :
    s.Finds sources (findLine sources none s) := by
  -- A source that has run out is put away before the one below is asked, so the stream changes.
  induction sources generalizing s with
  | nil => exact .whole onlyToldNil
  | cons source below ih =>
    rw [findLineCons]
    cases lines : source.atSolid.lines with
    | nil =>
      rcases firstLineNil lines with ⟨_, first⟩ | ⟨unsound, t, fault, location, first⟩
      · have opened : onSource source below firstLine none s =
            ⟨[], { s with sources := source.atSolid :: below }, .ok (none, source.atSolid)⟩ := by
          rw [onSourceApply, first]
        have same : s.found (source :: below) = s.found below := by simp [found, lines]
        have next := ih { s with sources := source.atSolid :: below }
        obtain ⟨message, put⟩ := withFirstNone { s with sources := source.atSolid :: below }
          source.atSolid below
        rw [Action.bindSilent opened, put]
        generalize findLine below none _ = o at next
        cases next with
        | whole messages =>
          rw [foundSources, ← same]
          exact .whole (onlyToldCons messages)
        | broken messages member unsound =>
          exact .broken (onlyToldCons messages) (List.mem_cons_of_mem _ member) unsound
      · have opened : onSource source below firstLine none s =
            ⟨[], { s with sources := t :: below }, .error ⟨.undecodable fault, some location⟩⟩ := by
          rw [onSourceApply, first]
        rw [Action.bindFailed opened]
        exact .broken onlyToldNil (List.mem_cons_self ..) unsound
    | cons line rest =>
      have opened : onSource source below firstLine none s =
          ⟨[], { s with sources := source.atSolid.past 1 :: below },
            .ok (some line, source.atSolid.past 1)⟩ := by
        rw [onSourceApply, firstLineCons lines]
      have joining := Source.joinReads (source.atSolid.past 1) line
      have tail : (source.atSolid.past 1).lines = rest := by simp [lines]
      rw [tail] at joining
      rw [Action.bindSilent opened]
      simp only [withFirst, Action.bindApply, Outcome.andThen, onSourceApply, Log.record,
        Option.map_none, Action.stateApply, Action.setStateApply, List.nil_append]
      generalize Source.join line none (source.atSolid.past 1) = o at joining
      cases joining with
      | @whole events messages sound =>
        have same : s.found (source :: below) = { s with
            sources := (source.atSolid.past 1).past (joined line rest).length :: below
            eof := false
            next := (joined line rest).text
            nextLocation := some ⟨source.path, source.atSolid.lineNumber + 1⟩ } := by
          simp [found, lines]
        simp only [List.append_nil]
        exact same ▸ .whole messages
      | broken messages short unsound =>
        exact .broken messages (List.mem_cons_self ..) unsound

def pending (sources : List Source) : List LogicalLine := sources.flatMap Source.remaining

structure Shows (s : LineStream) (lines : List LogicalLine) : Prop where
  eof : s.eof = lines.isEmpty
  next : s.next = (lines.head?.map LogicalLine.text).getD []
  nextLocation : s.nextLocation = lines.head?.map LogicalLine.location
  behind : pending s.sources = lines.tail

def Sound (s : LineStream) : Prop := ∀ source ∈ s.sources, source.ending = .finished

theorem foundShows (s : LineStream) (sources : List Source) :
    (s.found sources).Shows (pending sources) := by
  induction sources with
  | nil => exact ⟨rfl, rfl, rfl, rfl⟩
  | cons source below ih =>
    cases lines : source.atSolid.lines with
    | nil =>
      have same : s.found (source :: below) = s.found below := by simp [found, lines]
      have nothing : pending (source :: below) = pending below := by
        simp [pending, Source.remainingNil lines]
      rw [same, nothing]
      exact ih
    | cons line rest =>
      have first : pending (source :: below) =
          ⟨(joined line rest).text, ⟨source.path, source.atSolid.lineNumber + 1⟩⟩ ::
            pending ((source.atSolid.past 1).past (joined line rest).length :: below) := by
        simp [pending, Source.remainingCons lines]
      rw [first]
      simp only [found, lines]
      exact ⟨rfl, rfl, rfl, rfl⟩

theorem foundSound {s : LineStream} {sources : List Source}
    (sound : ∀ source ∈ sources, source.ending = .finished) : (s.found sources).Sound := by
  induction sources with
  | nil => simp [found, Sound]
  | cons source below ih =>
    have under := fun other member => sound other (List.mem_cons_of_mem _ member)
    simp only [found]
    split
    · exact ih under
    · intro other member
      rcases List.mem_cons.mp member with rfl | inside
      · exact sound source (List.mem_cons_self ..)
      · exact under other inside

end LineStream
end MakeTree
