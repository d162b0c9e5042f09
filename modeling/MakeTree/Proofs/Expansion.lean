import MakeTree.Block.Run
import MakeTree.Proofs.Includes

/-! The lines of a makefile with the lines of the files it includes put in, as a recursion over the
include directives. A stream, which holds one line ahead and reads each file only as far as it has
to, delivers exactly these lines. -/
namespace MakeTree
open Text

inductive Expands (files : FileTree) (workDir : Text) :
    List LogicalLine → List LogicalLine → Prop where
  | nil : Expands files workDir [] []
  | plain {line lines expanded} (other : isInclude line.text = false)
      (rest : Expands files workDir lines expanded) :
      Expands files workDir (line :: lines) (line :: expanded)
  | inclusion {line lines path inner inside expanded} (names : line.Names workDir path)
      (readable : files.lines? path = some inner) (within : Expands files workDir inner inside)
      (rest : Expands files workDir lines expanded) :
      Expands files workDir (line :: lines) (line :: (inside ++ expanded))

def EveryNamed (lines : List LogicalLine) : Prop :=
  ∀ line ∈ lines, isInclude line.text = true → line.token?.isSome

structure Includable (files : FileTree) (workDir : Text) (start : List LogicalLine) : Prop where
  named : EveryNamed start
  readable : ∀ path, files.Reached workDir start path →
    ∃ lines, files.lines? path = some lines ∧ EveryNamed lines
  acyclic : files.Acyclic workDir start

theorem namesInclude {line : LogicalLine} {workDir path : Text} (names : line.Names workDir path) :
    isInclude line.text = true := by
  obtain ⟨token, named, _⟩ := names
  unfold LogicalLine.token? at named
  split at named
  · assumption
  · cases named

theorem expandsUnique {files : FileTree} {workDir : Text} {lines first second : List LogicalLine}
    (left : Expands files workDir lines first) (right : Expands files workDir lines second) :
    first = second := by
  induction left generalizing second with
  | nil => cases right; rfl
  | plain other rest ih =>
    cases right with
    | plain _ rest' => rw [ih rest']
    | inclusion names _ _ _ => rw [namesInclude names] at other; cases other
  | inclusion names readable within rest ihWithin ihRest =>
    cases right with
    | plain other _ => rw [namesInclude names] at other; cases other
    | inclusion names' readable' within' rest' =>
      obtain ⟨token, named, rfl⟩ := names
      obtain ⟨token', named', rfl⟩ := names'
      cases Option.some.inj (named.symm.trans named')
      cases Option.some.inj (readable.symm.trans readable')
      rw [ihWithin within', ihRest rest']

theorem expandsLines {files : FileTree} {workDir : Text} {lines : List LogicalLine}
    (named : EveryNamed lines)
    (within : ∀ line ∈ lines, ∀ path, line.Names workDir path →
      ∃ inner inside, files.lines? path = some inner ∧ Expands files workDir inner inside) :
    ∃ expanded, Expands files workDir lines expanded := by
  induction lines with
  | nil => exact ⟨[], .nil⟩
  | cons line rest ih =>
    obtain ⟨expanded, tail⟩ := ih (fun other member => named other (List.mem_cons_of_mem _ member))
      (fun other member => within other (List.mem_cons_of_mem _ member))
    cases kind : isInclude line.text with
    | false => exact ⟨_, .plain kind tail⟩
    | true =>
      obtain ⟨token, found⟩ := Option.isSome_iff_exists.mp (named line (List.mem_cons_self ..) kind)
      have names : line.Names workDir (Path.normalJoin workDir token) := ⟨token, found, rfl⟩
      obtain ⟨inner, inside, readable, expands⟩ := within line (List.mem_cons_self ..) _ names
      exact ⟨_, .inclusion names readable expands tail⟩

theorem includableExpands {files : FileTree} {workDir : Text} {start : List LogicalLine}
    (includable : Includable files workDir start) :
    ∃ expanded, Expands files workDir start expanded := by
  have inside : ∀ path, files.Reached workDir start path →
      ∃ inner inside, files.lines? path = some inner ∧ Expands files workDir inner inside := by
    refine reachedInduction includable.acyclic fun path reached below => ?_
    obtain ⟨inner, readable, named⟩ := includable.readable path reached
    obtain ⟨inside, expands⟩ := expandsLines named fun line member other names =>
      below other ⟨inner, readable, line, member, names⟩
    exact ⟨inner, inside, readable, expands⟩
  exact expandsLines includable.named fun line member path names =>
    inside path (.first member names)

namespace LineStream

def follow (files : FileTree) (line : Text) : Action LineStream Unit := do
  match (words line)[1]? with
  | some path => enter files path
  | none => Action.fail ⟨.noIncludePath, (← Action.state).location⟩

def drain (files : FileTree) : Nat → Action LineStream (Option (List (Text × Option Location)))
  | 0 => return none
  | fuel + 1 => do
    if ← atEnd then return some []
    else
      let line ← takeLine
      let location := (← Action.state).location
      if isInclude line then follow files line
      return (← drain files fuel).map ((line, location) :: ·)

theorem atEndApply (s : LineStream) : atEnd none s = ⟨[.peeked], s, .ok s.eof⟩ := rfl

theorem takeLineApply (s : LineStream) : takeLine none s = take (isInclude s.next) none s := rfl

theorem drainEnd {s : LineStream} (shows : s.Shows []) (files : FileTree) (fuel : Nat) :
    (drain files (fuel + 1) none s).result = .ok (some []) := by
  rw [drain, Action.bindReturned (atEndApply s), shows.eof]
  rfl

theorem drainPlain {s : LineStream} {line : LogicalLine} {lines : List LogicalLine}
    (shows : s.Shows (line :: lines)) (sound : s.Sound) (other : isInclude line.text = false)
    (files : FileTree) :
    ∃ t, t.Shows lines ∧ t.Sound ∧ t.workDir = s.workDir ∧ ∀ fuel,
      (drain files (fuel + 1) none s).result = (drain files fuel none t).result.map
        (Option.map ((line.text, some line.location) :: ·)) := by
  have next : s.next = line.text := shows.next
  obtain ⟨events, t, outcome, showsRest, soundRest, location, workDir⟩ := taken shows sound
  have line' : takeLine none s = ⟨events, t, .ok line.text⟩ := by
    rw [takeLineApply, next, other, outcome]
  refine ⟨t, showsRest, soundRest, workDir, fun fuel => ?_⟩
  rw [drain, Action.bindReturned (atEndApply s), shows.eof]
  simp only [List.isEmpty_cons, Bool.false_eq_true, if_false, Outcome.behindResult]
  rw [Action.bindReturned line', Outcome.behindResult, Action.bindSilent (Action.stateApply none t)]
  simp only [other, Bool.false_eq_true, if_false, location]
  exact Action.returnResult _ _ t

theorem followNamed {files : FileTree} {line token : Text}
    (named : (words line)[1]? = some token) : follow files line = enter files token := by
  simp [follow, named]

theorem drainInclusion {s : LineStream} {line : LogicalLine} {lines inner : List LogicalLine}
    {files : FileTree} {path : Text} (shows : s.Shows (line :: lines)) (sound : s.Sound)
    (names : line.Names s.workDir path) (readable : files.lines? path = some inner) :
    ∃ t, t.Shows (inner ++ lines) ∧ t.Sound ∧ t.workDir = s.workDir ∧ ∀ fuel,
      (drain files (fuel + 1) none s).result = (drain files fuel none t).result.map
        (Option.map ((line.text, some line.location) :: ·)) := by
  have next : s.next = line.text := shows.next
  have kind := namesInclude names
  obtain ⟨token, named, rfl⟩ := names
  simp only [LogicalLine.token?, kind, if_true] at named
  have line' : takeLine none s = ⟨[.took false], s.atNext, .ok line.text⟩ := by
    rw [takeLineApply, next, kind, takeDeferred, next]
  have sources : pending s.atNext.sources = lines := shows.behind
  have location : s.atNext.location = some line.location := shows.nextLocation
  obtain ⟨events, t, outcome, showsAll, soundAll, _, workDir⟩ :=
    entered (s := s.atNext) readable sound
  rw [sources] at showsAll
  refine ⟨t, showsAll, soundAll, workDir, fun fuel => ?_⟩
  rw [drain, Action.bindReturned (atEndApply s), shows.eof]
  simp only [List.isEmpty_cons, Bool.false_eq_true, if_false, Outcome.behindResult]
  rw [Action.bindReturned line', Outcome.behindResult,
    Action.bindSilent (Action.stateApply none s.atNext)]
  simp only [kind, if_true, location, followNamed named]
  rw [Action.bindReturned outcome, Outcome.behindResult]
  exact Action.returnResult _ _ t

theorem drainExpands {files : FileTree} {workDir : Text} {lines expanded : List LogicalLine}
    (expands : Expands files workDir lines expanded) (after : List LogicalLine) (s : LineStream)
    (shows : s.Shows (lines ++ after)) (sound : s.Sound) (same : s.workDir = workDir) :
    ∃ t, t.Shows after ∧ t.Sound ∧ t.workDir = workDir ∧ ∀ fuel,
      (drain files (fuel + expanded.length) none s).result = (drain files fuel none t).result.map
        (Option.map (expanded.map (fun line => (line.text, some line.location)) ++ ·)) := by
  induction expands generalizing after s with
  | nil =>
    refine ⟨s, shows, sound, same, fun fuel => ?_⟩
    cases drained : (drain files fuel none s).result with
    | error failure => simp [Except.map]
    | ok found => cases found <;> simp [Except.map]
  | @plain line lines expanded other rest ih =>
    obtain ⟨u, showsRest, soundRest, workDir', step⟩ := drainPlain shows sound other files
    obtain ⟨t, showsAfter, soundAfter, same', run⟩ :=
      ih after u showsRest soundRest (workDir'.trans same)
    refine ⟨t, showsAfter, soundAfter, same', fun fuel => ?_⟩
    have count : fuel + (line :: expanded).length = fuel + expanded.length + 1 := by simp; omega
    rw [count, step, run]
    cases drained : (drain files fuel none t).result with
    | error failure => simp [Except.map]
    | ok found => cases found <;> simp [Except.map]
  | @inclusion line lines path inner inside expanded names readable within rest ihWithin ihRest =>
    -- The rest of this file stands behind the lines of the other one while those are delivered.
    rw [← same] at names
    obtain ⟨u, showsInner, soundInner, workDir', step⟩ := drainInclusion shows sound names readable
    obtain ⟨v, showsRest, soundRest, same', runInside⟩ :=
      ihWithin (lines ++ after) u showsInner soundInner (workDir'.trans same)
    obtain ⟨t, showsAfter, soundAfter, same'', run⟩ := ihRest after v showsRest soundRest same'
    refine ⟨t, showsAfter, soundAfter, same'', fun fuel => ?_⟩
    have count : fuel + (line :: (inside ++ expanded)).length =
        fuel + expanded.length + inside.length + 1 := by simp; omega
    rw [count, step, runInside, run]
    cases drained : (drain files fuel none t).result with
    | error failure => simp [Except.map]
    | ok found => cases found <;> simp [Except.map]

end LineStream

open LineStream

def Origin.drained (files : FileTree) (workDir? : Option Text) (origin : Origin) (fuel : Nat) :
    Except Failure (Option (List (Text × Option Location))) :=
  ((do origin.start files workDir?; drain files fuel) none (empty [])).result

/-- A stream delivers the expansion of what it is started on, each line with the place it stands
at, wherever nothing gets in the way of the includes. -/
theorem deliversExpansion (files : FileTree) (workDir? : Option Text) (origin : Origin)
    (start : List LogicalLine) (readable : origin.lines? files = some start)
    (includable : Includable files (origin.workDir files workDir?) start) :
    ∃ expanded, Expands files (origin.workDir files workDir?) start expanded ∧
      (∀ other, Expands files (origin.workDir files workDir?) start other → other = expanded) ∧
      ∀ fuel, expanded.length < fuel → origin.drained files workDir? fuel =
        .ok (some (expanded.map fun line => (line.text, some line.location))) := by
  obtain ⟨expanded, expands⟩ := includableExpands includable
  refine ⟨expanded, expands, fun other also => expandsUnique also expands, fun fuel enough => ?_⟩
  obtain ⟨events, s, begun, shows, sound, workDir⟩ := started readable workDir? (empty [])
  obtain ⟨t, showsEnd, _, _, run⟩ := drainExpands expands [] s (by simpa using shows) sound workDir
  obtain ⟨more, rfl⟩ := Nat.exists_eq_add_of_lt enough
  have count : expanded.length + more + 1 = more + 1 + expanded.length := by omega
  rw [Origin.drained, Action.bindReturned begun, Outcome.behindResult, count, run,
    drainEnd showsEnd]
  simp [Except.map]

def nestedIncludes : FileTree where
  workingDirectory := ['/']
  entries := [
    (["Makefile".toList], .file (encodeUtf8 "include a\nx\ninclude b\n".toList)),
    (["a".toList], .file (encodeUtf8 "y \\\n z\ninclude b".toList)),
    (["b".toList], .file (encodeUtf8 "\nw\\".toList))]

namespace nestedIncludes

def makefile : Text := "/Makefile".toList

def outer : Text := "/a".toList

def inner : Text := "/b".toList

def start : List LogicalLine :=
  [⟨"include a".toList, ⟨makefile, 1⟩⟩, ⟨"x".toList, ⟨makefile, 2⟩⟩,
    ⟨"include b".toList, ⟨makefile, 3⟩⟩]

def outerLines : List LogicalLine :=
  [⟨"y z".toList, ⟨outer, 1⟩⟩, ⟨"include b".toList, ⟨outer, 3⟩⟩]

def innerLines : List LogicalLine := [⟨"w".toList, ⟨inner, 2⟩⟩]

theorem startRead : (Origin.file makefile).lines? nestedIncludes = some start := by decide +kernel

theorem outerRead : nestedIncludes.lines? outer = some outerLines := by decide +kernel

theorem innerRead : nestedIncludes.lines? inner = some innerLines := by decide +kernel

theorem outerIncludes {path : Text} (includes : nestedIncludes.Includes ['/'] outer path) :
    path = inner := by
  obtain ⟨lines, readable, line, member, names⟩ := includes
  cases Option.some.inj (outerRead.symm.trans readable)
  have only : targets ['/'] outerLines = [inner] := by decide +kernel
  simpa [only] using targetNamed member names

theorem innerIncludes {path : Text} : ¬ nestedIncludes.Includes ['/'] inner path := by
  rintro ⟨lines, readable, line, member, names⟩
  cases Option.some.inj (innerRead.symm.trans readable)
  have only : targets ['/'] innerLines = [] := by decide +kernel
  simpa [only] using targetNamed member names

theorem onlyReached {path : Text} (reached : nestedIncludes.Reached ['/'] start path) :
    path = outer ∨ path = inner := by
  induction reached with
  | first member names =>
    have only : targets ['/'] start = [outer, inner] := by decide +kernel
    simpa [only] using targetNamed member names
  | onward before includes ih =>
    rcases ih with rfl | rfl
    · exact .inr (outerIncludes includes)
    · exact absurd includes innerIncludes

theorem includable : Includable nestedIncludes ['/'] start where
  named := by unfold EveryNamed; decide +kernel
  readable := by
    intro path reached
    rcases onlyReached reached with rfl | rfl
    · exact ⟨outerLines, outerRead, by unfold EveryNamed; decide +kernel⟩
    · exact ⟨innerLines, innerRead, by unfold EveryNamed; decide +kernel⟩
  acyclic := by
    have fromInner : ∀ path, ¬ Relation.TransGen (nestedIncludes.Includes ['/']) inner path := by
      intro path leads
      obtain ⟨next, includes, _⟩ := Relation.TransGen.head'_iff.mp leads
      exact innerIncludes includes
    intro path reached leads
    rcases onlyReached reached with rfl | rfl
    · obtain ⟨next, includes, onward⟩ := Relation.TransGen.head'_iff.mp leads
      cases outerIncludes includes
      rcases Relation.ReflTransGen.cases_head onward with same | ⟨last, more, _⟩
      · exact absurd same (by decide)
      · exact innerIncludes more
    · exact fromInner inner leads

theorem delivered :
    (Origin.file makefile).lines? nestedIncludes = some start ∧
    Includable nestedIncludes ((Origin.file makefile).workDir nestedIncludes none) start ∧
    ∃ expanded, Expands nestedIncludes ['/'] start expanded ∧
      (∀ other, Expands nestedIncludes ['/'] start other → other = expanded) ∧
      ∀ fuel, expanded.length < fuel → (Origin.file makefile).drained nestedIncludes none fuel =
        .ok (some (expanded.map fun line => (line.text, some line.location))) := by
  have workDir : (Origin.file makefile).workDir nestedIncludes none = ['/'] := by decide +kernel
  have all := deliversExpansion nestedIncludes none (.file makefile) start startRead
    (workDir.symm ▸ includable)
  rw [workDir] at all ⊢
  exact ⟨startRead, includable, all⟩

end nestedIncludes
end MakeTree
