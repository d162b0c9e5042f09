import MakeTree.Proofs.Faults
import MakeTree.Proofs.Headers
import MakeTree.Proofs.Replay

/-! Where failures and rules are placed. A run hands over one line after the other; a failure of a line
is placed where this line starts, an open conditional where its last link does, and each rule belongs
to the file that its header stands in, however far the stream has looked ahead. -/
namespace MakeTree
open Text MakeTree.Action LineStream

def LineStream.ahead? (s : LineStream) : Option LogicalLine :=
  if s.eof then none else s.nextLocation.map fun location => ⟨s.next, location⟩

theorem showsAhead {s : LineStream} {lines : List LogicalLine} (shows : s.Shows lines) :
    s.ahead? = lines.head? := by
  unfold LineStream.ahead?
  rw [shows.eof, shows.next, shows.nextLocation]
  cases lines with
  | nil => rfl
  | cons line rest => rfl

def Stands (files : FileTree) (origin : Origin) (line : LogicalLine) : Prop :=
  ∃ fresh count first rest, Opened files origin fresh ∧ fresh.lines.drop count = first :: rest ∧
    line = ⟨(joined first rest).text, ⟨fresh.path, count + 1⟩⟩

theorem aheadStands {files : FileTree} {workDir? : Option Text} {origin : Origin} {s : LineStream}
    (reachable : Reachable files origin workDir? s) {line : LogicalLine}
    (ahead : s.ahead? = some line) : Stands files origin line := by
  unfold LineStream.ahead? at ahead
  split at ahead
  · cases ahead
  · rename_i more
    obtain ⟨first, rest, here⟩ := (reachableTraced reachable).ahead (by simpa using more)
    obtain ⟨fresh, count, opened, lines, place⟩ := here.stands
    rw [place, here.next] at ahead
    exact ⟨fresh, count, first, rest, opened, lines, (Option.some.inj ahead).symm⟩

namespace Stage
variable {setting : Setting} {stage next : Stage} {events : List Event}

def marks (stage : Stage) : List Mark := stage.block.marks ++ stage.outer.flatMap Block.marks

def headers (stage : Stage) : List RuleHeader :=
  stage.outer.reverse.flatMap Block.headers ++ stage.block.headers

def Waits (stage : Stage) : Prop := ∀ waiting ∈ stage.outer, waiting.stops ≠ none

theorem nextMarks {t : LineStream} {vars : Variables} {change : Change}
    (step : stage.next? t vars change = some next) :
    next.marks = change.marks (stage.outer.flatMap Block.marks) := by
  cases change with
  | stay block => cases Option.some.inj step; rfl
  | nest block inner => cases Option.some.inj step; rfl
  | close statements =>
    obtain ⟨around, outer, waiting, rfl⟩ := nextClosed step
    simp [marks, Change.marks, waiting, addAllMarks]

theorem nextHeaders {t : LineStream} {vars : Variables} {change : Change}
    (step : stage.next? t vars change = some next) (waits : stage.Waits) :
    next.headers = stage.outer.reverse.flatMap Block.headers ++ change.headers := by
  cases change with
  | stay block => cases Option.some.inj step; rfl
  | nest block inner =>
    cases Option.some.inj step
    simp [headers, Change.headers]
  | close statements =>
    obtain ⟨around, outer, waiting, rfl⟩ := nextClosed step
    have inside : around.stops ≠ none := waits around (by simp [waiting])
    simp [headers, Change.headers, waiting, addAllHeaders inside]

theorem movesWait {workDir : Text} {entered : Prop} {block around inner : Block}
    {lines rest : List LogicalLine}
    (moves : block.Moves setting workDir entered lines (.nest around inner) rest) :
    around.stops ≠ none := by
  have same : ∀ {begun : Begun} {block : Block}, begun.within block = .nest around inner →
      around = block := by
    intro begun block within
    cases begun with
    | nothing | whole _ => cases within
    | opened _ => cases within; rfl
  generalize nested : Change.nest around inner = change at moves
  cases moves with
  | statement inside passes begins => simp [same nested.symm, inside]
  | otherwiseWith keyword unconditional solid begins => simp [same nested.symm, Block.stops]
  | finish | step | blank | ended | endLink | endOtherwise | chain | otherwise => cases nested

theorem goesWaits (goes : stage.Goes setting events next) (formed : stage.Formed)
    (waits : stage.Waits) : next.Waits := by
  obtain ⟨t, change, after, steps, step⟩ := goes
  obtain ⟨lines, shows⟩ := formed.shows
  obtain ⟨_, rest, _, moves⟩ := stepMoves shows steps
  cases change with
  | stay block =>
    cases Option.some.inj step
    exact waits
  | nest around inner =>
    cases Option.some.inj step
    exact List.forall_mem_cons.mpr ⟨movesWait moves, waits⟩
  | close statements =>
    obtain ⟨around, outer, waiting, rfl⟩ := nextClosed step
    exact fun other member => waits other (by rw [waiting]; exact List.mem_cons_of_mem _ member)

inductive Turns (stage : Stage) (events : List Event) (next : Stage) : Prop where
  | takes {line advanced} (ahead : stage.stream.ahead? = some line)
      (took : .took advanced ∈ events)
      (headers : next.headers = stage.headers ++ (lineTurn stage.marks line).header.toList)
      (marks : next.marks = (lineTurn stage.marks line).marks) : Turns stage events next
  | leaves (untaken : ∀ advanced, .took advanced ∉ events) (same : next.stream = stage.stream)
      (headers : next.headers = stage.headers)
      (turn : ∀ line ∈ stage.stream.ahead?,
        lineTurn stage.marks line = lineTurn next.marks line)
      (inside : linkHeader? stage.marks = linkHeader? next.marks) : Turns stage events next

theorem Formed.bare (formed : stage.Formed) :
    stage.block.isMakefile = true → stage.outer.flatMap Block.marks = [] := by
  have tower := formed.tower
  intro makefile
  cases around : stage.outer with
  | nil => rfl
  | cons block outer =>
    rw [around] at tower
    exact absurd makefile (by simp [tower.1])

theorem leftAlone {t : LineStream} {read : Change × Variables} (formed : stage.Formed)
    (steps : stage.block.step setting stage.vars none stage.stream = ⟨events, t, .ok read⟩)
    (passed : ∀ line ∈ stage.stream.ahead?, stage.block.takes line.text = false) :
    events = [.peeked] ∧ t = stage.stream := by
  obtain ⟨lines, shows⟩ := formed.shows
  cases lines with
  | nil =>
    rw [stepEnded shows.eof shows.next] at steps
    obtain ⟨told, still, _⟩ := Outcome.mk.inj steps
    exact ⟨told.symm, still.symm⟩
  | cons line rest =>
    have other := passed line (showsAhead shows)
    rw [← show stage.stream.next = line.text from shows.next] at other
    obtain ⟨statements, same⟩ := stepPassed setting stage.vars other
    cases steps.symm.trans same
    exact ⟨rfl, rfl⟩

theorem goesTurns (goes : stage.Goes setting events next) (formed : stage.Formed)
    (waits : stage.Waits) : stage.Turns events next := by
  obtain ⟨t, change, after, steps, step⟩ := goes
  obtain ⟨lines, shows⟩ := formed.shows
  obtain ⟨_, rest, _, moves⟩ := stepMoves shows steps
  have ahead := showsAhead shows
  have headers := nextHeaders step waits
  have marks := nextMarks step
  cases movesTurns moves formed.bare with
  | @takes line behind split own turned =>
    subst split
    have next : stage.stream.next = line.text := shows.next
    obtain ⟨advanced, took⟩ := stepTakes setting stage.vars shows.eof (next ▸ own)
    rw [steps] at took
    refine .takes ahead took ?_ (marks.trans turned.marks)
    rw [headers, turned.headers, Stage.headers, List.append_assoc]
    rfl
  | leaves closed whole passed inside =>
    subst closed
    rw [← ahead] at passed
    obtain ⟨rfl, rfl⟩ := leftAlone formed steps fun line head => (passed line head).1
    refine .leaves (by simp) (nextStream step) ?_ (fun line head => ?_) ?_
    · rw [headers]
      exact congrArg _ whole
    · rw [marks]
      exact (passed line head).2
    · rw [marks]
      exact inside

end Stage

namespace Origin
variable {files : FileTree} {workDir? : Option Text} {origin : Origin} {stage : Stage}

inductive Hands (files : FileTree) (workDir? : Option Text) (origin : Origin) :
    List LogicalLine → Stage → Prop where
  | starts {events stage} (starts : origin.Starts files workDir? events stage) :
      Hands files workDir? origin [] stage
  | leaves {handed stage events next} (before : Hands files workDir? origin handed stage)
      (goes : stage.Goes (origin.setting files) events next)
      (untaken : ∀ advanced, .took advanced ∉ events) : Hands files workDir? origin handed next
  | takes {handed stage events next line advanced} (before : Hands files workDir? origin handed stage)
      (goes : stage.Goes (origin.setting files) events next)
      (ahead : stage.stream.ahead? = some line) (took : .took advanced ∈ events) :
      Hands files workDir? origin (handed ++ [line]) next

theorem handsPasses {handed : List LogicalLine} (hands : origin.Hands files workDir? handed stage) :
    origin.Passes files workDir? stage := by
  induction hands with
  | starts starts => exact ⟨_, _, starts, .refl⟩
  | leaves _ goes _ ih => exact passOnward ih (.single ⟨_, goes⟩)
  | takes _ goes _ _ ih => exact passOnward ih (.single ⟨_, goes⟩)

theorem passWaits (passes : origin.Passes files workDir? stage) : stage.Waits := by
  obtain ⟨events, first, starts, reached⟩ := passes
  induction reached with
  | refl =>
    obtain ⟨source, _, around, _⟩ := startSource starts
    simp [Stage.Waits, around]
  | tail before step ih =>
    obtain ⟨_, goes⟩ := step
    exact Stage.goesWaits goes (passFormed ⟨events, first, starts, before⟩) ih

theorem passHands (passes : origin.Passes files workDir? stage) :
    ∃ handed, origin.Hands files workDir? handed stage := by
  obtain ⟨events, first, starts, reached⟩ := passes
  induction reached with
  | refl => exact ⟨[], .starts starts⟩
  | tail before step ih =>
    obtain ⟨handed, hands⟩ := ih
    obtain ⟨_, goes⟩ := step
    have passes := handsPasses hands
    cases Stage.goesTurns goes (passFormed passes) (passWaits passes) with
    | takes ahead took _ _ => exact ⟨_, .takes hands goes ahead took⟩
    | leaves untaken _ _ _ _ => exact ⟨handed, .leaves hands goes untaken⟩

theorem passReachable (passes : origin.Passes files workDir? stage) :
    Reachable files (origin.resolved files) workDir? stage.stream := by
  obtain ⟨events, first, starts, reached⟩ := passes
  induction reached with
  | refl =>
    obtain ⟨s, begun, rfl⟩ := starts
    exact ⟨events, s, begun, .here⟩
  | tail before step ih =>
    obtain ⟨_, t, change, after, steps, step⟩ := step
    obtain ⟨lines, shows⟩ := (passFormed ⟨events, first, starts, before⟩).shows
    obtain ⟨told, start, begun, onward⟩ := ih
    rw [Stage.nextStream step]
    exact ⟨told, start, begun, onward.trans (stepMoves shows steps).1⟩

structure Handed (files : FileTree) (origin : Origin) (handed : List LogicalLine)
    (stage : Stage) : Prop where
  headers : stage.headers = ruleHeaders [] handed
  turn : ∀ line ∈ stage.stream.ahead?,
    lineTurn (openMarks handed) line = lineTurn stage.marks line
  inside : linkHeader? (openMarks handed) = linkHeader? stage.marks
  stands : ∀ line ∈ handed, Stands files (origin.resolved files) line

theorem handsHanded {handed : List LogicalLine} (hands : origin.Hands files workDir? handed stage) :
    origin.Handed files handed stage := by
  -- A step that takes no line may close a rule. The marks then differ from those of the lines, and only
  -- the turn of the line ahead and the innermost link are still the same.
  induction hands with
  | starts starts =>
    obtain ⟨s, _, rfl⟩ := starts
    exact ⟨rfl, fun _ _ => rfl, rfl, by simp⟩
  | @leaves handed stage events next before goes untaken ih =>
    have passes := handsPasses before
    cases Stage.goesTurns goes (passFormed passes) (passWaits passes) with
    | takes _ took _ _ => exact absurd took (untaken _)
    | leaves _ same headers turn inside =>
      refine ⟨headers.trans ih.headers, fun line ahead => ?_, ih.inside.trans inside, ih.stands⟩
      rw [same] at ahead
      exact (ih.turn line ahead).trans (turn line ahead)
  | @takes handed stage events next line advanced before goes ahead took ih =>
    have passes := handsPasses before
    cases Stage.goesTurns goes (passFormed passes) (passWaits passes) with
    | leaves untaken _ _ _ _ => exact absurd took (untaken _)
    | takes ahead' _ headers marks =>
      cases Option.some.inj (ahead.symm.trans ahead')
      have turn := ih.turn line ahead
      have same : openMarks (handed ++ [line]) = next.marks := by
        rw [openMarksConcat, turn, marks]
      refine ⟨?_, fun _ _ => by rw [same], by rw [same], ?_⟩
      · rw [headers, ih.headers, ruleHeadersConcat, ← turn]
        rfl
      · exact List.forall_mem_append.mpr ⟨ih.stands,
          List.forall_mem_singleton.mpr (aheadStands (passReachable passes) ahead)⟩

end Origin

theorem Stage.endedFails {setting : Setting} {outer : List Block} {block : Block} {s : LineStream}
    {vars : Variables} {start : Option Location} (formed : Stage.Formed ⟨block, outer, s, vars⟩)
    (ended : s.eof = true)
    (inside : linkHeader? (Stage.marks ⟨block, outer, s, vars⟩) = some start) :
    ∃ o, Stage.Comes setting ⟨block, outer, s, vars⟩ o ∧
      o.result = .error (unterminated start) := by
  induction outer generalizing block with
  | nil =>
    cases block with
    | makefile => cases inside
    | rule => cases formed.tower
    | link | otherwise =>
      cases inside
      exact ⟨_, .ends (.failed (stepEnded ended (formed.ended ended))), rfl⟩
  | cons around outer ih =>
    cases block with
    | makefile => cases formed.tower.1
    | link | otherwise =>
      cases inside
      exact ⟨_, .ends (.failed (stepEnded ended (formed.ended ended))), rfl⟩
    | rule header directory recipe =>
      have goes : Stage.Goes setting ⟨.rule header directory recipe, around :: outer, s, vars⟩
          [.peeked] ⟨around.addAll [header.statement recipe], outer, s, vars⟩ :=
        ⟨s, _, _, stepEnded ended (formed.ended ended), rfl⟩
      have marks : Stage.marks ⟨around.addAll [header.statement recipe], outer, s, vars⟩ =
          around.marks ++ outer.flatMap Block.marks := by rw [Stage.marks, addAllMarks]
      obtain ⟨o, comes, failed⟩ := ih (Stage.goesFormed goes formed) (by rw [marks]; exact inside)
      exact ⟨_, .goes goes comes, failed⟩

def Cause.isMistake : Cause → Bool
  | .unmatched _ | .noCondition | .noTarget | .noVariable _ | .noAssignment | .noIncludePath => true
  | .unterminated | .cannotOpen .. | .undecodable _ | .noWords | .nullPath => false

def Failure.IsOfLine (failure : Failure) (events : List Event) : Prop :=
  failure.cause.isMistake = true ∨
    (∃ path reason, failure.cause = .cannotOpen path reason) ∧ ∃ path, .included path ∈ events

structure Attributed (files : FileTree) (workDir? : Option Text) (origin : Origin) : Prop where
  blamed : ∀ fuel failure, (origin.read files workDir? fuel).result = .error failure →
    failure.IsOfLine (origin.read files workDir? fuel).events →
    ∃ handed stage line, origin.Hands files workDir? handed stage ∧
      stage.stream.ahead? = some line ∧ Stands files (origin.resolved files) line ∧
      HandsOver (stage.block.step (origin.setting files) stage.vars) stage.stream ∧
      (stage.block.step (origin.setting files) stage.vars none stage.stream).result =
        .error failure ∧
      failure.location = some line.location
  unended : ∀ start,
    (∃ fuel, (origin.read files workDir? fuel).result = .error ⟨.unterminated, start⟩) ↔
    ∃ handed stage, origin.Hands files workDir? handed stage ∧ stage.stream.eof = true ∧
      linkHeader? (openMarks handed) = some start
  headed : ∀ fuel makefile, (origin.read files workDir? fuel).result = .ok (some makefile) →
    ∃ handed stage, origin.Hands files workDir? handed stage ∧ stage.stream.eof = true ∧
      headersIn makefile.statements = ruleHeaders [] handed ∧
      ∀ header ∈ headersIn makefile.statements, ∃ line ∈ handed,
        Stands files (origin.resolved files) line ∧
        (header = line.header ∨ header = line.remainder.header) ∧
        header.definedIn = some line.location.path

theorem blameAhead {stage : Stage} {failure : Failure} {events told : List Event}
    (formed : stage.Formed) (blames : stage.block.Blames stage.stream told failure)
    (ofLine : failure.IsOfLine events) : ∃ line, stage.stream.ahead? = some line ∧
      failure.location = some line.location := by
  cases blames with
  | unended => rcases ofLine with mistake | ⟨⟨_, _, closed⟩, _⟩ <;> contradiction
  | ahead more fault =>
    obtain ⟨lines, shows⟩ := formed.shows
    cases lines with
    | nil => exact absurd shows.next (more shows.eof)
    | cons line rest =>
      refine ⟨line, showsAhead shows, ?_⟩
      cases fault with
      | line => exact shows.nextLocation
      | bytes | null => rcases ofLine with mistake | ⟨⟨_, _, closed⟩, _⟩ <;> contradiction

theorem failedHands {setting : Setting} {stage : Stage} {failure : Failure} {line : LogicalLine}
    (formed : stage.Formed) (ahead : stage.stream.ahead? = some line)
    (failed : (stage.block.step setting stage.vars none stage.stream).result = .error failure) :
    HandsOver (stage.block.step setting stage.vars) stage.stream := by
  obtain ⟨lines, shows⟩ := formed.shows
  cases lines with
  | nil => rw [showsAhead shows] at ahead; cases ahead
  | cons first rest =>
    cases own : stage.block.takes stage.stream.next with
    | true => exact stepTakes setting stage.vars shows.eof own
    | false =>
      obtain ⟨statements, passed⟩ := stepPassed setting stage.vars own
      rw [passed] at failed
      cases failed

theorem readBlamed {files : FileTree} {workDir? : Option Text} {fuel : Nat} {origin : Origin}
    {failure : Failure} (failed : (origin.read files workDir? fuel).result = .error failure)
    (ofLine : failure.IsOfLine (origin.read files workDir? fuel).events) :
    ∃ handed stage line, origin.Hands files workDir? handed stage ∧
      stage.stream.ahead? = some line ∧ Stands files (origin.resolved files) line ∧
      HandsOver (stage.block.step (origin.setting files) stage.vars) stage.stream ∧
      (stage.block.step (origin.setting files) stage.vars none stage.stream).result =
        .error failure ∧
      failure.location = some line.location := by
  rcases readBlames failed with ⟨unread, never⟩ | ⟨stage, events, t, passes, steps, blames⟩
  · rcases ofLine with mistake | ⟨_, path, entered⟩
    · cases unread <;> cases mistake
    · exact absurd entered (never path)
  · have formed := Origin.passFormed passes
    obtain ⟨handed, hands⟩ := Origin.passHands passes
    obtain ⟨line, ahead, placed⟩ := blameAhead formed blames ofLine
    have fails := congrArg Outcome.result steps
    exact ⟨handed, stage, line, hands, ahead, aheadStands (Origin.passReachable passes) ahead,
      failedHands formed ahead fails, fails, placed⟩

theorem readUnended {files : FileTree} {workDir? : Option Text} {origin : Origin}
    (start : Option Location) :
    (∃ fuel, (origin.read files workDir? fuel).result = .error ⟨.unterminated, start⟩) ↔
    ∃ handed stage, origin.Hands files workDir? handed stage ∧ stage.stream.eof = true ∧
      linkHeader? (openMarks handed) = some start := by
  constructor
  · rintro ⟨fuel, failed⟩
    rcases readBlames failed with ⟨unread, _⟩ | ⟨stage, events, t, passes, _, blames⟩
    · cases unread
    · obtain ⟨handed, hands⟩ := Origin.passHands passes
      cases blames with
      | ahead _ fault =>
        rcases fault with ⟨blamed⟩
        cases blamed
      | unended ended begun =>
        refine ⟨handed, stage, hands, ended, ?_⟩
        rw [(Origin.handsHanded hands).inside, Stage.marks]
        generalize stage.block = block at begun
        cases block with
        | makefile | rule => cases begun
        | link | otherwise => cases begun; rfl
  · rintro ⟨handed, stage, hands, ended, inside⟩
    have passes := Origin.handsPasses hands
    rw [(Origin.handsHanded hands).inside] at inside
    obtain ⟨o, comes, failed⟩ := Stage.endedFails (Origin.passFormed passes) ended inside
    obtain ⟨whole, reads, fails⟩ := Origin.passFailure passes comes failed
    obtain ⟨least, same⟩ := Origin.comesRead reads
    exact ⟨least + 0, by rw [same 0, Outcome.settledError]; exact fails⟩

example : linkHeader? (openMarks [⟨"ifeq a".toList, ⟨['m'], 1⟩⟩, ⟨"else ifneq b".toList, ⟨['m'], 2⟩⟩,
    ⟨"else".toList, ⟨['m'], 3⟩⟩, ⟨"t:".toList, ⟨['m'], 4⟩⟩]) = some (some ⟨['m'], 2⟩) := by
  decide +kernel

theorem readHeaded {files : FileTree} {workDir? : Option Text} {fuel : Nat} {origin : Origin}
    {makefile : Makefile} (ok : (origin.read files workDir? fuel).result = .ok (some makefile)) :
    ∃ handed stage, origin.Hands files workDir? handed stage ∧ stage.stream.eof = true ∧
      headersIn makefile.statements = ruleHeaders [] handed := by
  obtain ⟨o, comes, ok, -⟩ := Origin.readComes ok
  obtain ⟨stage, events, t, passes, outermost, steps⟩ := Origin.comesMakefile comes ok
  obtain ⟨handed, hands⟩ := Origin.passHands passes
  have formed := Origin.passFormed passes
  have top := formed.tower
  rw [outermost] at top
  obtain ⟨lines, shows⟩ := formed.shows
  obtain ⟨_, rest, _, moves⟩ := stepMoves shows steps
  cases makefileEnds top moves
  refine ⟨handed, stage, hands, shows.eof, ?_⟩
  rw [← (Origin.handsHanded hands).headers, Stage.headers, outermost]
  cases movesTurns moves formed.bare with
  | takes split => cases split
  | leaves closed whole _ _ =>
    cases closed
    exact whole

/-- Failures of a line, conditionals without an end and rules are placed where their lines stand. -/
theorem readAttributed (files : FileTree) (workDir? : Option Text) (origin : Origin) :
    Attributed files workDir? origin where
  blamed := fun _ _ => readBlamed
  unended := readUnended
  headed := by
    intro fuel makefile ok
    obtain ⟨handed, stage, hands, ended, headers⟩ := readHeaded ok
    refine ⟨handed, stage, hands, ended, headers, fun header member => ?_⟩
    rw [headers] at member
    obtain ⟨line, inside, source, path⟩ := ruleHeaderLine member
    exact ⟨line, inside, (Origin.handsHanded hands).stands line inside, source, path⟩

end MakeTree
