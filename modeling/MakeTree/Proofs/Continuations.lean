import MakeTree.Proofs.HollowLines
import MakeTree.Proofs.TextCuts
import MakeTree.Proofs.TidyTexts

/-! Joined lines in closed form. The lines behind an open one that belong to its group are cut off as a
whole, and trimmed as a whole; the reader, which trims what comes of every further line before it is
put behind the one in front, gets the same. The stream delivers what a scan of the physical lines by
groups gives, and warns of each comment inside a group once. -/
namespace MakeTree
open Text LineStream

def isHeld (line : Text) : Bool := isComment line || isContinued line

/-! The group of an open line, out of the lines behind it. -/
namespace LineGroup

def held (rest : List Text) : List Text := rest.takeWhile isHeld

def last? (rest : List Text) : Option Text := (rest.dropWhile isHeld).head?

def pieces (rest : List Text) : List Text :=
  ((held rest).filter (!isComment ·)).map List.dropLast ++ (last? rest).toList.filter (!allBlank ·)

def length (rest : List Text) : Nat := (held rest).length + (last? rest).toList.length

def warnings (path : Text) (number : Nat) (rest : List Text) : List Event :=
  ((held rest).zipIdx (number + 1)).filterMap fun (line, number) =>
    if isComment line then some (droppedComment path number (trim line)) else none

def text (pieces : List Text) : Text := trimRight (pieces.flatMap trimLeft)

end LineGroup

open LineGroup

section
variable {line : Text} {rest : List Text}

theorem commentSolid (comment : isComment line = true) : allBlank line = false := by
  rw [Bool.eq_false_iff]
  intro blank
  have none : trimLeft line = [] := List.dropWhile_eq_nil_iff.mpr (List.all_eq_true.mp blank)
  rw [isComment, none] at comment
  cases comment

theorem continuedSolid (continued : isContinued line = true) : allBlank line = false := by
  obtain ⟨front, rfl⟩ := endsForm.mp continued
  simp [allBlank, show isBlank '\\' = false by decide]

theorem blankLoose (blank : allBlank line = true) : isHeld line = false := by
  rw [isHeld, Bool.or_eq_false_iff]
  constructor
  · rw [Bool.eq_false_iff]
    intro comment
    simp [commentSolid comment] at blank
  · rw [Bool.eq_false_iff]
    intro continued
    simp [continuedSolid continued] at blank

theorem trimRightInner (first second : Text) :
    trimRight (first ++ trimRight second) = trimRight (first ++ second) := by
  obtain ⟨gap, blank, split⟩ := trimRightSplit second
  have whole : first ++ second = (first ++ trimRight second) ++ gap := by
    rw [List.append_assoc, ← split]
  rw [whole]
  exact (dropEndAppend _ blank).symm

theorem trimLeftFlat (pieces : List Text) :
    trimLeft (pieces.flatMap trimLeft) = pieces.flatMap trimLeft := by
  induction pieces with
  | nil => rfl
  | cons piece rest ih =>
    rw [List.flatMap_cons]
    cases front : trimLeft piece with
    | nil => simpa using ih
    | cons c more => simp [trimLeft, trimLeftHead front]

theorem textCons (piece : Text) (pieces : List Text) :
    trim (piece ++ text pieces) = text (piece :: pieces) := by
  have tight : trimLeft (text pieces) = text pieces := by
    have whole : text pieces = trim (pieces.flatMap trimLeft) := by rw [text, trim, trimLeftFlat]
    rw [whole, trimLeftTrim]
  have front : trimLeft (piece ++ text pieces) = trimLeft piece ++ text pieces := by
    rw [trimLeft, List.dropWhile_append]
    split
    · rename_i nothing
      rw [trimLeft, List.isEmpty_iff.mp nothing, List.nil_append]
      exact tight
    · rfl
  rw [trim, front, text, trimRightInner, text, List.flatMap_cons]

theorem textSingle (piece : Text) : text [piece] = trim piece := by
  simp [text, trim]

section
variable (rest)

theorem piecesHeld (held? : isHeld line = true) : pieces (line :: rest) =
    if isComment line then pieces rest else line.dropLast :: pieces rest := by
  unfold pieces held last?
  rw [List.takeWhile_cons_of_pos held?, List.dropWhile_cons_of_pos held?]
  split
  · rename_i comment
    simp [comment]
  · rename_i plain
    simp [plain]

theorem piecesLoose (loose : isHeld line = false) : pieces (line :: rest) =
    if allBlank line then [] else [line] := by
  unfold pieces held last?
  rw [List.takeWhile_cons_of_neg (by simp [loose]), List.dropWhile_cons_of_neg (by simp [loose])]
  split
  · rename_i blank
    simp [blank]
  · rename_i solid
    simp [solid]

theorem lengthHeld (held? : isHeld line = true) :
    LineGroup.length (line :: rest) = LineGroup.length rest + 1 := by
  unfold LineGroup.length held last?
  rw [List.takeWhile_cons_of_pos held?, List.dropWhile_cons_of_pos held?, List.length_cons]
  omega

theorem lengthLoose (loose : isHeld line = false) : LineGroup.length (line :: rest) = 1 := by
  unfold LineGroup.length held last?
  rw [List.takeWhile_cons_of_neg (by simp [loose]), List.dropWhile_cons_of_neg (by simp [loose])]
  rfl

theorem warningsHeld (path : Text) (number : Nat) (held? : isHeld line = true) :
    warnings path number (line :: rest) =
      (if isComment line then [droppedComment path (number + 1) (trim line)] else []) ++
        warnings path (number + 1) rest := by
  unfold warnings held
  rw [List.takeWhile_cons_of_pos held?, List.zipIdx_cons]
  split
  · rename_i comment
    simp [comment]
  · rename_i plain
    simp [plain]

theorem warningsLoose (path : Text) (number : Nat) (loose : isHeld line = false) :
    warnings path number (line :: rest) = [] := by
  unfold warnings held
  rw [List.takeWhile_cons_of_neg (by simp [loose])]
  rfl

end

theorem continuedFlat (rest : List Text) :
    (continued rest).text = text (pieces rest) ∧ (continued rest).length = LineGroup.length rest := by
  induction rest with
  | nil => exact ⟨rfl, rfl⟩
  | cons line rest ih =>
    simp only [continued]
    split
    · rename_i blank
      have loose := blankLoose blank
      rw [piecesLoose rest loose, lengthLoose rest loose, if_pos blank]
      exact ⟨rfl, rfl⟩
    rename_i solid
    split
    · rename_i comment
      have held? : isHeld line = true := by rw [isHeld, comment, Bool.true_or]
      rw [piecesHeld rest held?, lengthHeld rest held?, if_pos comment]
      exact ⟨ih.1, congrArg (· + 1) ih.2⟩
    rename_i plain
    split
    · rename_i continues
      have held? : isHeld line = true := by rw [isHeld, continues, Bool.or_true]
      rw [piecesHeld rest held?, lengthHeld rest held?, if_neg plain, ← textCons, ih.1]
      exact ⟨rfl, congrArg (· + 1) ih.2⟩
    · rename_i ends
      have loose : isHeld line = false := by simp [isHeld, plain, ends]
      rw [piecesLoose rest loose, lengthLoose rest loose, if_neg solid, textSingle]
      exact ⟨rfl, rfl⟩

theorem joinedFlat (line : Text) (rest : List Text) :
    joined line rest = if isComment line || !isContinued line then ⟨line, 0, false⟩
      else ⟨line.dropLast ++ text (pieces rest), LineGroup.length rest, (continued rest).cut⟩ := by
  rw [joined, (continuedFlat rest).1, (continuedFlat rest).2]

namespace Source

theorem continuationWarns (fuel : Nat) (s : Source) (enough : s.lines.length < fuel)
    (sound : s.ending = .finished) :
    continuation fuel none s = ⟨warnings s.path s.lineNumber s.lines, s.past (continued s.lines).length,
      .ok (continued s.lines).text⟩ := by
  induction fuel generalizing s with
  | zero => omega
  | succ fuel ih =>
    cases lines : s.lines with
    | nil =>
      have none : readLine Option.none s = ⟨[], s, .ok Option.none⟩ := by
        simp [readLine, grow, lines, sound]
      rw [continuation, Action.bindSilent none]
      rfl
    | cons line rest =>
      have shorter : (s.past 1).lines = rest := by simp [lines]
      have fewer : (s.past 1).lines.length < fuel := by
        rw [shorter]
        simp only [lines, List.length_cons] at enough
        omega
      have more := ih (s.past 1) fewer sound
      rw [shorter, pastPast, pastPath, pastNumber] at more
      rw [continuation, Action.bindSilent (readLineCons lines)]
      simp only [continued]
      split
      · rename_i blank
        rw [warningsLoose rest _ _ (blankLoose blank)]
        rfl
      rename_i solid
      split
      · rename_i comment
        have held? : isHeld line = true := by rw [isHeld, comment, Bool.true_or]
        rw [warningsHeld rest _ _ held?, if_pos comment, Nat.add_comm (continued rest).length]
        exact congrArg (Outcome.behind · [_]) more
      rename_i plain
      split
      · rename_i continues
        have held? : isHeld line = true := by rw [isHeld, continues, Bool.or_true]
        rw [warningsHeld rest _ _ held?, if_neg plain, Nat.add_comm (continued rest).length,
          Action.bindReturned more]
        simp
      · rename_i ends
        have loose : isHeld line = false := by simp [isHeld, plain, ends]
        rw [warningsLoose rest _ _ loose]
        rfl

theorem joinWarns (line : Text) {s : Source} (sound : s.ending = .finished) :
    join line none s =
      ⟨if isComment line || !isContinued line then [] else warnings s.path s.lineNumber s.lines,
        s.past (joined line s.lines).length, .ok (joined line s.lines).text⟩ := by
  unfold joined join
  split
  · rfl
  · have more := continuationWarns (2 * s.lines.length + 2) s (by omega) sound
    rw [Action.bindSilent (Action.stateApply none s), Action.bindReturned more]
    simp

theorem atSolidHere {s : Source} (lines : s.lines = line :: rest) (solid : allBlank line = false) :
    s.atSolid = s := by
  rw [atSolid, lines, List.takeWhile_cons_of_neg (by simp [solid])]
  rfl

theorem atSolidBlank {s : Source} (lines : s.lines = line :: rest) (blank : allBlank line = true) :
    s.atSolid = (s.past 1).atSolid := by
  rw [atSolid, atSolid, pastPast, lines, pastLines, lines, List.takeWhile_cons_of_pos blank,
    List.length_cons, Nat.add_comm]
  rfl

end Source

namespace LineStream

theorem findLineBlank {source : Source} (lines : source.lines = line :: rest)
    (blank : allBlank line = true) (below : List Source) (s : LineStream) :
    findLine (source :: below) none s = findLine (source.past 1 :: below) none s := by
  have same : firstLine none source = firstLine none (source.past 1) := by
    rw [firstLine, Action.bindSilent (Source.skipBlankApply source),
      Action.bindSilent (Source.skipBlankApply (source.past 1)), Source.atSolidBlank lines blank]
  rw [findLineCons, findLineCons, Action.bindApply, Action.bindApply, onSourceApply, onSourceApply,
    same]

theorem foundBlank {source : Source} (lines : source.lines = line :: rest)
    (blank : allBlank line = true) (below : List Source) (s : LineStream) :
    s.found (source :: below) = s.found (source.past 1 :: below) := by
  simp only [found, Source.atSolidBlank lines blank]
  rfl

theorem foundSolid {source : Source} (lines : source.lines = line :: rest)
    (solid : allBlank line = false) (below : List Source) (s : LineStream) :
    s.found (source :: below) = { s with
      sources := (source.past 1).past (joined line rest).length :: below
      eof := false
      next := (joined line rest).text
      nextLocation := some ⟨source.path, source.lineNumber + 1⟩ } := by
  simp only [found, Source.atSolidHere lines solid, lines]

theorem findLineWarns {source : Source} (lines : source.lines = line :: rest)
    (solid : allBlank line = false) (sound : source.ending = .finished) (below : List Source)
    (s : LineStream) :
    findLine (source :: below) none s =
      ⟨if isComment line || !isContinued line then []
        else warnings source.path (source.lineNumber + 1) rest, s.found (source :: below), .ok ()⟩ := by
  have here := Source.atSolidHere lines solid
  have opened : onSource source below firstLine none s =
      ⟨[], { s with sources := source.past 1 :: below }, .ok (some line, source.past 1)⟩ := by
    rw [onSourceApply, firstLineCons (by rw [here, lines]), here]
  have tail : (source.past 1).lines = rest := by simp [lines]
  have joining := Source.joinWarns line (s := source.past 1) sound
  rw [tail] at joining
  rw [findLineCons, Action.bindSilent opened]
  simp only [withFirst, Action.bindApply, Outcome.andThen, onSourceApply, Log.record, Option.map_none,
    Action.stateApply, Action.setStateApply, List.nil_append, joining, List.append_nil,
    foundSolid lines solid]
  rfl

end LineStream
end

/-- The scan of physical lines by groups: the logical lines they make up, and what is said about the
comments between the members of groups. `number` lines of the file stand before them. -/
inductive Scan (path : Text) : Nat → List Text → List LogicalLine → List Event → Prop where
  | finish {number} : Scan path number [] [] []
  | blank {number line rest lines warned} (blank : allBlank line = true)
      (onward : Scan path (number + 1) rest lines warned) : Scan path number (line :: rest) lines warned
  | alone {number line rest lines warned} (solid : allBlank line = false)
      (whole : isComment line = true ∨ isContinued line = false)
      (onward : Scan path (number + 1) rest lines warned) :
      Scan path number (line :: rest) (⟨line, ⟨path, number + 1⟩⟩ :: lines) warned
  | group {number line rest lines warned} (plain : isComment line = false)
      (continues : isContinued line = true)
      (onward : Scan path (number + 1 + LineGroup.length rest) (rest.drop (LineGroup.length rest))
        lines warned) :
      Scan path number (line :: rest)
        (⟨line.dropLast ++ text (pieces rest), ⟨path, number + 1⟩⟩ :: lines)
        (warnings path (number + 1) rest ++ warned)

variable {path : Text} {number : Nat}

theorem scanUnique {physical : List Text} {lines others : List LogicalLine} {warned told : List Event}
    (left : Scan path number physical lines warned) (right : Scan path number physical others told) :
    lines = others ∧ warned = told := by
  induction left generalizing others told with
  | finish =>
    cases right
    exact ⟨rfl, rfl⟩
  | blank blank onward ih =>
    cases right with
    | blank _ other => exact ih other
    | alone solid => simp [solid] at blank
    | group _ continues => simp [continuedSolid continues] at blank
  | alone solid whole onward ih =>
    cases right with
    | blank blank => simp [solid] at blank
    | alone _ _ other =>
      obtain ⟨rfl, rfl⟩ := ih other
      exact ⟨rfl, rfl⟩
    | group plain continues => simp [plain, continues] at whole
  | group plain continues onward ih =>
    cases right with
    | blank blank => simp [continuedSolid continues] at blank
    | alone _ whole => simp [plain, continues] at whole
    | group _ _ other =>
      obtain ⟨rfl, rfl⟩ := ih other
      exact ⟨rfl, rfl⟩

theorem scanLogical (path : Text) (number : Nat) (physical : List Text) :
    ∃ warned, Scan path number physical (logicalLines path number 0 physical) warned := by
  match physical with
  | [] => exact ⟨[], .finish⟩
  | line :: rest =>
    cases solid : allBlank line with
    | true =>
      obtain ⟨warned, onward⟩ := scanLogical path (number + 1) rest
      refine ⟨warned, ?_⟩
      rw [logicalLines, if_pos solid]
      exact .blank solid onward
    | false =>
      rw [logicalLinesCons path number line rest solid, joinedFlat]
      split
      · rename_i whole
        obtain ⟨warned, onward⟩ := scanLogical path (number + 1) rest
        exact ⟨warned, .alone solid (by simpa using whole) onward⟩
      · rename_i joins
        have shorter : (rest.drop (LineGroup.length rest)).length < rest.length + 1 := by
          rw [List.length_drop]
          omega
        obtain ⟨warned, onward⟩ := scanLogical path (number + 1 + LineGroup.length rest)
          (rest.drop (LineGroup.length rest))
        simp only [Bool.or_eq_true, Bool.not_eq_true', not_or, Bool.not_eq_true, Bool.not_eq_false] at joins
        exact ⟨_, .group joins.1 joins.2 onward⟩
termination_by physical.length

def Event.isWarning : Event → Bool
  | .told message => message.level = .warning
  | _ => false

theorem warningsWarn (path : Text) (number : Nat) (rest : List Text) :
    (warnings path number rest).filter Event.isWarning = warnings path number rest := by
  refine List.filter_eq_self.mpr fun event inside => ?_
  obtain ⟨⟨line, place⟩, _, said⟩ := List.mem_filterMap.mp inside
  dsimp only at said
  split at said
  · cases said
    rfl
  · cases said

inductive LineStream.Empties : LineStream → List LogicalLine → List Event → Prop where
  | ended {s} (eof : s.eof = true) : Empties s [] []
  | taken {s t line lines events told} (more : s.eof = false)
      (took : take false none s = ⟨events, t, .ok line.text⟩)
      (place : t.location = some line.location) (onward : Empties t lines told) :
      Empties s (line :: lines) (events ++ told)

theorem emptiesUnique {s : LineStream} {lines others : List LogicalLine} {events told : List Event}
    (left : s.Empties lines events) (right : s.Empties others told) :
    lines = others ∧ events = told := by
  induction left generalizing others told with
  | ended eof =>
    cases right with
    | ended => exact ⟨rfl, rfl⟩
    | taken more => simp [eof] at more
  | @taken s t line lines events told' more took place onward ih =>
    cases right with
    | ended eof => simp [more] at eof
    | @taken _ _ other _ _ _ _ took' place' onward' =>
      obtain ⟨text, location⟩ := line
      obtain ⟨text', location'⟩ := other
      cases took.symm.trans took'
      cases place.symm.trans place'
      obtain ⟨rfl, rfl⟩ := ih onward'
      exact ⟨rfl, rfl⟩

structure Source.Holds (source : Source) (path : Text) (number : Nat) (physical : List Text) : Prop where
  path : source.path = path
  number : source.lineNumber = number
  lines : source.lines = physical
  sound : source.ending = .finished

theorem holdsPast {source : Source} {physical : List Text} (holds : source.Holds path number physical)
    (count : Nat) : (source.past count).Holds path (number + count) (physical.drop count) where
  path := holds.path
  number := by rw [Source.pastNumber, holds.number]
  lines := by rw [Source.pastLines, holds.lines]
  sound := holds.sound

def Source.Gives (source : Source) (lines : List LogicalLine) (warned : List Event) : Prop :=
  ∀ s : LineStream, ∃ told events, findLine [source] none s = ⟨told, s.found [source], .ok ()⟩ ∧
    (s.found [source]).Empties lines events ∧ (told ++ events).filter Event.isWarning = warned

theorem givesNone {source : Source} (none : source.lines = []) (sound : source.ending = .finished) :
    source.Gives [] [] := by
  intro s
  have bare : source.atSolid.lines = [] := by
    rw [Source.atSolidLines, none]
    rfl
  rcases firstLineNil bare with ⟨_, first⟩ | ⟨unsound, _⟩
  · have opened : onSource source [] firstLine Option.none s =
        ⟨[], { s with sources := [source.atSolid] }, .ok (Option.none, source.atSolid)⟩ := by
      rw [onSourceApply, first]
    have ended : s.found [source] = s.found [] := by simp only [found, bare]
    have finds : findLine [source] Option.none s =
        ⟨[.debug .stream ("Finished reading makefile '".toList ++ source.path ++ ['\''])],
          s.found [source], .ok ()⟩ := by
      rw [findLineCons, Action.bindSilent opened, ended]
      rfl
    exact ⟨_, [], finds, .ended (by rw [ended]; rfl), rfl⟩
  · exact absurd sound unsound

theorem givesBlank {source : Source} {line : Text} {rest : List Text} {lines : List LogicalLine}
    {warned : List Event} (first : source.lines = line :: rest) (blank : allBlank line = true)
    (onward : (source.past 1).Gives lines warned) : source.Gives lines warned := by
  intro s
  rw [findLineBlank first blank, foundBlank first blank]
  exact onward s

theorem givesSolid {source : Source} {line : Text} {rest : List Text} {lines : List LogicalLine}
    {warned : List Event} (first : source.lines = line :: rest) (solid : allBlank line = false)
    (sound : source.ending = .finished) {joint : Continued} (joins : joined line rest = joint)
    (onward : ((source.past 1).past joint.length).Gives lines warned) :
    source.Gives (⟨joint.text, ⟨source.path, source.lineNumber + 1⟩⟩ :: lines)
      ((if isComment line || !isContinued line then []
        else warnings source.path (source.lineNumber + 1) rest) ++ warned) := by
  intro s
  have finds := findLineWarns first solid sound [] s
  have here := foundSolid first solid [] s
  rw [joins] at here
  generalize s.found [source] = t at finds here ⊢
  obtain ⟨told, events, further, empties, warns⟩ := onward t.atNext
  have took : take false none t =
      ⟨.took true :: told, t.atNext.found [(source.past 1).past joint.length],
        .ok joint.text⟩ := by
    have sources : t.sources = [(source.past 1).past joint.length] := by rw [here]
    have next : t.next = joint.text := by rw [here]
    rw [takeMoving, sources, next, Action.bindReturned further]
    simp
  have place : (t.atNext.found [(source.past 1).past joint.length]).location =
      some ⟨source.path, source.lineNumber + 1⟩ := by
    rw [(foundKeeps _ _).2, here]
    rfl
  refine ⟨_, .took true :: told ++ events, finds, .taken (by rw [here]) took place empties, ?_⟩
  have said : ∀ warned : List Event, warned.filter Event.isWarning = warned →
      (warned ++ (.took true :: told ++ events)).filter Event.isWarning =
        warned ++ (told ++ events).filter Event.isWarning := by
    intro warned kept
    rw [List.filter_append, kept, List.cons_append, List.filter_cons_of_neg (by simp [Event.isWarning])]
  rw [said, warns]
  split
  · rfl
  · exact warningsWarn ..

theorem scanGives {physical : List Text} {lines : List LogicalLine} {warned : List Event}
    (scan : Scan path number physical lines warned) {source : Source}
    (holds : source.Holds path number physical) : source.Gives lines warned := by
  induction scan generalizing source with
  | finish => exact givesNone holds.lines holds.sound
  | blank blank onward ih => exact givesBlank holds.lines blank (ih (holdsPast holds 1))
  | @alone number line rest lines warned solid whole onward ih =>
    have alone : (isComment line || !isContinued line) = true := by simpa using whole
    have gives := givesSolid holds.lines solid holds.sound (if_pos alone)
      (ih (holdsPast (holdsPast holds 1) 0))
    rw [if_pos alone, holds.path, holds.number] at gives
    exact gives
  | @group number line rest lines warned plain continues onward ih =>
    have joins : ¬(isComment line || !isContinued line) = true := by simp [plain, continues]
    have gives := givesSolid holds.lines (continuedSolid continues) holds.sound
      ((joinedFlat line rest).trans (if_neg joins))
      (ih (holdsPast (holdsPast holds 1) (LineGroup.length rest)))
    rw [if_neg joins, holds.path, holds.number] at gives
    exact gives

theorem originHolds {origin : Origin} {files : FileTree} {source : Source}
    (opened : origin.source? files = some source) (sound : source.ending = .finished) :
    source.Holds origin.path 0 source.lines where
  path := by
    cases origin with
    | file path =>
      change files.source? path = some source at opened
      unfold FileTree.source? at opened
      split at opened <;> try contradiction
      cases Option.some.inj opened
      simp only [Source.ofFile, Source.ofBytes]
      split
      · rfl
      · split <;> rfl
    | text path content =>
      cases Option.some.inj opened
      rfl
  number := openedNumber (.inl opened)
  lines := rfl
  sound := sound

theorem startFinds {origin : Origin} {files : FileTree} {source : Source}
    (opened : origin.source? files = some source) (workDir? : Option Text) (s : LineStream) :
    ∃ first base, first.filter Event.isWarning = [] ∧
      origin.start files workDir? none s = (findLine [source] none base).behind first := by
  cases origin with
  | file path =>
    change files.source? path = some source at opened
    unfold FileTree.source? at opened
    split at opened <;> try contradiction
    rename_i file
    cases Option.some.inj opened
    exact ⟨_, _, rfl, goIntoOpened file⟩
  | text path content =>
    cases Option.some.inj opened
    exact ⟨[], _, rfl, rfl⟩

theorem textKept (front : List Text) {last : Text} {behind : List Text} (solid : allBlank last = false)
    (blank : ∀ piece ∈ behind, allBlank piece = true) :
    text (front ++ last :: behind) = front.flatMap trimLeft ++ trim last := by
  have none : behind.flatMap trimLeft = [] := by
    refine List.flatMap_eq_nil_iff.mpr fun piece inside => ?_
    exact List.dropWhile_eq_nil_iff.mpr (List.all_eq_true.mp (blank piece inside))
  have some : trim last ≠ [] := by
    intro nothing
    have same := trimBlank last
    rw [nothing, solid] at same
    cases same
  obtain ⟨before, c, split⟩ := (List.eq_nil_or_concat (trim last)).resolve_left some
  rw [List.concat_eq_append] at split
  have tight : isBlank c = false := trimRightLast (t := trimLeft last) (by
    rw [show trimRight (trimLeft last) = trim last from rfl, split]
    simp)
  rw [text, List.flatMap_append, List.flatMap_cons, none, List.append_nil, ← trimRightInner,
    show trimRight (trimLeft last) = trim last from rfl, split, ← List.append_assoc, trimRight,
    dropEndKeeps _ tight]

structure Origin.Scanned (origin : Origin) (files : FileTree) (workDir? : Option Text) (source : Source) :
    Prop where
  scanned : ∃ lines warned, Scan origin.path 0 source.lines lines warned
  remaining : ∀ lines warned, Scan origin.path 0 source.lines lines warned → source.remaining = lines
  delivers : ∀ s lines warned, Scan origin.path 0 source.lines lines warned ↔
    ∃ told t events, origin.start files workDir? none s = ⟨told, t, .ok ()⟩ ∧
      t.Empties lines events ∧ (told ++ events).filter Event.isWarning = warned
  kept : ∀ (front : List Text) last behind, allBlank last = false →
    (∀ piece ∈ behind, allBlank piece = true) →
      LineGroup.text (front ++ last :: behind) = front.flatMap trimLeft ++ trim last

theorem streamScans {origin : Origin} {files : FileTree} {source : Source}
    (opened : origin.source? files = some source) (sound : source.ending = .finished)
    (workDir? : Option Text) : origin.Scanned files workDir? source := by
  have holds := originHolds opened sound
  have gives : ∀ s lines warned, Scan origin.path 0 source.lines lines warned →
      ∃ told t events, origin.start files workDir? none s = ⟨told, t, .ok ()⟩ ∧
        t.Empties lines events ∧ (told ++ events).filter Event.isWarning = warned := by
    intro s lines warned scan
    obtain ⟨first, base, quiet, starts⟩ := startFinds opened workDir? s
    obtain ⟨told, events, finds, empties, warns⟩ := scanGives scan holds base
    refine ⟨first ++ told, _, events, by rw [starts, finds, Outcome.behindMk], empties, ?_⟩
    rw [List.append_assoc, List.filter_append, quiet, List.nil_append, warns]
  obtain ⟨warned, scan⟩ := scanLogical origin.path 0 source.lines
  have logical : source.remaining = logicalLines origin.path 0 0 source.lines := by
    rw [Source.remaining, holds.path, holds.number]
  refine ⟨⟨_, warned, scan⟩, fun lines told other => logical.trans (scanUnique scan other).1,
    fun s lines told => ⟨gives s lines told, ?_⟩, fun front _ _ => textKept front⟩
  -- Starting and taking are determined, so what is delivered is what the one scan gives.
  rintro ⟨before, t, events, starts, empties, rfl⟩
  obtain ⟨before', t', events', starts', empties', rfl⟩ := gives s _ _ scan
  cases starts.symm.trans starts'
  obtain ⟨rfl, rfl⟩ := emptiesUnique empties empties'
  exact scan

def groupedText : Text := "a \\\n  b \\\n# c\n \\\n\t\nd\n".toList

theorem groupedScans :
    ((Origin.text "Makefile".toList groupedText).source? ⟨['/'], []⟩ =
        some (.ofText "Makefile".toList groupedText) ∧
      (Source.ofText "Makefile".toList groupedText).ending = .finished) ∧
    (Origin.text "Makefile".toList groupedText).Scanned ⟨['/'], []⟩ none
      (.ofText "Makefile".toList groupedText) :=
  ⟨⟨rfl, rfl⟩, streamScans rfl rfl none⟩

example : logicalLines "Makefile".toList 0 0 (Source.textLines groupedText) =
    [⟨"a b".toList, ⟨"Makefile".toList, 1⟩⟩, ⟨"d".toList, ⟨"Makefile".toList, 6⟩⟩] := by
  decide +kernel

end MakeTree
