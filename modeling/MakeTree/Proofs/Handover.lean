import MakeTree.Proofs.BlockMoves

/-! Whole runs keep the bargain with the stream. Every line is handed over once and in its turn;
a file is entered exactly where the line before names one, and nothing happens to the stream in
between. -/
namespace MakeTree
open Text MakeTree.Action LineStream

def Block.isMakefile : Block → Bool
  | .makefile _ => true
  | _ => false

def Rooted : Block → List Block → Prop
  | block, [] => block.isMakefile = true
  | _, block :: outer => Rooted block outer

theorem rootedReplaced {block other : Block} {outer : List Block}
    (same : other.isMakefile = block.isMakefile) (rooted : Rooted block outer) :
    Rooted other outer := by
  cases outer with
  | nil => exact same.trans rooted
  | cons _ _ => exact rooted

theorem addAllMakefile (block : Block) (added : List Statement) :
    (block.addAll added).isMakefile = block.isMakefile := by
  cases block <;> rfl

def Change.kept? : Change → Option Block
  | .stay block => some block
  | .nest block _ => some block
  | .close _ => none

theorem withinKept (begun : Begun) (block : Block) :
    ∃ kept, (begun.within block).kept? = some kept ∧ kept.isMakefile = block.isMakefile := by
  cases begun with
  | nothing => exact ⟨block, rfl, rfl⟩
  | whole statement => exact ⟨_, rfl, addAllMakefile block _⟩
  | opened inner => exact ⟨block, rfl, rfl⟩

theorem movesKept {setting : Setting} {workDir : Text} {block : Block}
    {lines rest : List LogicalLine} {change : Change} {entered : Prop}
    (moves : block.Moves setting workDir entered lines change rest) :
    match change.kept? with
    | some kept => kept.isMakefile = block.isMakefile
    | none => block.isMakefile = true → rest = [] := by
  cases moves with
  | finish => exact fun _ => rfl
  | statement inside passes begins =>
    rename_i stops line lines begun
    obtain ⟨kept, found, same⟩ := withinKept begun block
    rw [found]
    exact same
  | otherwiseWith keyword unconditional solid begins =>
    rename_i before current start line lines begun
    obtain ⟨kept, found, same⟩ := withinKept begun (.otherwise before current start [])
    rw [found]
    exact same
  | step | blank | chain | otherwise => rfl
  | ended | endLink | endOtherwise => exact fun none => by cases none

inductive Block.Runs (setting : Setting) (workDir : Text) (entered : Prop) :
    Block → List Block → List LogicalLine → List Statement → Prop where
  | stay {block next outer lines rest statements}
      (moves : block.Moves setting workDir entered lines (.stay next) rest)
      (onward : Runs setting workDir entered next outer rest statements) :
      Runs setting workDir entered block outer lines statements
  | nest {block next inner outer lines rest statements}
      (moves : block.Moves setting workDir entered lines (.nest next inner) rest)
      (onward : Runs setting workDir entered inner (next :: outer) rest statements) :
      Runs setting workDir entered block outer lines statements
  | close {block around outer lines rest inner statements}
      (moves : block.Moves setting workDir entered lines (.close inner) rest)
      (onward : Runs setting workDir entered (around.addAll inner) outer rest statements) :
      Runs setting workDir entered block (around :: outer) lines statements
  | finish {block lines statements}
      (moves : block.Moves setting workDir entered lines (.close statements) []) :
      Runs setting workDir entered block [] lines statements

theorem Block.Runs.allow {setting : Setting} {workDir : Text} {entered wider : Prop} {block : Block}
    {outer : List Block} {lines : List LogicalLine} {statements : List Statement}
    (wide : entered → wider) (runs : block.Runs setting workDir entered outer lines statements) :
    block.Runs setting workDir wider outer lines statements := by
  induction runs with
  | stay moves _ ih => exact .stay (moves.allow wide) ih
  | nest moves _ ih => exact .nest (moves.allow wide) ih
  | close moves _ ih => exact .close (moves.allow wide) ih
  | finish moves => exact .finish (moves.allow wide)

def Ran (setting : Setting) (s : LineStream) (block : Block) (outer : List Block)
    (lines : List LogicalLine) (events : List Event) (phase : Phase) :
    Option (List Statement × Variables) → Prop
  | none => ∃ rest, phase = .moving rest
  | some (statements, _) => phase = .moving [] ∧
      block.Runs setting s.workDir (Entered events) outer lines statements

theorem runFollows {setting : Setting} (fuel : Nat) {vars : Variables} {block : Block}
    {outer : List Block} {s : LineStream} {lines : List LogicalLine} (shows : s.Shows lines)
    (rooted : Rooted block outer) :
    (block.run setting fuel vars outer).Follows setting.files (.moving lines) s
      fun events read _ q => Ran setting s block outer lines events q read := by
  induction fuel generalizing vars block outer s lines with
  | zero => exact followsPure ⟨lines, rfl⟩
  | succ fuel ih =>
    rw [Block.run]
    -- Only a makefile has no block around it, and it closes with no line left.
    refine followsBind (stepFollows block shows) fun before change t q stepped => ?_
    obtain ⟨change, vars⟩ := change
    obtain ⟨onward, rest, rfl, showsRest, moves⟩ := stepped
    have kept := movesKept moves
    simp only [Ran, ← onward.workDir] at moves ih ⊢
    cases change with
    | stay next =>
      refine followsWeaken (ih showsRest (rootedReplaced kept rooted)) fun after read u q ran => ?_
      cases read with
      | none => exact ran
      | some read => exact ⟨ran.1,
          .stay (moves.allow (enteredLeft · after)) (ran.2.allow (enteredRight · before))⟩
    | nest next inner =>
      have around : Rooted next outer := rootedReplaced kept rooted
      have under : Rooted inner (next :: outer) := around
      refine followsWeaken (ih showsRest under) fun after read u q ran => ?_
      cases read with
      | none => exact ran
      | some read => exact ⟨ran.1,
          .nest (moves.allow (enteredLeft · after)) (ran.2.allow (enteredRight · before))⟩
    | close statements =>
      cases outer with
      | nil =>
        cases kept rooted
        exact followsPure ⟨rfl, .finish (moves.allow (enteredLeft · []))⟩
      | cons around outer =>
        have again : Rooted (around.addAll statements) outer :=
          rootedReplaced (addAllMakefile around statements) rooted
        refine followsWeaken (ih showsRest again) fun after read u q ran => ?_
        cases read with
        | none => exact ran
        | some read => exact ⟨ran.1,
            .close (moves.allow (enteredLeft · after)) (ran.2.allow (enteredRight · before))⟩

namespace Origin

def resolved (files : FileTree) : Origin → Origin
  | .file path => .file (files.absolute path)
  | .text path content => .text path content

def setting (files : FileTree) (origin : Origin) : Setting :=
  ⟨files, Path.parent (files.absolute (origin.resolved files).path)⟩

def read (files : FileTree) (workDir? : Option Text) (fuel : Nat) :
    Origin → Outcome LineStream (Option Makefile)
  | .file path => Makefile.ofFile fuel files path workDir?
  | .text path content => Makefile.ofText fuel files path content workDir?

def pending (files : FileTree) (origin : Origin) : List LogicalLine :=
  ((origin.resolved files).source? files).elim [] Source.remaining

def makefile (files : FileTree) (origin : Origin) (read : List Statement × Variables) : Makefile :=
  ⟨(origin.resolved files).path, (origin.setting files).root, read.1, read.2⟩

theorem readApply (files : FileTree) (workDir? : Option Text) (fuel : Nat) (origin : Origin) :
    origin.read files workDir? fuel = Makefile.readAll fuel files (origin.resolved files).path
      ((origin.resolved files).start files workDir?) none (.empty []) := by
  cases origin <;> rfl

section
variable {files : FileTree} {workDir? : Option Text} {fuel : Nat} {origin : Origin}
  {t : LineStream} {events : List Event}

theorem readRefused {failure : Failure}
    (begun : (origin.resolved files).start files workDir? none (.empty []) =
      ⟨events, t, .error failure⟩) :
    origin.read files workDir? fuel = ⟨events, t, .error failure⟩ := by
  rw [readApply, Makefile.readAll, bindFailed begun]

theorem readStarted
    (begun : (origin.resolved files).start files workDir? none (.empty []) = ⟨events, t, .ok ()⟩) :
    let run := (Block.makefile []).run (origin.setting files) fuel .empty [] none t
    origin.read files workDir? fuel =
      ⟨events ++ run.events, run.state, run.result.map (Option.map (origin.makefile files))⟩ := by
  rw [readApply, Makefile.readAll, bindReturned begun, returnApply]
  rfl

theorem readReturned {makefile : Makefile}
    (ok : (origin.read files workDir? fuel).result = .ok (some makefile)) :
    ∃ events t,
      (origin.resolved files).start files workDir? none (.empty []) = ⟨events, t, .ok ()⟩ ∧
      ((Block.makefile []).run (origin.setting files) fuel .empty [] none t).result =
        .ok (some (makefile.statements, makefile.vars)) := by
  cases begun : (origin.resolved files).start files workDir? none (.empty []) with
  | mk events t started =>
    cases started with
    | error failure => rw [readRefused begun] at ok; cases ok
    | ok done =>
      refine ⟨events, t, rfl, ?_⟩
      rw [readStarted begun] at ok
      obtain ⟨read, result, same⟩ := mapOk ok
      obtain ⟨read, rfl, rfl⟩ := Option.map_eq_some_iff.mp same
      exact result

end

theorem startFollows (files : FileTree) (workDir? : Option Text) (origin : Origin)
    (s : LineStream) :
    (origin.start files workDir?).Follows files
      (.moving ((origin.source? files).elim [] Source.remaining)) s fun _ _ t phase =>
        ∃ source, origin.source? files = some source ∧ t.Shows source.remaining ∧
          phase = .moving source.remaining ∧ t.workDir = origin.workDir files workDir? := by
  obtain ⟨first, told, messages, asked, events⟩ := origin.startEvents s files workDir?
  have idle : Idle (first ++ told) := by
    refine idleAppend (List.all_eq_true.mpr fun event member => ?_) (onlyToldIdle messages)
    rw [asked event member]
    rfl
  refine ⟨_, events ▸ Phase.replayIdle files _ idle, ?_⟩
  cases outcome : origin.start files workDir? none s with
  | mk events t result =>
    cases result with
    | error failure => trivial
    | ok done =>
      obtain ⟨source, opened, rfl⟩ := startReturned outcome
      have shows := foundShows (empty (origin.workDir files workDir?)) [source]
      rw [LineStream.pending, List.flatMap_cons, List.flatMap_nil, List.append_nil] at shows
      exact ⟨source, opened, shows, by rw [opened]; rfl, (foundKeeps _ _).1⟩

def Reads (files : FileTree) (workDir? : Option Text) (origin : Origin) (entered : Prop)
    (statements : List Statement) : Prop :=
  (Block.makefile []).Runs (origin.setting files) ((origin.resolved files).workDir files workDir?)
    entered [] (origin.pending files) statements

def Came (files : FileTree) (workDir? : Option Text) (origin : Origin) (events : List Event)
    (phase : Phase) : Option Makefile → Prop
  | none => ∃ rest, phase = .moving rest
  | some makefile => phase = .moving [] ∧
      origin.Reads files workDir? (Entered events) makefile.statements

theorem readFollows (files : FileTree) (workDir? : Option Text) (fuel : Nat) (origin : Origin) :
    ∃ phase,
      (Phase.moving (origin.pending files)).replay files (origin.read files workDir? fuel).events =
        some phase ∧
      match (origin.read files workDir? fuel).result with
      | .ok read => origin.Came files workDir? (origin.read files workDir? fuel).events phase read
      | .error failure => phase.MayStop failure.cause := by
  have whole : (Makefile.readAll fuel files (origin.resolved files).path
      ((origin.resolved files).start files workDir?)).Follows files (.moving (origin.pending files))
      (.empty []) fun events read _ q => origin.Came files workDir? events q read := by
    refine followsBind (startFollows files workDir? _ _) fun before _ t q started => ?_
    obtain ⟨source, opened, shows, rfl, workDir⟩ := started
    have all : origin.pending files = source.remaining := by rw [pending, opened]; rfl
    have root : Rooted (.makefile []) [] := rfl
    refine followsBind (@runFollows (origin.setting files) fuel _ _ _ _ _ shows root) fun within read u q ran => followsPure ?_
    cases read with
    | none => exact ran
    | some read =>
      refine ⟨ran.1, ?_⟩
      unfold Reads
      rw [all, ← workDir, List.append_nil]
      exact ran.2.allow (enteredRight · before)
  rw [readApply]
  obtain ⟨phase, replayed, after⟩ := whole
  refine ⟨phase, replayed, ?_⟩
  split at after
  · rename_i read result
    rw [result]
    exact after
  · rename_i failure result
    rw [result]
    exact after

end Origin

namespace Phase

theorem replaySplit {files : FileTree} {phase last : Phase} {before after : List Event}
    {event : Event} (replayed : phase.replay files (before ++ event :: after) = some last) :
    ∃ middle next, phase.replay files before = some middle ∧
      middle.after files event = some next ∧ next.replay files after = some last := by
  rw [replayAppend] at replayed
  obtain ⟨middle, first, rest⟩ := Option.bind_eq_some_iff.mp replayed
  obtain ⟨next, step, onward⟩ := Option.bind_eq_some_iff.mp rest
  exact ⟨middle, next, first, step, onward⟩

theorem waitingNext {files : FileTree} {lines : List LogicalLine} {events : List Event}
    {last : Phase} (replayed : (Phase.waiting lines).replay files events = some last) :
    Idle events ∧ last = .waiting lines ∨
      ∃ idle path rest, Idle idle ∧ events = idle ++ .included path :: rest := by
  induction events with
  | nil => exact .inl ⟨idleNil, (Option.some.inj replayed).symm⟩
  | cons event rest ih =>
    cases event with
    | included path => exact .inr ⟨[], path, rest, idleNil, rfl⟩
    | peeked | took advanced => cases replayed
    | told _ | assigned _ _ | unassigned _ | lookedUp _ | printed _ | reported _ =>
      rcases ih replayed with ⟨idle, rfl⟩ | ⟨idle, path, more, quiet, rfl⟩
      · exact .inl ⟨idleAppend (idleOne rfl) idle, rfl⟩
      · exact .inr ⟨_ :: idle, path, more, idleAppend (idleOne rfl) quiet, rfl⟩

theorem afterIncluded {files : FileTree} {phase next : Phase} {path : Text}
    (step : phase.after files (.included path) = some next) : ∃ lines, phase = .waiting lines := by
  cases phase with
  | waiting lines => exact ⟨lines, rfl⟩
  | moving lines => simp [after, Event.isAside] at step
  | halted => simp [after, Event.isAside] at step

theorem afterTook {files : FileTree} {phase next : Phase}
    (step : phase.after files (.took false) = some next) : ∃ lines, next = .waiting lines := by
  cases phase with
  | waiting lines => simp [after, Event.isAside] at step
  | halted => simp [after, Event.isAside] at step
  | moving lines =>
    cases lines with
    | nil => simp [after, Event.isAside] at step
    | cons line rest => exact ⟨rest, (Option.some.inj step).symm⟩

theorem afterWaits {files : FileTree} {phase : Phase} {lines : List LogicalLine} {event : Event}
    (step : phase.after files event = some (.waiting lines)) (acts : event.isAside ≠ true) :
    event = .took false := by
  unfold after at step
  split at step
  · cases step
  · cases step
  · rfl
  · split at step <;> cases step
  · rw [if_neg acts] at step
    cases step

theorem waitingSince {files : FileTree} {start lines : List LogicalLine} {events : List Event}
    (replayed : (Phase.moving start).replay files events = some (.waiting lines)) :
    ∃ earlier idle, events = earlier ++ .took false :: idle ∧ Idle idle := by
  -- The handover is the last event that is not aside, so the events are taken from the end.
  induction events using List.reverseRecOn generalizing lines with
  | nil => cases replayed
  | append_singleton before event ih =>
    obtain ⟨middle, next, first, step, onward⟩ := replaySplit replayed
    cases Option.some.inj onward
    by_cases aside : event.isAside = true
    · rw [afterAside files middle aside] at step
      cases Option.some.inj step
      obtain ⟨earlier, idle, rfl, quiet⟩ := ih first
      exact ⟨earlier, idle ++ [event], by simp, idleAppend quiet (idleOne aside)⟩
    · exact ⟨before, [], by rw [afterWaits step aside], idleNil⟩

end Phase

/-- Where a line is handed over without moving on, the next that happens to the stream is that a file
is entered, or else the run ends for want of a path; a file is entered nowhere else. Every handover is
of the line whose turn it is, and none is left if there is a result. -/
structure KeepsBargain (files : FileTree) (start : List LogicalLine)
    (o : Outcome LineStream (Option Makefile)) : Prop where
  awaited : ∀ before after, o.events = before ++ .took false :: after →
    (∃ idle path rest, Idle idle ∧ after = idle ++ .included path :: rest) ∨
      Idle after ∧ ∃ failure, o.result = .error failure ∧ failure.cause = .noIncludePath
  prompted : ∀ before path after, o.events = before ++ .included path :: after →
    ∃ earlier idle, before = earlier ++ .took false :: idle ∧ Idle idle
  accounted : ∃ phase, (Phase.moving start).replay files o.events = some phase ∧
    ∀ makefile, o.result = .ok (some makefile) → phase = .moving []

theorem readKeepsBargain (files : FileTree) (workDir? : Option Text) (fuel : Nat) (origin : Origin) :
    KeepsBargain files (origin.pending files) (origin.read files workDir? fuel) := by
  obtain ⟨phase, replayed, after⟩ := origin.readFollows files workDir? fuel
  refine ⟨fun before rest split => ?_, fun before path rest split => ?_, phase, replayed, ?_⟩
  · rw [split] at replayed
    obtain ⟨middle, next, _, step, onward⟩ := Phase.replaySplit replayed
    obtain ⟨lines, rfl⟩ := Phase.afterTook step
    rcases Phase.waitingNext onward with ⟨idle, rfl⟩ | entered
    · right
      refine ⟨idle, ?_⟩
      cases result : (origin.read files workDir? fuel).result with
      | error failure => rw [result] at after; exact ⟨failure, rfl, after⟩
      | ok read =>
        rw [result] at after
        cases read with
        | none => obtain ⟨_, same⟩ := after; cases same
        | some makefile => cases after.1
    · exact .inl entered
  · rw [split] at replayed
    obtain ⟨middle, next, first, step, _⟩ := Phase.replaySplit replayed
    obtain ⟨lines, rfl⟩ := Phase.afterIncluded step
    exact Phase.waitingSince first
  · intro makefile result
    rw [result] at after
    exact after.1

theorem readStatements {files : FileTree} {workDir? : Option Text} {fuel : Nat} {origin : Origin}
    {makefile : Makefile} (ok : (origin.read files workDir? fuel).result = .ok (some makefile)) :
    origin.Reads files workDir? (Entered (origin.read files workDir? fuel).events)
      makefile.statements := by
  obtain ⟨phase, _, after⟩ := origin.readFollows files workDir? fuel
  rw [ok] at after
  exact after.2

def NeverDefers {α : Type} (x : Action LineStream α) : Prop :=
  ∀ s, .took false ∉ (x none s).events

theorem quietNeverDefers {α : Type} {x : Action LineStream α} (quiet : x.Quiet) :
    NeverDefers x := by
  intro s member
  cases List.all_eq_true.mp (quiet s) _ member

theorem bindNeverDefers {α β : Type} {x : Action LineStream α} {f : α → Action LineStream β}
    (first : NeverDefers x) (rest : ∀ a, NeverDefers (f a)) : NeverDefers (x >>= f) := by
  intro s
  have before := first s
  cases outcome : x none s with
  | mk events t result =>
    rw [outcome] at before
    cases result with
    | error failure => rw [bindFailed outcome]; exact before
    | ok a =>
      rw [bindReturned outcome]
      exact fun member => (List.mem_append.mp member).elim before (rest a t)

theorem takeNeverDefers : NeverDefers (take false) := by
  intro s member
  obtain ⟨told, messages, events⟩ := takeEvents s
  rw [events] at member
  rcases List.mem_cons.mp member with same | inside
  · cases same
  · obtain ⟨message, same⟩ := messages _ inside
    cases same

theorem recipeNeverDefers (setting : Setting) (vars : Variables) (header : RuleHeader)
    (directory : Text) (recipe : List Statement) :
    NeverDefers ((Block.rule header directory recipe).step setting vars) := by
  rw [ruleStep]
  refine bindNeverDefers (fun s => by simp [peek, bindApply, Outcome.andThen]) fun next => ?_
  split
  · refine bindNeverDefers takeNeverDefers fun line => ?_
    split
    · exact quietNeverDefers (quietPure _)
    · refine bindNeverDefers (quietNeverDefers quietState) fun s => ?_
      refine bindNeverDefers (quietNeverDefers (statelessWithin ?_ directory).quiet) fun read => ?_
      · exact Recipe.readStepQuiet setting vars line s.location
      · exact quietNeverDefers (quietPure _)
  · exact quietNeverDefers (quietPure _)

/-- The test by which the stream stops and the rules by which the parser reads agree in every run:
on whole lines, behind `else`, and in recipes. What is read is then made of each line once. -/
theorem deferralAgrees (files : FileTree) (workDir? : Option Text) (fuel : Nat) (origin : Origin) :
    KeepsBargain files (origin.pending files) (origin.read files workDir? fuel) ∧
    (∀ makefile, (origin.read files workDir? fuel).result = .ok (some makefile) →
      origin.Reads files workDir? True makefile.statements) ∧
    (∀ line, isInclude line = true ↔ LineKind.of (trim line) = .inclusion) ∧
    (∀ rest, isInclude rest = true ↔
      Keyword.ofLine? rest ≠ some .ifeq ∧ Keyword.ofLine? rest ≠ some .ifneq ∧
      ¬(rest = [] ∨ startsWith ['#'] rest = true) ∧ LineKind.of (trim rest) = .inclusion) ∧
    ∀ setting vars header directory recipe,
      NeverDefers ((Block.rule header directory recipe).step setting vars) :=
  ⟨readKeepsBargain files workDir? fuel origin,
    fun _ ok => (readStatements ok).allow fun _ => trivial,
    fun line => (inclusionKind line).symm, remainderInclusion, recipeNeverDefers⟩

end MakeTree
