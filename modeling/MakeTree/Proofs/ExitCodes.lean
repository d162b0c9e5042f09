import MakeTree.CommandLine.Command
import MakeTree.Proofs.Faults
import MakeTree.Proofs.UnreadLogs

/-! What a caller of the command sees: what it prints, and the codes it reports. It prints one text and
then reports one code, when all of the makefile has been read or is known to fail. While files include
each other without end, and where a path with a null byte comes out of the command unanswered, nothing
has been printed and no code reported. A log that is not read itself has no part in this. -/
namespace MakeTree
open Text MakeTree.Action

theorem Action.emitThen {σ α : Type} (event : Event) (x : Action σ α) (log : Log) (s : σ) :
    (emit event >>= fun _ => x) log s = (x (log.record [event]) s).behind [event] := rfl

theorem Log.recordAppend (log : Log) (first second : List Event) :
    log.record (first ++ second) = (log.record first).record second := by
  cases log with
  | none => rfl
  | some l =>
    simp only [Log.record, Option.map_some, LogFile.recordApply, logText, messagesFrom,
      List.filterMap_append, List.filter_append, List.flatMap_append, List.append_assoc]

theorem Block.runMore {setting : Setting} {fuel : Nat} {vars : Variables} {block : Block}
    {outer : List Block} {log : Log} {s : LineStream}
    (reached : (block.run setting fuel vars outer log s).result ≠ .ok none) (more : Nat) :
    block.run setting (fuel + more) vars outer log s = block.run setting fuel vars outer log s := by
  induction fuel generalizing vars block outer log s with
  | zero => exact absurd rfl reached
  | succ fuel ih =>
    rw [show fuel + 1 + more = fuel + more + 1 by omega]
    rw [Block.run] at reached ⊢
    rw [Block.run]
    cases stepped : block.step setting vars log s with
    | mk events t result =>
      cases result with
      | error failure => rw [thenFailed stepped, thenFailed stepped]
      | ok read =>
        obtain ⟨change, after⟩ := read
        rw [thenReturned stepped] at reached ⊢
        rw [thenReturned stepped]
        cases change with
        | stay next => exact congrArg (Outcome.behind · events) (ih reached)
        | nest next inner => exact congrArg (Outcome.behind · events) (ih reached)
        | close statements =>
          cases outer with
          | nil => rfl
          | cons around outer => exact congrArg (Outcome.behind · events) (ih reached)

theorem Makefile.readAllMore {fuel : Nat} {files : FileTree} {path : Text}
    {start : Action LineStream Unit} {log : Log} {s : LineStream}
    (reached : (readAll fuel files path start log s).result ≠ .ok none) (more : Nat) :
    readAll (fuel + more) files path start log s = readAll fuel files path start log s := by
  unfold readAll at *
  cases begun : start log s with
  | mk events t result =>
    cases result with
    | error failure => rw [thenFailed begun, thenFailed begun]
    | ok _ =>
      rw [thenReturned begun] at reached ⊢
      rw [thenReturned begun, bindApply, bindApply, Block.runMore]
      intro stopped
      rw [bindApply] at reached
      generalize Block.run _ _ _ _ _ _ _ = run at reached stopped
      obtain ⟨later, u, result⟩ := run
      cases stopped
      exact reached rfl

namespace CommandLine
section
variable {fuel : Nat} {files tree : FileTree} {directory : Text} {o : Options} {log : Log}

def announced (directory : Text) (o : Options) : List Event :=
  (if (chosenMakefile o).2 = [] then [] else
    [.warning .execution ("Ignoring extra arguments: ".toList ++ quotedList (chosenMakefile o).2)]) ++
  [.lookedUp (makefilePath directory o),
    .info .execution ("Parsing ".toList ++ makefilePath directory o)]

def reading (fuel : Nat) (files : FileTree) (directory : Text) (o : Options) (log : Log) :
    Outcome LineStream (Option Makefile) :=
  Makefile.readFile fuel files (makefilePath directory o) none
    (log.record (announced directory o)) (.empty [])

theorem announcedSilent (directory : Text) (o : Options) : Silent (announced directory o) := by
  unfold announced
  split <;> exact ⟨rfl, rfl⟩

theorem readingSilent (fuel : Nat) (files : FileTree) (directory : Text) (o : Options) (log : Log) :
    Silent (reading fuel files directory o log).events :=
  (readAllYields fuel files _ none (.file (files.absolute (makefilePath directory o))) _ _).1

theorem readingFails {failure : Failure}
    (failed : (reading fuel files directory o log).result = .error failure) :
    failure.cause.isFinding = true ∨
      failure = ⟨.nullPath, none⟩ ∧ AskedNull (reading fuel files directory o log).events :=
  yieldsFailed (readAllYields fuel files _ none (.file (files.absolute (makefilePath directory o))) _)
    failed

theorem readingMore
    (reached : (reading fuel files directory o log).result ≠ .ok none) (more : Nat) :
    reading (fuel + more) files directory o log = reading fuel files directory o log :=
  Makefile.readAllMore reached more

theorem guardedReads (plain : o.version = false)
    (file : files.isFile (makefilePath directory o) = true) (s : LineStream) :
    guarded fuel files directory o log s =
      ((do
        match ← Makefile.readFile fuel files (makefilePath directory o) none with
        | none => return .unfinished
        | some makefile =>
          emit (.printed makefile.dump)
          return .finished : Action LineStream Leaving)
        (log.record (announced directory o)) s).behind (announced directory o) := by
  unfold guarded announced
  simp only [plain, file, Bool.false_eq_true, if_false, Bool.not_true]
  by_cases none : (chosenMakefile o).2 = []
  · simp only [none, ne_eq, not_true, if_false, if_true, List.nil_append]
    rw [emitThen, emitThen, Outcome.behindBehind, ← Log.recordAppend]
    rfl
  · simp only [none, ne_eq, not_false_eq_true, if_false, if_true, List.singleton_append]
    rw [emitThen, emitThen, emitThen, Outcome.behindBehind, Outcome.behindBehind,
      ← Log.recordAppend, ← Log.recordAppend]
    rfl

theorem workApply (fuel : Nat) (files : FileTree) (directory : Text) (o : Options) (log : Log)
    (s : LineStream) :
    let g := guarded fuel files directory o log s
    work fuel files directory o log s = ((match g.result with
      | .ok .finished => do
        emit (.reported 0)
        return true
      | .ok .returned => return true
      | .ok .unfinished => return false
      | .error failure =>
        if failure.cause.isFinding then do
          emit (.printed (failure.message ++ ['\n']))
          emit (.reported 2)
          return true
        else fail failure : Action LineStream Bool) (log.record g.events) g.state).behind g.events := rfl

inductive Answers (fuel : Nat) (files : FileTree) (directory : Text) (o : Options) (log : Log) :
    Nat → Text → Prop where
  | version (asked : o.version = true) : Answers fuel files directory o log 0 versionText
  | outlined {makefile} (other : o.version = false)
      (file : files.isFile (makefilePath directory o) = true)
      (read : (reading fuel files directory o log).result = .ok (some makefile)) :
      Answers fuel files directory o log 0 makefile.dump
  | missing (other : o.version = false)
      (none : files.isFile (makefilePath directory o) = false) :
      Answers fuel files directory o log 2 noMakefileText
  | failed {failure} (other : o.version = false)
      (file : files.isFile (makefilePath directory o) = true)
      (finding : failure.cause.isFinding = true)
      (fails : (reading fuel files directory o log).result = .error failure) :
      Answers fuel files directory o log 2 (failure.message ++ ['\n'])

inductive Works (fuel : Nat) (files : FileTree) (directory : Text) (o : Options) (log : Log) :
    Outcome LineStream Bool → Prop where
  | answers {told s code text} (silent : Silent told)
      (answers : Answers fuel files directory o log code text) :
      Works fuel files directory o log ⟨told ++ [.printed text, .reported code], s, .ok true⟩
  | raises {events s} (silent : Silent events) (asked : AskedNull events) (other : o.version = false)
      (file : files.isFile (makefilePath directory o) = true)
      (fails : (reading fuel files directory o log).result = .error ⟨.nullPath, none⟩) :
      Works fuel files directory o log ⟨events, s, .error ⟨.nullPath, none⟩⟩
  | unfinished {events s} (silent : Silent events) (other : o.version = false)
      (file : files.isFile (makefilePath directory o) = true)
      (reads : (reading fuel files directory o log).result = .ok none) :
      Works fuel files directory o log ⟨events, s, .ok false⟩

theorem guardedVersion (asked : o.version = true) (s : LineStream) :
    guarded fuel files directory o log s =
      ⟨[.printed versionText, .reported 0], s, .ok .returned⟩ := by
  unfold guarded
  rw [if_pos asked]
  rfl

theorem guardedMissing (plain : o.version = false)
    (missing : files.isFile (makefilePath directory o) = false) (s : LineStream) :
    ∃ told, Silent told ∧ guarded fuel files directory o log s =
      ⟨told ++ [.printed noMakefileText, .reported 2], s, .ok .returned⟩ := by
  unfold guarded
  simp only [plain, missing, Bool.false_eq_true, if_false, Bool.not_false, if_true]
  by_cases none : (chosenMakefile o).2 = []
  · rw [if_neg (not_not.mpr none)]
    exact ⟨[_], ⟨rfl, rfl⟩, rfl⟩
  · rw [if_pos none]
    exact ⟨[_, _], ⟨rfl, rfl⟩, rfl⟩

theorem workRead (plain : o.version = false)
    (file : files.isFile (makefilePath directory o) = true) :
    work fuel files directory o log (.empty []) = match reading fuel files directory o log with
      | ⟨events, t, .ok none⟩ => ⟨announced directory o ++ events, t, .ok false⟩
      | ⟨events, t, .ok (some makefile)⟩ =>
        ⟨announced directory o ++ events ++ [.printed makefile.dump, .reported 0], t, .ok true⟩
      | ⟨events, t, .error failure⟩ =>
        if failure.cause.isFinding then
          ⟨announced directory o ++ events ++ [.printed (failure.message ++ ['\n']), .reported 2], t,
            .ok true⟩
        else ⟨announced directory o ++ events, t, .error failure⟩ := by
  rw [workApply, guardedReads plain file]
  cases outcome : reading fuel files directory o log with
  | mk events t result =>
    unfold reading at outcome
    cases result with
    | error failure =>
      rw [thenFailed outcome]
      simp only [Outcome.behind]
      split
      · rfl
      · simp
    | ok makefile =>
      rw [thenReturned outcome]
      cases makefile with
      | none => simp [Outcome.behind]
      | some makefile => simp [Outcome.behind, emitThen]

theorem workReads (plain : o.version = false)
    (file : files.isFile (makefilePath directory o) = true) :
    Works fuel files directory o log (work fuel files directory o log (.empty [])) := by
  have silent := silentAppend (announcedSilent directory o) (readingSilent fuel files directory o log)
  rw [workRead plain file]
  cases outcome : reading fuel files directory o log with
  | mk events t result =>
    have read := congrArg Outcome.result outcome
    rw [outcome] at silent
    cases result with
    | error failure =>
      simp only
      split
      · rename_i finding
        exact .answers silent (.failed plain file finding read)
      · rename_i other
        obtain ⟨rfl, asked⟩ := (readingFails read).resolve_left other
        rw [outcome] at asked
        exact .raises silent (askedLater asked _) plain file read
    | ok makefile =>
      cases makefile with
      | none => exact .unfinished silent plain file read
      | some makefile => exact .answers silent (.outlined plain file read)

theorem workWorks (fuel : Nat) (files : FileTree) (directory : Text) (o : Options) (log : Log) :
    Works fuel files directory o log (work fuel files directory o log (.empty [])) := by
  cases version : o.version with
  | true =>
    rw [workApply, guardedVersion version]
    have answers : Works fuel files directory o log
        ⟨[] ++ [.printed versionText, .reported 0], .empty [], .ok true⟩ :=
      .answers ⟨rfl, rfl⟩ (.version version)
    exact answers
  | false =>
    cases file : files.isFile (makefilePath directory o) with
    | true => exact workReads version file
    | false =>
      obtain ⟨told, silent, same⟩ := @guardedMissing fuel files directory o log version file (.empty [])
      have answers : Works fuel files directory o log
          ⟨told ++ [.printed noMakefileText, .reported 2], .empty [], .ok true⟩ :=
        .answers silent (.missing version file)
      rw [workApply, same]
      simpa using answers

theorem answersZero {code : Nat} {text : Text}
    (answers : Answers fuel files directory o log code text) :
    code = 0 ↔ o.version = true ∨ files.isFile (makefilePath directory o) = true ∧
      ∃ makefile, (reading fuel files directory o log).result = .ok (some makefile) := by
  cases answers with
  | version asked => simp [asked]
  | outlined other file read => simp [other, file, read]
  | missing other none => simp [other, none]
  | failed other file finding fails => simp [other, fails]

theorem answersTwo {code : Nat} {text : Text}
    (answers : Answers fuel files directory o log code text) (other : code ≠ 0) : code = 2 := by
  cases answers <;> first | rfl | exact absurd rfl other

theorem makefileNamed (directory : Text) (o : Options) :
    makefilePath directory o =
      Path.normalJoin (o.directory.elim directory (Path.normalJoin directory))
        ((o.makefile.or o.arguments.head?).getD "Makefile".toList) := by
  unfold makefilePath workDirectory chosenMakefile
  cases o.directory <;> cases o.makefile <;> cases o.arguments <;> rfl

theorem runWork {arguments : List Text} (accepted : Request.ofArguments arguments = .run o)
    (ready : opened files o = .ok (tree, log)) :
    ∃ asked, ∀ fuel, run fuel files directory arguments =
      let r := Run.ofWork tree o log (work fuel tree directory o log (.empty []))
      { r with lookups := asked ++ r.lookups } := by
  unfold run
  simp only [accepted, ready]
  exact ⟨_, fun _ => rfl⟩

inductive Ends (fuel : Nat) (files : FileTree) (directory : Text) (o : Options) (log : Log) (r : Run) :
    Prop where
  | answers {code text} (exit : r.exit = .returned) (codes : r.codes = [code]) (output : r.output = text)
      (answers : Answers fuel files directory o log code text) : Ends fuel files directory o log r
  | raises (exit : r.exit = .raised ⟨.nullPath, none⟩) (codes : r.codes = []) (output : r.output = [])
      (other : o.version = false) (file : files.isFile (makefilePath directory o) = true)
      (fails : (reading fuel files directory o log).result = .error ⟨.nullPath, none⟩)
      (asked : ∃ path ∈ r.lookups, '\x00' ∈ path) : Ends fuel files directory o log r
  | unfinished (exit : r.exit = .unfinished) (codes : r.codes = []) (output : r.output = [])
      (other : o.version = false) (file : files.isFile (makefilePath directory o) = true)
      (reads : (reading fuel files directory o log).result = .ok none) :
      Ends fuel files directory o log r

theorem silentThen {told : List Event} (silent : Silent told) (text : Text) (code : Nat) :
    printedText (told ++ [.printed text, .reported code]) = text ∧
      reportedCodes (told ++ [.printed text, .reported code]) = [code] := by
  unfold Silent printedText reportedCodes at *
  rw [List.flatMap_append, List.filterMap_append, silent.1, silent.2]
  exact ⟨List.append_nil _, rfl⟩

theorem runEnds {arguments : List Text} (accepted : Request.ofArguments arguments = .run o)
    (ready : opened files o = .ok (tree, log)) (fuel : Nat) :
    Ends fuel tree directory o log (run fuel files directory arguments) := by
  obtain ⟨asked, same⟩ := @runWork files tree directory o log arguments accepted ready
  have works := workWorks fuel tree directory o log
  rw [same fuel]
  generalize work fuel tree directory o log (.empty []) = worked at works
  cases works with
  | @answers told s code text silent answers =>
    obtain ⟨printed, reported⟩ := silentThen silent text code
    exact .answers rfl reported printed answers
  | @raises events s silent null other file fails =>
    obtain ⟨path, looked, holds⟩ := null
    refine .raises rfl silent.2 silent.1 other file fails ⟨path, List.mem_append_right _ ?_, holds⟩
    exact List.mem_filterMap.mpr ⟨_, looked, rfl⟩
  | unfinished silent other file reads =>
    exact .unfinished rfl silent.2 silent.1 other file reads

theorem workMore (reached : (work fuel files directory o log (.empty [])).result ≠ .ok false)
    (more : Nat) : work (fuel + more) files directory o log (.empty []) =
      work fuel files directory o log (.empty []) := by
  cases version : o.version with
  | true => rw [workApply, workApply, guardedVersion version, guardedVersion version]
  | false =>
    cases file : files.isFile (makefilePath directory o) with
    | false =>
      unfold work guarded
      simp only [version, file, Bool.false_eq_true, if_false, Bool.not_false, if_true]
    | true =>
      rw [workRead version file] at reached
      rw [workRead version file, workRead version file, readingMore]
      intro stopped
      generalize reading fuel files directory o log = outcome at reached stopped
      obtain ⟨events, t, result⟩ := outcome
      cases stopped
      exact reached rfl

theorem runMore {arguments : List Text} (accepted : Request.ofArguments arguments = .run o)
    (ready : opened files o = .ok (tree, log))
    (reached : (run fuel files directory arguments).exit ≠ .unfinished) (more : Nat) :
    run (fuel + more) files directory arguments = run fuel files directory arguments := by
  obtain ⟨asked, same⟩ := @runWork files tree directory o log arguments accepted ready
  rw [same fuel] at reached
  rw [same, same, workMore]
  intro stopped
  simp only [Run.ofWork, stopped, ne_eq, not_true] at reached

def LogApart (files : FileTree) (directory : Text) (o : Options) (log : Log) : Prop :=
  ∀ l ∈ log, (Origin.file (makefilePath directory o)).Shuns files none l.place

theorem readingUnlogged (apart : LogApart files directory o log) (fuel : Nat) :
    reading fuel files directory o log =
      (Origin.file (makefilePath directory o)).read files none fuel := by
  have shuns : ∀ l ∈ log.record (announced directory o),
      (Origin.file (makefilePath directory o)).Shuns files none l.place := by
    intro l kept
    obtain ⟨before, stood, rfl⟩ := Option.map_eq_some_iff.mp kept
    rw [LogFile.recordApply]
    exact apart before stood
  exact Origin.logUnread shuns fuel

theorem runFinishes {arguments : List Text} (accepted : Request.ofArguments arguments = .run o)
    (ready : opened files o = .ok (tree, log)) (apart : LogApart tree directory o log)
    (acyclic : ∀ place, ¬ Relation.TransGen
      ((Origin.file (makefilePath directory o)).Includes tree none) place place) :
    ∃ least, ∀ more, (run (least + more) files directory arguments).exit ≠ .unfinished := by
  obtain ⟨outcome, comes⟩ := readEnds acyclic
  obtain ⟨least, settled⟩ := Origin.comesRead comes
  refine ⟨least, fun more stopped => ?_⟩
  cases @runEnds files tree directory o log arguments accepted ready (least + more) with
  | answers exit => cases exit.symm.trans stopped
  | raises exit => cases exit.symm.trans stopped
  | unfinished _ _ _ _ _ reads =>
    rw [readingUnlogged apart, settled more, Outcome.settled] at reads
    cases result : outcome.result <;> simp [result, Except.map] at reads

end

structure Reports (files : FileTree) (directory : Text) (arguments : List Text) (o : Options)
    (tree : FileTree) (log : Log) : Prop where
  ends : ∀ fuel, Ends fuel tree directory o log (run fuel files directory arguments)
  codes : ∀ fuel code text, Answers fuel tree directory o log code text →
    (code = 0 ↔ o.version = true ∨ tree.isFile (makefilePath directory o) = true ∧
      ∃ makefile, (reading fuel tree directory o log).result = .ok (some makefile)) ∧
    (code ≠ 0 → code = 2)
  reads : LogApart tree directory o log → ∀ fuel, reading fuel tree directory o log =
    Makefile.ofFile fuel tree (makefilePath directory o) none
  steady : ∀ fuel, (run fuel files directory arguments).exit ≠ .unfinished →
    ∀ more, run (fuel + more) files directory arguments = run fuel files directory arguments
  finishes : LogApart tree directory o log →
    (∀ place, ¬ Relation.TransGen
      ((Origin.file (makefilePath directory o)).Includes tree none) place place) →
    ∃ least, ∀ more, (run (least + more) files directory arguments).exit ≠ .unfinished
  named : makefilePath directory o =
    Path.normalJoin (o.directory.elim directory (Path.normalJoin directory))
      ((o.makefile.or o.arguments.head?).getD "Makefile".toList)

/-- Every command whose options are accepted and whose log can be opened prints one text and reports one
code, unless a path with a null byte comes in its way or what it reads has no end. -/
theorem reportsOnce (files : FileTree) (directory : Text) (arguments : List Text) (o : Options)
    (tree : FileTree) (log : Log) (accepted : Request.ofArguments arguments = .run o)
    (ready : opened files o = .ok (tree, log)) :
    Reports files directory arguments o tree log where
  ends := runEnds accepted ready
  codes := fun _ _ _ answers => ⟨answersZero answers, answersTwo answers⟩
  reads := readingUnlogged
  steady := fun _ => runMore accepted ready
  finishes := runFinishes accepted ready
  named := makefileNamed directory o

def stoppedOutline : FileTree where
  workingDirectory := ['/']
  entries := [
    (["sub".toList], .directory),
    (["sub".toList, "mk".toList], .file (encodeUtf8 "a = 1\nall:\n\techo\ninclude x\n".toList)),
    (["sub".toList, ['x']], .file (encodeUtf8 "b = 2\nendif\n".toList))]

namespace stoppedOutline

def arguments : List Text := ["-dC".toList, "sub".toList, "mk".toList, "--debug-l=log".toList]

def options : Options :=
  ⟨none, true, some "log".toList, some "sub".toList, false, ["mk".toList]⟩

def place : Place := ["log".toList]

def tree : FileTree := stoppedOutline.append place []

def kept : Log := some ⟨place, .debug, []⟩

theorem reported :
    Request.ofArguments arguments = .run options ∧
    opened stoppedOutline options = .ok (tree, kept) ∧
    (run 40 stoppedOutline ['/'] arguments).exit = .returned ∧
    (run 40 stoppedOutline ['/'] arguments).codes = [2] ∧
    (run 40 stoppedOutline ['/'] arguments).output =
      "/sub/x:2:unmatched 'endif' directive\n".toList ∧
    Reports stoppedOutline ['/'] arguments options tree kept := by
  have accepted : Request.ofArguments arguments = .run options := by decide +kernel
  have ready : opened stoppedOutline options = .ok (tree, kept) := by decide +kernel
  exact ⟨accepted, ready, by decide +kernel, by decide +kernel, by decide +kernel,
    reportsOnce stoppedOutline ['/'] arguments options tree kept accepted ready⟩

end stoppedOutline

def nullInclude : FileTree where
  workingDirectory := ['/']
  entries := [(["Makefile".toList], .file (encodeUtf8 "include a\x00b\n".toList))]

/-- A null byte in the path of an included file: no code is reported and nothing is printed. -/
theorem nullInclude.unanswered :
    Request.ofArguments [] = .run ⟨none, false, none, none, false, []⟩ ∧
    nullInclude.isFile "/Makefile".toList = true ∧
    let r := run 8 nullInclude ['/'] []
    r.exit = .raised ⟨.nullPath, none⟩ ∧ r.codes = [] ∧ r.output = [] := by
  decide +kernel

end CommandLine
end MakeTree
