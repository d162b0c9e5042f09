import MakeTree.CommandLine.Options
import MakeTree.Makefile

/-! The command: read one makefile, print its outline and write its messages to a log. It reports its
code itself, at the end of its work or where it leaves it; failures that are findings about the
makefile are printed and reported, and any other comes out of the command. -/
namespace MakeTree.CommandLine
open Text

def versionText : Text :=
  "mkast 0.1.0: static parser for makefiles driving cargo builds
THE SOFTWARE IS PROVIDED \"AS IS\", WITHOUT WARRANTY OF ANY KIND.\n".toList

def noMakefileText : Text := "No makefile found\n".toList

def workDirectory (directory : Text) (o : Options) : Text :=
  match o.directory with
  | some path => Path.normalJoin directory path
  | none => directory

def chosenMakefile (o : Options) : Text × List Text :=
  match o.makefile, o.arguments with
  | some path, arguments => (path, arguments)
  | none, path :: arguments => (path, arguments)
  | none, [] => ("Makefile".toList, [])

def makefilePath (directory : Text) (o : Options) : Text :=
  Path.normalJoin (workDirectory directory o) (chosenMakefile o).1

inductive Leaving where
  | finished
  | returned
  | unfinished
  deriving DecidableEq, Repr

def guarded (fuel : Nat) (files : FileTree) (directory : Text) (o : Options) :
    Action LineStream Leaving := do
  if o.version then
    Action.emit (.printed versionText)
    Action.emit (.reported 0)
    return .returned
  else
    let path := makefilePath directory o
    let extra := (chosenMakefile o).2
    if extra ≠ [] then
      Action.emit (.warning .execution ("Ignoring extra arguments: ".toList ++ quotedList extra))
    Action.emit (.lookedUp path)
    if !files.isFile path then
      Action.emit (.printed noMakefileText)
      Action.emit (.reported 2)
      return .returned
    else
      Action.emit (.info .execution ("Parsing ".toList ++ path))
      match ← Makefile.readFile fuel files path none with
      | none => return .unfinished
      | some makefile =>
        Action.emit (.printed makefile.dump)
        return .finished

def work (fuel : Nat) (files : FileTree) (directory : Text) (o : Options) :
    Action LineStream Bool := do
  match ← Action.attempt (guarded fuel files directory o) with
  | .ok .finished =>
    Action.emit (.reported 0)
    return true
  | .ok .returned => return true
  | .ok .unfinished => return false
  | .error failure =>
    if failure.cause.isFinding then
      Action.emit (.printed (failure.message ++ ['\n']))
      Action.emit (.reported 2)
      return true
    else Action.fail failure

inductive Exit where
  | returned
  | raised (failure : Failure)
  | unfinished
  | leftEarly (code : Nat)
  | noLog (path : Text) (reason : AccessError)
  deriving DecidableEq, Repr

structure Run where
  exit : Exit
  codes : List Nat
  output : Text
  complaint : Text
  log : Text
  logPath : Option Text
  files : FileTree
  lookups : List Text

def logFile? (files : FileTree) (o : Options) : Option Text :=
  match o.debugLog with
  | some path => if path = [] then none else some (files.absolute path)
  | none => none

def leastLevel (o : Options) : Level := if o.verbose then .debug else .warning

/-- The files and the log that the command works with; one that only shows its version opens none. -/
def opened (files : FileTree) (o : Options) : Except AccessError (FileTree × Log) :=
  match if o.version then none else logFile? files o with
  | none => .ok (files, none)
  | some path => (files.placeToWrite path).map fun place =>
    (files.append place [], some ⟨place, leastLevel o, []⟩)

def Run.silent (files : FileTree) (exit : Exit) (output complaint : Text) : Run :=
  ⟨exit, [], output, complaint, [], none, files, []⟩

def Run.ofWork (files : FileTree) (o : Options) (log : Log) (worked : Outcome LineStream Bool) : Run :=
  let kept := logText (leastLevel o) worked.events
  { exit := match worked.result with
      | .ok true => .returned
      | .ok false => .unfinished
      | .error failure => .raised failure
    codes := reportedCodes worked.events
    output := printedText worked.events
    complaint := []
    log := kept
    logPath := log.bind fun _ => logFile? files o
    files := match log with
      | none => files
      | some l => files.append l.place (encodeUtf8 kept)
    lookups := askedPaths worked.events }

def run (fuel : Nat) (files : FileTree) (directory : Text) (arguments : List Text) : Run :=
  match Request.ofArguments arguments with
  | .help => .silent files (.leftEarly 0) helpText []
  | .wrong error => .silent files (.leftEarly 2) [] error.text
  | .run o =>
    let path := (logFile? files o).getD []
    let asked := if path = [] then [] else [Path.parent path, path]
    match opened files o with
    | .error reason => { Run.silent files (.noLog path reason) [] [] with lookups := asked }
    | .ok (files, log) =>
      let run := Run.ofWork files o log (work fuel files directory o log (.empty []))
      { run with lookups := asked ++ run.lookups }

def logErrorText (path : Text) (reason : AccessError) : Text :=
  match reason.code? with
  | some code =>
    "[Errno ".toList ++ ofNat code ++ "] ".toList ++ reason.text ++ ": ".toList ++ quoted path
  | none => reason.text

end MakeTree.CommandLine
