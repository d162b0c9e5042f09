import MakeTree.Text.Basic

/-! Command line options. Long names may be shortened as long as one name fits and take a value
behind an equals sign; short ones may be written together, the last with its value attached. `--`
ends the options, a lone `-` is an argument, and the last of repeated options counts. -/
namespace MakeTree.CommandLine
open Text

inductive Switch where
  | help
  | makefile
  | verbose
  | debugLog
  | directory
  | version
  deriving DecidableEq, Repr

def Switch.takesValue : Switch → Bool
  | .makefile | .debugLog | .directory => true
  | .help | .verbose | .version => false

def shortNames : List (Char × Switch) :=
  [('h', .help), ('f', .makefile), ('d', .verbose), ('C', .directory), ('v', .version)]

def longNames : List (Text × Switch) :=
  [("--debug-log".toList, .debugLog), ("--directory".toList, .directory),
   ("--file".toList, .makefile), ("--help".toList, .help), ("--makefile".toList, .makefile),
   ("--version".toList, .version)]

structure Options where
  makefile : Option Text
  verbose : Bool
  debugLog : Option Text
  directory : Option Text
  version : Bool
  arguments : List Text
  deriving DecidableEq, Repr

def Options.none : Options := ⟨.none, false, .none, .none, false, []⟩

inductive UsageError where
  | noSuchOption (option : Text)
  | ambiguous (option : Text) (names : List Text)
  | missingValue (option : Text)
  | unwantedValue (option : Text)
  deriving DecidableEq, Repr

def UsageError.message : UsageError → Text
  | .noSuchOption option => "no such option: ".toList ++ option
  | .ambiguous option names =>
    "ambiguous option: ".toList ++ option ++ " (".toList ++ joinWith ", ".toList names ++
      "?)".toList
  | .missingValue option => option ++ " option requires 1 argument".toList
  | .unwantedValue option => option ++ " option does not take a value".toList

inductive Progress where
  | going (options : Options)
  | waiting (options : Options) (switch : Switch) (option : Text)
  | help
  | wrong (error : UsageError)
  deriving DecidableEq, Repr

def Options.store (o : Options) (value : Text) : Switch → Options
  | .makefile => { o with makefile := some value }
  | .debugLog => { o with debugLog := some value }
  | .directory => { o with directory := some value }
  | .help | .verbose | .version => o

def Options.turnOn (o : Options) : Switch → Progress
  | .help => .help
  | .verbose => .going { o with verbose := true }
  | .version => .going { o with version := true }
  | .makefile | .debugLog | .directory => .going o

def longMatches (option : Text) : List (Text × Switch) :=
  match longNames.find? (·.1 = option) with
  | some found => [found]
  | none => longNames.filter fun (name, _) => startsWith option name

def readLong (o : Options) (argument : Text) : Progress :=
  let (option, value) := cutAt '=' argument
  match longMatches option with
  | [] => .wrong (.noSuchOption option)
  | [(name, switch)] =>
    if switch.takesValue then
      match value with
      | some value => .going (o.store value switch)
      | none => .waiting o switch name
    else if value.isSome then .wrong (.unwantedValue name)
    else o.turnOn switch
  | several => .wrong (.ambiguous option (several.map (·.1)))

def readShort (o : Options) : Text → Progress
  | [] => .going o
  | letter :: rest =>
    match shortNames.lookup letter with
    | none => .wrong (.noSuchOption ['-', letter])
    | some switch =>
      if switch.takesValue then
        if rest = [] then .waiting o switch ['-', letter] else .going (o.store rest switch)
      else
        match o.turnOn switch with
        | .going o => readShort o rest
        | other => other

def readArgument (o : Options) (argument : Text) : Progress :=
  if startsWith ['-', '-'] argument then readLong o argument
  else if startsWith ['-'] argument && argument != ['-'] then readShort o (argument.drop 1)
  else .going { o with arguments := o.arguments ++ [argument] }

def readArguments : Progress → List Text → Progress
  | .going o, [] => .going o
  | .going o, argument :: rest =>
    if argument = ['-', '-'] then .going { o with arguments := o.arguments ++ rest }
    else readArguments (readArgument o argument) rest
  | .waiting _ _ option, [] => .wrong (.missingValue option)
  | .waiting o switch _, value :: rest => readArguments (.going (o.store value switch)) rest
  | .help, _ => .help
  | .wrong error, _ => .wrong error

inductive Request where
  | run (options : Options)
  | help
  | wrong (error : UsageError)
  deriving DecidableEq, Repr

def Request.ofArguments (arguments : List Text) : Request :=
  match readArguments (.going .none) arguments with
  | .going o => .run o
  | .waiting _ _ option => .wrong (.missingValue option)
  | .help => .help
  | .wrong error => .wrong error

def programName : Text := "mkparse.py".toList

def usage : Text := "Usage: ".toList ++ programName ++ " [options] [MAKEFILE]\n\n".toList

def UsageError.text (e : UsageError) : Text :=
  usage ++ programName ++ ": error: ".toList ++ e.message ++ ['\n']

def helpText : Text :=
  usage ++ "Options:
  -h, --help            show this help message and exit
  -f MAKEFILE, --file=MAKEFILE, --makefile=MAKEFILE
  -d                    \n  --debug-log=DEBUGLOG  \n  -C DIRECTORY, --directory=DIRECTORY
  -v, --version         \n".toList

end MakeTree.CommandLine
