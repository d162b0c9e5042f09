import MakeTree.Keyword
import MakeTree.FileTree
import MakeTree.Location

/-! Why reading a makefile stops: a cause, and the location it is blamed on where there is one. The
last two causes are no findings about the makefile: a reader of words was handed a line without any,
or a path with a null byte was to be opened. They are blamed on no location, and nothing answers
them. -/
namespace MakeTree
open Text

inductive Cause where
  | unmatched (keyword : Keyword)
  | noCondition
  | unterminated
  | noTarget
  | noVariable (directive : Text)
  | noAssignment
  | noIncludePath
  | cannotOpen (path : Text) (reason : AccessError)
  | undecodable (fault : Utf8Fault)
  | noWords
  | nullPath
  deriving DecidableEq, Repr

def Cause.message : Cause → Text
  | .unmatched keyword => "unmatched '".toList ++ keyword.text ++ "' directive".toList
  | .noCondition => "No arguments after conditional".toList
  | .unterminated => "Condition never terminated with endif".toList
  | .noTarget => "Expected a target name followed by ':'".toList
  | .noVariable directive => "Expected a name after '".toList ++ directive ++ ['\'']
  | .noAssignment => "Expected NAME=VALUE expression after 'export'".toList
  | .noIncludePath => "Expected a file name after 'include'".toList
  | .cannotOpen path reason =>
    "Failed to open file '".toList ++ path ++ "': ".toList ++ reason.text
  | .undecodable fault => "File is not valid UTF-8 text: ".toList ++ fault.text
  | .noWords => "list index out of range".toList
  | .nullPath => AccessError.nullByte.text

def Cause.isFinding : Cause → Bool
  | .noWords | .nullPath => false
  | _ => true

structure Failure where
  cause : Cause
  location : Option Location
  deriving DecidableEq, Repr

def Failure.ofAccess (path : Text) (location : Option Location) : AccessError → Failure
  | .nullByte => ⟨.nullPath, none⟩
  | reason => ⟨.cannotOpen path reason, location⟩

def Failure.message (f : Failure) : Text :=
  (match f.location with
  | some l => l.text ++ [':']
  | none => []) ++ f.cause.message

end MakeTree
