import MakeTree.Line.Variable
import MakeTree.Setting

/-! Steps of recipes. A step runs in the directory that the `cd` steps before it in the same recipe
lead to; that directory is the state of these actions. Cargo steps name the directory of their
manifest as seen from the directory of the makefile. -/
namespace MakeTree
open Text

namespace Recipe

def changeDirectory (files : FileTree) (target : Text) (location : Option Location) :
    Action Text Unit := do
  let path := Path.normalJoin (← Action.state) target
  Action.emit (.lookedUp path)
  if files.isDirectory path then
    Action.emit (.remark .info location ("Changed to ".toList ++ path))
    Action.setState path
  else
    Action.emit (.remark .warning location ("Failed to cd into ".toList ++ path))

def cargoWord : Text := "cargo".toList
def cdWord : Text := "cd".toList
def manifestFlag : Text := "--manifest-path".toList

def findManifest {σ : Type} (location : Option Location) : List Text → Action σ (Option Text)
  | [] => return none
  | word :: rest =>
    if word = manifestFlag then
      match rest with
      | path :: _ => return some path
      | [] => do
        Action.emit (.remark .warning location
          ("Expected a manifest path after ".toList ++ manifestFlag))
        return none
    else if startsWith (manifestFlag ++ ['=']) word then
      return some (word.drop (manifestFlag.length + 1))
    else findManifest location rest

def manifestDirectory (root manifest : Text) (location : Option Location) :
    Action Text (Option Text) := do
  let manifest := Path.normalJoin (← Action.state) manifest
  match Path.relativeTo? manifest root with
  | none =>
    Action.emit (.remark .warning location
      ("Manifest ".toList ++ manifest ++ " is outside of ".toList ++ root))
    return none
  | some relative =>
    let directory := Path.parent relative
    return some (if directory = [] then ['.'] else directory)

def readCargo (root line : Text) (location : Option Location) : Action Text Statement := do
  match (words line)[1]?.elim Subcommand.unrecognized Subcommand.ofWord with
  | .unrecognized =>
    Action.emit (.remark .warning location
      ("Unknown cargo subcommand in '".toList ++ line ++ "', treating it as a generic step".toList))
    return .command line
  | subcommand =>
    match ← findManifest location (words line) with
    | none => return .cargo subcommand none line
    | some manifest =>
      return .cargo subcommand (← manifestDirectory root manifest location) line

def readStep (setting : Setting) (vars : Variables) (line : Text) (location : Option Location) :
    Action Text (Statement × Variables) := do
  let line := trim line
  if startsWith ['#'] line then
    return (.comment (commentText line), vars)
  else match Keyword.ofLine? line with
  | some .exported | some .unexported => readVariable vars line location
  | _ =>
    match words line with
    | [] => Action.fail ⟨.noWords, none⟩
    | word :: rest =>
      if word = cargoWord then
        return (← readCargo setting.root line location, vars)
      else
        if word = cdWord then
          match rest with
          | target :: _ => changeDirectory setting.files target location
          | [] => Action.emit (.remark .warning location
              "Expected a directory after 'cd', ignoring it".toList)
        return (.command line, vars)

end Recipe
end MakeTree
