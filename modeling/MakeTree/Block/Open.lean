import MakeTree.Block.Basic
import MakeTree.Line.Kind
import MakeTree.LineStream
import MakeTree.Recipe

/-! Reading a line at the place of a statement. Most lines are a statement by themselves or an
assignment; a rule header and a conditional open a block that further lines belong to. -/
namespace MakeTree
open Text

def readInclusion (files : FileTree) (line : Text) : Action LineStream Statement := do
  let location := (← Action.state).location
  match words line with
  | _ :: path :: extra =>
    if extra ≠ [] then
      Action.emit (.remark .warning location
        ("Ignoring tokens after include statement: ".toList ++ quotedList extra))
    LineStream.enter files path
    return .inclusion path
  | _ => Action.fail ⟨.noIncludePath, location⟩

def openLink (line : Text) : Action LineStream (Link × Option Location) := do
  let start := (← Action.state).location
  let condition := trim (afterFirstWord line)
  if condition = [] then Action.fail ⟨.noCondition, start⟩
  else return (⟨condition, firstWord line = Keyword.ifeq.text, []⟩, start)

def openRule (setting : Setting) (vars : Variables) (line : Text) :
    Action LineStream (Block × Variables) := do
  let stream ← Action.state
  let location := stream.location
  match cutAt ':' (trim line) with
  | (_, none) => Action.fail ⟨.noTarget, location⟩
  | (name, some rest) =>
    let name := trim name
    if name = [] then Action.fail ⟨.noTarget, location⟩
    else
      let doubleColon := startsWith [':'] rest
      let (prerequisites, command) := cutAt ';' (if doubleColon then rest.drop 1 else rest)
      let definedIn := match location with
        | some l => some l.path
        | none => stream.currentFile?
      let header : RuleHeader := ⟨name, words prerequisites, definedIn, doubleColon⟩
      let command := command.getD []
      if allBlank command then return (.rule header setting.root [], vars)
      else
        let ((step, vars), directory) ← Action.within setting.root
          (Recipe.readStep setting vars command location)
        return (.rule header directory [step], vars)

def beginStatement (setting : Setting) (vars : Variables) (line : Text) :
    Action LineStream (Begun × Variables) := do
  let line := trim line
  let location := (← Action.state).location
  match LineKind.of line with
  | .comment => return (.whole (.comment (commentText line)), vars)
  | .variable =>
    let (statement, vars) ← readVariable vars line location
    return (.whole statement, vars)
  | .assignment =>
    let (raw, value) := cutAt '=' line
    let (_, vars) ← assign vars raw (trim (value.getD []))
    return (.nothing, vars)
  | .inclusion => return (.whole (← readInclusion setting.files line), vars)
  | .conditional =>
    let (link, start) ← openLink line
    return (.opened (.link [] link start), vars)
  | .stray keyword => Action.fail ⟨.unmatched keyword, location⟩
  | .rule =>
    let (block, vars) ← openRule setting vars line
    return (.opened block, vars)
  | .command =>
    Action.emit (.remark .warning location ("Unhandled: ".toList ++ line))
    return (.whole (.command line), vars)

end MakeTree
