import MakeTree.Source

/-! Logical lines: one or more physical lines of one source, joined at trailing backslashes. Lines
of blanks are skipped between logical lines and end a continuation within one; a comment is a
logical line by itself, and is dropped where it stands inside a continuation. -/
namespace MakeTree
open Text

def isComment (line : Text) : Bool := startsWith ['#'] (trimLeft line)

def isContinued (line : Text) : Bool := endsWithChar '\\' line

def droppedComment (path : Text) (lineNumber : Nat) (comment : Text) : Event :=
  .warning .stream (path ++ ':' :: ofNat lineNumber ++
    ": Ignoring a comment line following a line continuation: ".toList ++ comment)

namespace Source

def continuation : Nat → Action Source Text
  | 0 => return []
  | fuel + 1 => do
    match ← readLine with
    | none => return []
    | some line =>
      if allBlank line then return []
      else if isComment line then
        let s ← Action.state
        Action.emit (droppedComment s.path s.lineNumber (trim line))
        continuation fuel
      else if isContinued line then
        return trim (line.dropLast ++ (← continuation fuel))
      else return trim line

/-- The logical line that starts with `line`, which has just been read. A log file that is being
read grows by one line for each comment dropped, so no continuation has more than twice the lines
there are. -/
def join (line : Text) : Action Source Text := do
  if isComment line || !isContinued line then return line
  else
    let s ← Action.state
    return line.dropLast ++ (← continuation (2 * s.lines.length + 2))

end Source
end MakeTree
