import MakeTree.Block.Open

/-! Reading blocks to their end. Each step of a block looks at the next line: the block takes it as
its own, opens a block for it, or ends. A rule takes every line that starts with a tab. A
conditional takes everything up to its `endif`; `else` starts a further link of it or its last
branch. A makefile that includes itself may be read without an end, so a run takes a number of steps
to make at most, and gives nothing if they do not suffice. -/
namespace MakeTree
open Text

def takeLine : Action LineStream Text := do
  LineStream.take (isInclude (← Action.state).next)

def readWithin (setting : Setting) (vars : Variables) (block : Block) (line : Text) :
    Action LineStream (Change × Variables) := do
  let (begun, vars) ← beginStatement setting vars line
  return (begun.within block, vars)

def readElse (setting : Setting) (vars : Variables) (before : List Link) (current : Link)
    (start : Option Location) (rest : Text) : Action LineStream (Change × Variables) := do
  let _ ← LineStream.take (isInclude rest)
  match Keyword.ofLine? rest with
  | some .ifeq | some .ifneq =>
    let (link, start) ← openLink rest
    return (.stay (.link (current :: before) link start), vars)
  | _ =>
    let block : Block := .otherwise before current start []
    if rest = [] ∨ startsWith ['#'] rest then return (.stay block, vars)
    else readWithin setting vars block rest

def unterminated (start : Option Location) : Failure := ⟨.unterminated, start⟩

def Block.step (setting : Setting) (vars : Variables) (block : Block) :
    Action LineStream (Change × Variables) := do
  match block with
  | .makefile statements =>
    if ← LineStream.atEnd then return (.close statements, vars)
    else readWithin setting vars block (← takeLine)
  | .rule header directory recipe =>
    if startsWith ['\t'] (← LineStream.peek) then
      let line ← LineStream.take false
      if allBlank line then return (.stay block, vars)
      else
        let ((step, vars), directory) ← Action.within directory
          (Recipe.readStep setting vars line (← Action.state).location)
        return (.stay (.rule header directory (recipe ++ [step])), vars)
    else return (.close [header.statement recipe], vars)
  | .link before current start =>
    if ← LineStream.atEnd then Action.fail (unterminated start)
    else
      let next := trim (← LineStream.peek)
      match Keyword.ofLine? next with
      | some .endif =>
        let _ ← takeLine
        return (.close [.conditional (Link.conditional before current none)], vars)
      | some .otherwise => readElse setting vars before current start (afterFirstWord next)
      | _ => readWithin setting vars block (← takeLine)
  | .otherwise before current start statements =>
    if ← LineStream.atEnd then Action.fail (unterminated start)
    else
      match Keyword.ofLine? (trim (← LineStream.peek)) with
      | some .endif =>
        let _ ← takeLine
        return (.close [.conditional (Link.conditional before current (some statements))], vars)
      | _ => readWithin setting vars block (← takeLine)

def Block.run (setting : Setting) :
    Nat → Variables → Block → List Block → Action LineStream (Option (List Statement × Variables))
  | 0, _, _, _ => return none
  | fuel + 1, vars, block, outer => do
    match ← block.step setting vars with
    | (.stay block, vars) => run setting fuel vars block outer
    | (.nest block inner, vars) => run setting fuel vars inner (block :: outer)
    | (.close statements, vars) =>
      match outer with
      | [] => return some (statements, vars)
      | block :: outer => run setting fuel vars (block.addAll statements) outer

def readStatement (setting : Setting) (fuel : Nat) (vars : Variables) (line : Text) :
    Action LineStream (Option (Option Statement × Variables)) := do
  match ← beginStatement setting vars line with
  | (.nothing, vars) => return some (none, vars)
  | (.whole statement, vars) => return some (some statement, vars)
  | (.opened block, vars) =>
    return (← block.run setting fuel vars []).map fun (statements, vars) => (statements.head?, vars)

def readRule (setting : Setting) (fuel : Nat) (vars : Variables) (line : Text) :
    Action LineStream (Option (Option Statement × Variables)) := do
  let (block, vars) ← openRule setting vars line
  return (← block.run setting fuel vars []).map fun (statements, vars) => (statements.head?, vars)

def readConditional (setting : Setting) (fuel : Nat) (vars : Variables) (line : Text) :
    Action LineStream (Option (Option Statement × Variables)) := do
  let (link, start) ← openLink line
  return (← (Block.link [] link start).run setting fuel vars []).map
    fun (statements, vars) => (statements.head?, vars)

end MakeTree
