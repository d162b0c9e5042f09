import MakeTree.Action
import MakeTree.Line.Kind
import MakeTree.Statement.Basic

/-! Lines that change variables. An export takes everything behind the first equals sign as the value,
so in a recipe the rest of the command belongs to it. Any first word but `unexport` stands for an
export. Readers are handed the variables as they are and give them back as they leave them. -/
namespace MakeTree
open Text

def assign {σ : Type} (vars : Variables) (raw value : Text) : Action σ (Text × Variables) := do
  let left := LeftSide.ofText raw
  Action.emit (.debug .data ("Setting variable '".toList ++ left.name ++ "' to '".toList ++
    vars.stored left value ++ ['\'']))
  Action.emit (.assigned raw value)
  return (left.name, vars.set raw value)

def readVariable {σ : Type} (vars : Variables) (line : Text) (location : Option Location) :
    Action σ (Statement × Variables) := do
  let directive := firstWord line
  let argument := trim (afterFirstWord line)
  if directive = [] then
    Action.fail ⟨.noWords, none⟩
  else if argument = [] then
    Action.fail ⟨.noVariable directive, location⟩
  else if directive = Keyword.unexported.text then
    Action.emit (.unassigned argument)
    return (.unexported argument, vars.unset argument)
  else
    match cutAt '=' argument with
    | (_, none) => Action.fail ⟨.noAssignment, location⟩
    | (raw, some value) =>
      if allBlank raw then Action.fail ⟨.noAssignment, location⟩
      else
        let (name, vars) ← assign vars raw (trim value)
        return (.exported name (trim value), vars)

end MakeTree
