import MakeTree.Text.Blank

/-! Make variables: raw values by name, never expanded, and two growing records of how names were
assigned. Names are kept in ascending order of code points. -/
namespace MakeTree
open Text

inductive Flavor where
  | recursive
  | simple
  | conditional
  deriving DecidableEq, Repr

def Flavor.marker : Flavor → Text
  | .recursive => [' ']
  | .simple => [':']
  | .conditional => ['?']

def Flavor.name : Flavor → Text
  | .recursive => "RECURSIVE".toList
  | .simple => "SIMPLE".toList
  | .conditional => "CONDITIONAL".toList

/-- What stands left of the `=` of an assignment, taken apart: a final `?`, then final colons, then
a final `+`. The name as it stood after the first two steps is what the records get. -/
structure LeftSide where
  name : Text
  conditional : Option Text
  simple : Option Text
  append : Bool
  deriving DecidableEq, Repr

def LeftSide.ofText (raw : Text) : LeftSide :=
  let name := trim raw
  let (name, conditional) :=
    if endsWithChar '?' name then
      let name := trimRight name.dropLast
      (name, some name)
    else (name, none)
  let (name, simple) :=
    if endsWithChar ':' name then
      let name := trimRight (dropWhileEnd (· == ':') name)
      (name, some name)
    else (name, none)
  if endsWithChar '+' name then ⟨trimRight name.dropLast, conditional, simple, true⟩
  else ⟨name, conditional, simple, false⟩

def insertName (name : Text) : List Text → List Text
  | [] => [name]
  | first :: rest =>
    if name < first then name :: first :: rest
    else if name = first then first :: rest
    else first :: insertName name rest

def insertValue (name value : Text) : List (Text × Text) → List (Text × Text)
  | [] => [(name, value)]
  | (first, old) :: rest =>
    if name < first then (name, value) :: (first, old) :: rest
    else if name = first then (name, value) :: rest
    else (first, old) :: insertValue name value rest

structure Variables where
  values : List (Text × Text)
  conditional : List Text
  simple : List Text
  deriving DecidableEq, Repr

namespace Variables

def empty : Variables := ⟨[], [], []⟩

def get? (vars : Variables) (name : Text) : Option Text := vars.values.lookup name

def contains (vars : Variables) (name : Text) : Bool := (vars.get? name).isSome

def size (vars : Variables) : Nat := vars.values.length

def record (names : List Text) : Option Text → List Text
  | some name => insertName name names
  | none => names

def stored (vars : Variables) (left : LeftSide) (value : Text) : Text :=
  if left.append then
    match vars.get? left.name with
    | some old => old ++ ' ' :: value
    | none => value
  else value

/-- Assign `value`; `raw` is everything left of the `=`, modifiers included. The value is stored
whatever the modifier, also for `?=`. -/
def set (vars : Variables) (raw value : Text) : Variables :=
  let left := LeftSide.ofText raw
  { values := insertValue left.name (vars.stored left value) vars.values
    conditional := record vars.conditional left.conditional
    simple := record vars.simple left.simple }

def unset (vars : Variables) (name : Text) : Variables :=
  { vars with values := vars.values.filter (·.1 ≠ name) }

def flavor (vars : Variables) (name : Text) : Flavor :=
  if name ∈ vars.conditional then .conditional
  else if name ∈ vars.simple then .simple
  else .recursive

def entries (vars : Variables) : List (Text × Flavor × Text) :=
  vars.values.map fun (name, value) => (name, vars.flavor name, value)

def dump (indent : Text) (vars : Variables) : Text :=
  indent ++ "Context:\n".toList ++ vars.entries.flatMap fun (name, flavor, value) =>
    indent ++ '\t' :: name ++ '\t' :: flavor.marker ++ ": ".toList ++ value ++ ['\n']

def summary (vars : Variables) : Text :=
  "Context(".toList ++
    joinWith ", ".toList (vars.entries.map fun (name, flavor, value) =>
      name ++ '<' :: flavor.name ++ ">=".toList ++ value) ++ [')']

end Variables
end MakeTree
