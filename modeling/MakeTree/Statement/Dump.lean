import MakeTree.Statement.Basic
import MakeTree.Text.Quoted

/-! The indented outline of statements. Each statement gives one or more lines, each ended by a line
feed and started by the indent; what it holds stands further in. The links of a chained conditional
and its else branch stand at the indent of the first link. -/
namespace MakeTree
open Text

def indented (indent line : Text) : Text := indent ++ line ++ ['\n']

def dumpChain (indent : Text) : List Text → Text
  | [] => []
  | [last] => indented indent ("    ".toList ++ last)
  | command :: rest =>
    indented indent ("    ".toList ++ command ++ " && \\".toList) ++ dumpChain indent rest

def dumpCommand (indent command : Text) : Text :=
  match chainCommands command with
  | [] | [_] => indented indent command
  | first :: rest => indented indent (first ++ " && \\".toList) ++ dumpChain indent rest

def elseLine (indent : Text) : Text := indented indent "Else".toList

mutual

def Statement.dump (indent : Text) : Statement → Text
  | .comment text => indented indent ("Comment ".toList ++ text)
  | .inclusion path => indented indent ("Include ".toList ++ path)
  | .exported name value => indented indent ("Export ".toList ++ name ++ '=' :: value)
  | .unexported name => indented indent ("Unexport ".toList ++ name)
  | .command text => dumpCommand indent text
  | .cargo subcommand directory command =>
    indented indent ("Cargo ".toList ++ subcommand.name ++ ' ' :: directory.getD []) ++
      indented indent ("    Original: ".toList ++ quoted command)
  | .rule name prerequisites definedIn recipe doubleColon =>
    indented indent ("Target ".toList ++ name ++ (if doubleColon then "::".toList else [':']) ++
      ' ' :: joinWith [' '] prerequisites) ++
    indented indent ("  Defined in: ".toList ++ definedIn.getD "None".toList) ++
    dumpAll (indent ++ "    ".toList) recipe
  | .elseBranch statements => elseLine indent ++ dumpAll (indent ++ "  ".toList) statements
  | .conditional block => block.dump indent []

def Conditional.dump (indent lead : Text) : Conditional → Text
  | .mk condition expected statements chained otherwise =>
    indented indent (lead ++ (if expected then "IfEq ".toList else "IfNotEq ".toList) ++
      condition) ++
    dumpAll (indent ++ "  ".toList) statements ++
    match chained, otherwise with
    | some next, _ => next.dump indent "Else ".toList
    | none, some statements => elseLine indent ++ dumpAll (indent ++ "  ".toList) statements
    | none, none => []

def dumpAll (indent : Text) : List Statement → Text
  | [] => []
  | statement :: rest => statement.dump indent ++ dumpAll indent rest

end

end MakeTree
