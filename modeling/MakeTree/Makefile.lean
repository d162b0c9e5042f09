import MakeTree.Block.Run
import MakeTree.Statement.Dump

/-! Reading a whole makefile, from a file or from a text that stands for one. -/
namespace MakeTree
open Text

structure Makefile where
  path : Text
  root : Text
  statements : List Statement
  vars : Variables
  deriving DecidableEq

namespace Makefile

def readAll (fuel : Nat) (files : FileTree) (path : Text) (start : Action LineStream Unit) :
    Action LineStream (Option Makefile) := do
  let root := Path.parent (files.absolute path)
  start
  let read ← (Block.makefile []).run ⟨files, root⟩ fuel .empty []
  return read.map fun (statements, vars) => ⟨path, root, statements, vars⟩

def readFile (fuel : Nat) (files : FileTree) (path : Text) (workDir? : Option Text) :
    Action LineStream (Option Makefile) :=
  let path := files.absolute path
  readAll fuel files path (LineStream.startFile files path workDir?)

def readText (fuel : Nat) (files : FileTree) (path text : Text) (workDir? : Option Text) :
    Action LineStream (Option Makefile) :=
  readAll fuel files path (LineStream.startText files path text workDir?)

def ofFile (fuel : Nat) (files : FileTree) (path : Text) (workDir? : Option Text) :
    Outcome LineStream (Option Makefile) :=
  readFile fuel files path workDir? none (.empty [])

def ofText (fuel : Nat) (files : FileTree) (path text : Text) (workDir? : Option Text) :
    Outcome LineStream (Option Makefile) :=
  readText fuel files path text workDir? none (.empty [])

def dump (m : Makefile) : Text :=
  "AST:\n".toList ++ m.vars.dump ['\t'] ++ "\tNodes:\n".toList ++
    dumpAll ['\t', '\t'] m.statements

end Makefile
end MakeTree
