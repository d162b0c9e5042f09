import MakeTree.Location
import MakeTree.Statement.Basic

/-! Constructs of several lines while they are being read. A makefile is the outermost one; rules
and conditionals stand inside it and inside each other's branches. -/
namespace MakeTree

structure Link where
  condition : Text
  expected : Bool
  statements : List Statement

structure RuleHeader where
  name : Text
  prerequisites : List Text
  definedIn : Option Text
  doubleColon : Bool
  deriving DecidableEq, Repr

inductive Block where
  | makefile (statements : List Statement)
  | rule (header : RuleHeader) (directory : Text) (recipe : List Statement)
  | link (before : List Link) (current : Link) (start : Option Location)
  | otherwise (before : List Link) (current : Link) (start : Option Location)
      (statements : List Statement)

inductive Change where
  | stay (block : Block)
  | nest (block inner : Block)
  | close (statements : List Statement)

inductive Begun where
  | nothing
  | whole (statement : Statement)
  | opened (block : Block)

def Link.conditional (before : List Link) (current : Link)
    (otherwise : Option (List Statement)) : Conditional :=
  before.foldl (fun chained l => .mk l.condition l.expected l.statements (some chained) none)
    (.mk current.condition current.expected current.statements none otherwise)

def RuleHeader.statement (h : RuleHeader) (recipe : List Statement) : Statement :=
  .rule h.name h.prerequisites h.definedIn recipe h.doubleColon

def Block.addAll (added : List Statement) : Block → Block
  | .makefile statements => .makefile (statements ++ added)
  | .rule header directory recipe => .rule header directory (recipe ++ added)
  | .link before current start =>
    .link before { current with statements := current.statements ++ added } start
  | .otherwise before current start statements =>
    .otherwise before current start (statements ++ added)

def Begun.within (block : Block) : Begun → Change
  | .nothing => .stay block
  | .whole statement => .stay (block.addAll [statement])
  | .opened inner => .nest block inner

end MakeTree
