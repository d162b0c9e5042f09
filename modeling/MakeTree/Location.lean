import MakeTree.Text.Quoted

/-! A line of a makefile: the path it was read from and its number, counted from one. -/
namespace MakeTree
open Text

structure Location where
  path : Text
  line : Int
  deriving DecidableEq, Repr

namespace Location

def text (l : Location) : Text := l.path ++ ':' :: ofInt l.line

def literal (l : Location) : Text :=
  "Location(".toList ++ quoted l.path ++ ", ".toList ++ ofInt l.line ++ [')']

def textOrNone : Option Location → Text
  | some l => l.text
  | none => "None".toList

end Location
end MakeTree
