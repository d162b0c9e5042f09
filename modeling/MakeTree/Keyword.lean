import MakeTree.Text.Blank

/-! The keywords that start a directive. A line is a directive only if the keyword is a whole
word of it, so `export=1` and `endif:` are none. -/
namespace MakeTree
open Text

inductive Keyword where
  | ifeq
  | ifneq
  | otherwise
  | endif
  | exported
  | unexported
  deriving DecidableEq, Repr

namespace Keyword

def text : Keyword → Text
  | .ifeq => "ifeq".toList
  | .ifneq => "ifneq".toList
  | .otherwise => "else".toList
  | .endif => "endif".toList
  | .exported => "export".toList
  | .unexported => "unexport".toList

def all : List Keyword := [.ifeq, .ifneq, .otherwise, .endif, .exported, .unexported]

def ofText? (word : Text) : Option Keyword := all.find? (·.text = word)

def ofLine? (line : Text) : Option Keyword := ofText? (firstWord line)

end Keyword
end MakeTree
