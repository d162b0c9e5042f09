import MakeTree.Keyword
import MakeTree.Text.WordChar

/-! What a logical line starts, decided by the first rule that applies to it. The rules look at the
line without the blanks around it. -/
namespace MakeTree
open Text

inductive LineKind where
  | comment
  | variable
  | assignment
  | inclusion
  | conditional
  | stray (keyword : Keyword)
  | rule
  | command
  deriving DecidableEq, Repr

def isNameChar (c : Char) : Bool := isWordChar c || c == '.' || c == '-'

def startsOperator : Text → Bool
  | '=' :: _ | '?' :: '=' :: _ | '+' :: '=' :: _ | ':' :: '=' :: _ | ':' :: ':' :: '=' :: _ => true
  | _ => false

def isAssignment (line : Text) : Bool :=
  line.takeWhile isNameChar != [] && startsOperator (trimLeft (line.dropWhile isNameChar))

def includeWord : Text := "include".toList

def startsAnyOperator (t : Text) : Bool :=
  startsWith ['='] ((trimLeft t).dropWhile fun c => c == ':' || c == '+' || c == '?')

def isInclude (line : Text) : Bool :=
  let line := trim line
  startsWith includeWord line &&
  match line.drop includeWord.length with
  | [] => true
  | c :: rest => isBlank c && !startsAnyOperator rest

def commentText (line : Text) : Text := trim (line.drop 1)

def isRuleHeader (line : Text) : Bool :=
  match (cutAt ':' line).2 with
  | some rest => !startsWith ['='] rest
  | none => false

def LineKind.of (line : Text) : LineKind :=
  let keyword := Keyword.ofLine? line
  if startsWith ['#'] line then .comment
  else if keyword = some .exported ∨ keyword = some .unexported then .variable
  else if isAssignment line then .assignment
  else if isInclude line then .inclusion
  else match keyword with
    | some .ifeq | some .ifneq => .conditional
    | some keyword => .stray keyword
    | none => if isRuleHeader line then .rule else .command

end MakeTree
