import MakeTree.Text.Blank

/-! Statements of a makefile. Every statement owns its parts, and all text is kept as it was read:
nothing is expanded and no condition is decided. -/
namespace MakeTree
open Text

inductive Subcommand where
  | build
  | clean
  | run
  | update
  | unrecognized
  deriving DecidableEq, Repr

namespace Subcommand

def word? : Subcommand → Option Text
  | .build => some "build".toList
  | .clean => some "clean".toList
  | .run => some "run".toList
  | .update => some "update".toList
  | .unrecognized => none

def ofWord (word : Text) : Subcommand :=
  ([build, clean, run, update].find? (·.word? = some word)).getD .unrecognized

def name : Subcommand → Text
  | .build => "BUILD".toList
  | .clean => "CLEAN".toList
  | .run => "RUN".toList
  | .update => "UPDATE_DEPENDENCIES".toList
  | .unrecognized => "UNRECOGNIZED".toList

end Subcommand

mutual

inductive Statement where
  | comment (text : Text)
  | inclusion (path : Text)
  | exported (name value : Text)
  | unexported (name : Text)
  | command (text : Text)
  | cargo (subcommand : Subcommand) (directory : Option Text) (command : Text)
  | rule (name : Text) (prerequisites : List Text) (definedIn : Option Text)
      (recipe : List Statement) (doubleColon : Bool)
  | elseBranch (statements : List Statement)
  | conditional (block : Conditional)

inductive Conditional where
  | mk (condition : Text) (expected : Bool) (statements : List Statement)
      (chained : Option Conditional) (otherwise : Option (List Statement))

end

def chainCommands (command : Text) : List Text := (splitChain command).map trim

def Conditional.expected : Conditional → Bool
  | .mk _ expected _ _ _ => expected

def Conditional.keyword (c : Conditional) : Text :=
  if c.expected then "ifeq".toList else "ifneq".toList

mutual

def Statement.decideEq : (a b : Statement) → Decidable (a = b)
  | .comment a, .comment b => decidable_of_iff (a = b) (by simp)
  | .inclusion a, .inclusion b => decidable_of_iff (a = b) (by simp)
  | .exported a b, .exported c d => decidable_of_iff (a = c ∧ b = d) (by simp)
  | .unexported a, .unexported b => decidable_of_iff (a = b) (by simp)
  | .command a, .command b => decidable_of_iff (a = b) (by simp)
  | .cargo a b c, .cargo d e f => decidable_of_iff (a = d ∧ b = e ∧ c = f) (by simp)
  | .rule a b c xs d, .rule e f g ys h =>
    have := decideEqList xs ys
    decidable_of_iff (a = e ∧ b = f ∧ c = g ∧ xs = ys ∧ d = h) (by simp)
  | .elseBranch xs, .elseBranch ys =>
    have := decideEqList xs ys
    decidable_of_iff (xs = ys) (by simp)
  | .conditional a, .conditional b =>
    have := a.decideEq b
    decidable_of_iff (a = b) (by simp)
  | .comment .., .inclusion .. | .comment .., .exported .. | .comment .., .unexported ..
  | .comment .., .command .. | .comment .., .cargo .. | .comment .., .rule ..
  | .comment .., .elseBranch .. | .comment .., .conditional ..
  | .inclusion .., .comment .. | .inclusion .., .exported .. | .inclusion .., .unexported ..
  | .inclusion .., .command .. | .inclusion .., .cargo .. | .inclusion .., .rule ..
  | .inclusion .., .elseBranch .. | .inclusion .., .conditional ..
  | .exported .., .comment .. | .exported .., .inclusion .. | .exported .., .unexported ..
  | .exported .., .command .. | .exported .., .cargo .. | .exported .., .rule ..
  | .exported .., .elseBranch .. | .exported .., .conditional ..
  | .unexported .., .comment .. | .unexported .., .inclusion .. | .unexported .., .exported ..
  | .unexported .., .command .. | .unexported .., .cargo .. | .unexported .., .rule ..
  | .unexported .., .elseBranch .. | .unexported .., .conditional ..
  | .command .., .comment .. | .command .., .inclusion .. | .command .., .exported ..
  | .command .., .unexported .. | .command .., .cargo .. | .command .., .rule ..
  | .command .., .elseBranch .. | .command .., .conditional ..
  | .cargo .., .comment .. | .cargo .., .inclusion .. | .cargo .., .exported ..
  | .cargo .., .unexported .. | .cargo .., .command .. | .cargo .., .rule ..
  | .cargo .., .elseBranch .. | .cargo .., .conditional ..
  | .rule .., .comment .. | .rule .., .inclusion .. | .rule .., .exported ..
  | .rule .., .unexported .. | .rule .., .command .. | .rule .., .cargo ..
  | .rule .., .elseBranch .. | .rule .., .conditional ..
  | .elseBranch .., .comment .. | .elseBranch .., .inclusion .. | .elseBranch .., .exported ..
  | .elseBranch .., .unexported .. | .elseBranch .., .command .. | .elseBranch .., .cargo ..
  | .elseBranch .., .rule .. | .elseBranch .., .conditional ..
  | .conditional .., .comment .. | .conditional .., .inclusion .. | .conditional .., .exported ..
  | .conditional .., .unexported .. | .conditional .., .command .. | .conditional .., .cargo ..
  | .conditional .., .rule .. | .conditional .., .elseBranch .. => isFalse (by simp)

def Conditional.decideEq : (a b : Conditional) → Decidable (a = b)
  | .mk a b xs c d, .mk e f ys g h =>
    have := decideEqList xs ys
    have : Decidable (c = g) := match c, g with
      | none, none => isTrue rfl
      | some c, some g =>
        have := c.decideEq g
        decidable_of_iff (c = g) (by simp)
      | none, some _ | some _, none => isFalse (by simp)
    have : Decidable (d = h) := match d, h with
      | none, none => isTrue rfl
      | some d, some h =>
        have := decideEqList d h
        decidable_of_iff (d = h) (by simp)
      | none, some _ | some _, none => isFalse (by simp)
    decidable_of_iff (a = e ∧ b = f ∧ xs = ys ∧ c = g ∧ d = h) (by simp)

def decideEqList : (xs ys : List Statement) → Decidable (xs = ys)
  | [], [] => isTrue rfl
  | x :: xs, y :: ys =>
    have := x.decideEq y
    have := decideEqList xs ys
    decidable_of_iff (x = y ∧ xs = ys) (by simp)
  | [], _ :: _ | _ :: _, [] => isFalse (by simp)

end

instance : DecidableEq Statement := Statement.decideEq
instance : DecidableEq Conditional := Conditional.decideEq

end MakeTree
