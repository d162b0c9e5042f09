import MakeTree.Statement.Basic
import MakeTree.Text.Quoted

/-! Statements in constructor form, such as `Export(name='A', value='1')`: the kind, and its fields
by name with their texts quoted. Which characters are shown as they are is left open at first. -/
namespace MakeTree
open Text

def boolLiteral (b : Bool) : Text := if b then "True".toList else "False".toList

def constructed (kind : Text) (fields : List (Text × Text)) : Text :=
  let shown := fields.map fun (name, value) => name ++ '=' :: value
  kind ++ '(' :: joinWith ", ".toList shown ++ [')']

def bracketed (items : Text) : Text := '[' :: items ++ [']']

def elseLiteral (statements : Text) : Text :=
  constructed "ElseBranch".toList [("steps".toList, statements)]

section

variable (printable : Char → Bool)

def optionalLiteral : Option Text → Text
  | some t => quotedWith printable t
  | none => "None".toList

def Subcommand.literal (s : Subcommand) : Text :=
  "<Subcommand.".toList ++ s.name ++ ": ".toList ++ optionalLiteral printable s.word? ++ ['>']

mutual

def Statement.literalWith : Statement → Text
  | .comment text => constructed "Comment".toList [("text".toList, quotedWith printable text)]
  | .inclusion path => constructed "Include".toList [("path".toList, quotedWith printable path)]
  | .exported name value =>
    constructed "Export".toList
      [("name".toList, quotedWith printable name), ("value".toList, quotedWith printable value)]
  | .unexported name => constructed "Unexport".toList [("name".toList, quotedWith printable name)]
  | .command text => constructed "GenericStep".toList [("command".toList, quotedWith printable text)]
  | .cargo subcommand directory command =>
    constructed "CargoInvocation".toList
      [("subcommand".toList, subcommand.literal printable),
       ("directory".toList, optionalLiteral printable directory),
       ("command".toList, quotedWith printable command)]
  | .rule name prerequisites definedIn recipe doubleColon =>
    constructed "Target".toList
      [("name".toList, quotedWith printable name),
       ("deps".toList, quotedListWith printable prerequisites),
       ("defined_in".toList, optionalLiteral printable definedIn),
       ("steps".toList, bracketed (itemLiteralsWith recipe)),
       ("doublecolon".toList, boolLiteral doubleColon)]
  | .elseBranch statements => elseLiteral (bracketed (itemLiteralsWith statements))
  | .conditional block => block.literalWith

def Conditional.literalWith : Conditional → Text
  | .mk condition expected statements chained otherwise =>
    constructed "Conditional".toList
      [("condition".toList, quotedWith printable condition), ("expected".toList, boolLiteral expected),
       ("steps".toList, bracketed (itemLiteralsWith statements)),
       ("elseif".toList, match chained with
         | some next => next.literalWith
         | none => "None".toList),
       ("else_".toList, match otherwise with
         | some statements => elseLiteral (bracketed (itemLiteralsWith statements))
         | none => "None".toList)]

def itemLiteralsWith : List Statement → Text
  | [] => []
  | statement :: rest =>
    statement.literalWith ++ match rest with
      | [] => []
      | _ :: _ => ", ".toList ++ itemLiteralsWith rest

end

end

def Statement.literal (s : Statement) : Text := s.literalWith isPrintable

def listLiteral (statements : List Statement) : Text :=
  bracketed (itemLiteralsWith isPrintable statements)

end MakeTree
