import MakeTree.Proofs.QuotedTexts
import MakeTree.Statement.Literal

/-! The constructor form of a statement says all there is to say of it. No such form is the beginning
of another, and so the parts of one can be told apart however deep they stand, whatever commas,
brackets and quotes are in the texts. -/
namespace MakeTree
open Text

inductive ItemsTell (close : Char) : List Text → List Text → Prop → Prop where
  | nil {same} (holds : same) : ItemsTell close [] [] same
  | shorter {same second seconds} (avoids : Avoids close second) :
      ItemsTell close [] (second :: seconds) same
  | longer {same first firsts} (avoids : Avoids close first) :
      ItemsTell close (first :: firsts) [] same
  | cons {same here onward first second firsts seconds} (tells : Tells first second here)
      (rest : ItemsTell close firsts seconds onward) (both : here → onward → same) :
      ItemsTell close (first :: firsts) (second :: seconds) same

variable {same : Prop} {close : Char}

def closed (close : Char) (items : List Text) : Text := joinWith ", ".toList items ++ [close]

def further (close : Char) : List Text → Text
  | [] => [close]
  | item :: items => ", ".toList ++ closed close (item :: items)

theorem closedFurther (item : Text) (items : List Text) :
    closed close (item :: items) = item ++ further close items := by
  cases items with
  | nil => rfl
  | cons next items => simp [closed, further, joinWith]

theorem furtherTells (comma : ',' ≠ close) {firsts seconds : List Text}
    (items : ItemsTell close firsts seconds same)
    (tells : Tells (closed close firsts) (closed close seconds) same) :
    Tells (further close firsts) (further close seconds) same := by
  cases items with
  | nil => exact tells
  | shorter => exact tellsApart (Ne.symm comma) _ _
  | longer => exact tellsApart comma _ _
  | cons => exact tells.behind _

theorem closedTells (comma : ',' ≠ close) {firsts seconds : List Text}
    (items : ItemsTell close firsts seconds same) :
    Tells (closed close firsts) (closed close seconds) same := by
  induction items with
  | nil holds => exact (tellsAlways _).implies fun _ => holds
  | shorter avoids =>
    rw [closedFurther]
    exact tellsAvoiding (avoidsAppend avoids _) _
  | longer avoids =>
    rw [closedFurther]
    exact avoidsTells (avoidsAppend avoids _) _
  | cons tells rest both ih =>
    rw [closedFurther, closedFurther]
    refine (tellsBoth tells (furtherTells comma rest ih)).implies ?_
    exact fun told => both told.1 told.2

theorem bracketedTells {firsts seconds : List Text} (items : ItemsTell ']' firsts seconds same) :
    Tells (bracketed (joinWith ", ".toList firsts)) (bracketed (joinWith ", ".toList seconds)) same :=
  (closedTells (by decide) items).behind ['[']

inductive FieldsTell : List (Text × Text) → List (Text × Text) → Prop → Prop where
  | nil : FieldsTell [] [] True
  | cons {name value other fields others here onward} (tells : Tells value other here)
      (rest : FieldsTell fields others onward) :
      FieldsTell ((name, value) :: fields) ((name, other) :: others) (here ∧ onward)

theorem fieldsTell {fields others : List (Text × Text)} (tell : FieldsTell fields others same) :
    ItemsTell ')' (fields.map fun (name, value) => name ++ '=' :: value)
      (others.map fun (name, value) => name ++ '=' :: value) same := by
  induction tell with
  | nil => exact .nil trivial
  | @cons name _ _ _ _ _ _ tells _ ih =>
    exact .cons ((tells.behind ['=']).behind name) ih And.intro

theorem constructedTells {kind : Text} {fields others : List (Text × Text)} {told : Prop}
    (tell : FieldsTell fields others told) (enough : told → same) :
    Tells (constructed kind fields) (constructed kind others) same := by
  have tells := ((closedTells (by decide) (fieldsTell tell)).behind ['(']).behind kind
  have parts (fields : List (Text × Text)) : constructed kind fields =
      kind ++ (['('] ++ closed ')' (fields.map fun (name, value) => name ++ '=' :: value)) := by
    simp [constructed, closed]
  rw [parts, parts]
  exact tells.implies enough

section

variable (printable : Char → Bool)

theorem boolTells (a b : Bool) : Tells (boolLiteral a) (boolLiteral b) (a = b) := by
  cases a <;> cases b
  · exact (tellsAlways _).implies fun _ => rfl
  · exact tellsApart (by decide) _ _
  · exact tellsApart (by decide) _ _
  · exact (tellsAlways _).implies fun _ => rfl

theorem optionTells {α : Type} (literal : Option α → Text) (missing : literal none = "None".toList)
    (avoids : ∀ value, Avoids 'N' (literal (some value))) {a b : Option α}
    (tells : ∀ value other, a = some value → b = some other →
      Tells (literal (some value)) (literal (some other)) (value = other)) :
    Tells (literal a) (literal b) (a = b) := by
  cases a with
  | none =>
    cases b with
    | none => exact (tellsAlways _).implies fun _ => rfl
    | some other =>
      rw [missing]
      exact tellsAvoiding (avoids other) _
  | some value =>
    cases b with
    | none =>
      rw [missing]
      exact avoidsTells (avoids value) _
    | some other => exact (tells value other rfl rfl).implies (congrArg some)

theorem quotedAvoids {c : Char} (apart : c ≠ '\'' ∧ c ≠ '"') (t : Text) :
    Avoids c (quotedWith printable t) := by
  refine ⟨quoteFor t, _, rfl, ?_⟩
  rcases quoteForQuote t with quote | quote
  · exact quote ▸ Ne.symm apart.1
  · exact quote ▸ Ne.symm apart.2

theorem optionalTells (a b : Option Text) :
    Tells (optionalLiteral printable a) (optionalLiteral printable b) (a = b) :=
  optionTells (optionalLiteral printable) rfl (quotedAvoids printable (by decide))
    fun t u _ _ => quotedTells printable t u

theorem quotedItemsTell (ts us : List Text) :
    ItemsTell ']' (ts.map (quotedWith printable)) (us.map (quotedWith printable)) (ts = us) := by
  induction ts generalizing us with
  | nil =>
    cases us with
    | nil => exact .nil rfl
    | cons u us => exact .shorter (quotedAvoids printable (by decide) u)
  | cons t ts ih =>
    cases us with
    | nil => exact .longer (quotedAvoids printable (by decide) t)
    | cons u us =>
      refine .cons (quotedTells printable t u) (ih us) ?_
      rintro rfl rfl
      rfl

theorem quotedListTells (ts us : List Text) :
    Tells (quotedListWith printable ts) (quotedListWith printable us) (ts = us) :=
  bracketedTells (quotedItemsTell printable ts us)

theorem subcommandTells (a b : Subcommand) :
    Tells (a.literal printable) (b.literal printable) (a = b) := by
  have clear (s : Subcommand) : ':' ∉ s.name := by cases s <;> decide
  have named : a.name = b.name → a = b := by cases a <;> cases b <;> decide
  have rest := ((optionalTells printable a.word? b.word?).before ['>']).behind [' ']
  have tells := (tellsBoth (tellsUpTo (clear a) (clear b)) rest).behind "<Subcommand.".toList
  have parts (lead name word : Text) : lead ++ name ++ ": ".toList ++ word ++ ['>'] =
      lead ++ (name ++ [':'] ++ ([' '] ++ (word ++ ['>']))) := by simp
  unfold Subcommand.literal
  rw [parts, parts]
  exact tells.implies fun told => named told.1

inductive Kind where
  | comment
  | inclusion
  | exported
  | unexported
  | command
  | cargo
  | rule
  | elseBranch
  | conditional
  deriving DecidableEq

def Kind.name : Kind → Text
  | .comment => "Comment".toList
  | .inclusion => "Include".toList
  | .exported => "Export".toList
  | .unexported => "Unexport".toList
  | .command => "GenericStep".toList
  | .cargo => "CargoInvocation".toList
  | .rule => "Target".toList
  | .elseBranch => "ElseBranch".toList
  | .conditional => "Conditional".toList

theorem kindNamed {kind other : Kind} (same : kind.name = other.name) : kind = other := by
  revert same
  cases kind <;> cases other <;> decide

namespace Statement

def kind : Statement → Kind
  | .comment .. => .comment
  | .inclusion .. => .inclusion
  | .exported .. => .exported
  | .unexported .. => .unexported
  | .command .. => .command
  | .cargo .. => .cargo
  | .rule .. => .rule
  | .elseBranch .. => .elseBranch
  | .conditional .. => .conditional

theorem literalKind (a : Statement) :
    ∃ fields, a.literalWith printable = constructed a.kind.name fields := by
  cases a with
  | conditional block =>
    obtain ⟨condition, expected, statements, chained, otherwise⟩ := block
    unfold literalWith Conditional.literalWith
    exact ⟨_, rfl⟩
  | _ => exact ⟨_, rfl⟩

theorem literalAvoids (a : Statement) : Avoids ']' (a.literalWith printable) := by
  obtain ⟨fields, form⟩ := a.literalKind printable
  rw [form]
  cases a <;> exact ⟨_, _, rfl, by decide⟩

theorem kindsTell {a b : Statement} (apart : a.kind ≠ b.kind) :
    Tells (a.literalWith printable) (b.literalWith printable) same := by
  have clear (kind : Kind) : '(' ∉ kind.name := by cases kind <;> decide
  obtain ⟨fields, form⟩ := a.literalKind printable
  obtain ⟨others, shape⟩ := b.literalKind printable
  rw [form, shape]
  intro x y equal
  simp only [constructed, List.append_assoc, List.cons_append] at equal
  exact absurd (kindNamed (cutUnique equal (clear _) (clear _)).1) apart

end Statement

theorem itemsJoined (statements : List Statement) : itemLiteralsWith printable statements =
    joinWith ", ".toList (statements.map (·.literalWith printable)) := by
  induction statements with
  | nil => rfl
  | cons statement rest ih =>
    cases rest with
    | nil => simp [itemLiteralsWith, joinWith]
    | cons next rest =>
      rw [itemLiteralsWith, ih]
      simp [joinWith]

theorem textTells {kind name : Text} (t u : Text) :
    Tells (constructed kind [(name, quotedWith printable t)])
      (constructed kind [(name, quotedWith printable u)]) (t = u) :=
  constructedTells (.cons (quotedTells printable t u) .nil) And.left

def StepsTell (xs ys : List Statement) : Prop :=
  ItemsTell ']' (xs.map (·.literalWith printable)) (ys.map (·.literalWith printable)) (xs = ys)

theorem bracketsTell {xs ys : List Statement} (steps : StepsTell printable xs ys) :
    Tells (bracketed (itemLiteralsWith printable xs)) (bracketed (itemLiteralsWith printable ys))
      (xs = ys) := by
  rw [itemsJoined, itemsJoined]
  exact bracketedTells steps

theorem elseTells {xs ys : List Statement} (steps : StepsTell printable xs ys) :
    Tells (elseLiteral (bracketed (itemLiteralsWith printable xs)))
      (elseLiteral (bracketed (itemLiteralsWith printable ys))) (xs = ys) :=
  constructedTells (.cons (bracketsTell printable steps) .nil) And.left

def chainedLiteral : Option Conditional → Text
  | some next => next.literalWith printable
  | none => "None".toList

def otherwiseLiteral : Option (List Statement) → Text
  | some statements => elseLiteral (bracketed (itemLiteralsWith printable statements))
  | none => "None".toList

theorem chainedAvoids (next : Conditional) : Avoids 'N' (chainedLiteral printable (some next)) := by
  obtain ⟨fields, form⟩ := (Statement.conditional next).literalKind printable
  rw [chainedLiteral]
  exact ⟨_, _, form, by decide⟩

theorem otherwiseAvoids (statements : List Statement) :
    Avoids 'N' (otherwiseLiteral printable (some statements)) := ⟨_, _, rfl, by decide⟩

mutual

theorem statementTells : ∀ a b : Statement,
    Tells (a.literalWith printable) (b.literalWith printable) (a = b)
  | .comment text, b => by
    cases b with
    | comment other => exact (textTells printable text other).implies (congrArg Statement.comment)
    | _ => exact Statement.kindsTell printable nofun
  | .inclusion path, b => by
    cases b with
    | inclusion other => exact (textTells printable path other).implies (congrArg Statement.inclusion)
    | _ => exact Statement.kindsTell printable nofun
  | .exported name value, b => by
    cases b with
    | exported other content =>
      have name := quotedTells printable name other
      have value := quotedTells printable value content
      refine constructedTells (.cons name (.cons value .nil)) ?_
      rintro ⟨rfl, rfl, -⟩
      rfl
    | _ => exact Statement.kindsTell printable nofun
  | .unexported name, b => by
    cases b with
    | unexported other => exact (textTells printable name other).implies (congrArg Statement.unexported)
    | _ => exact Statement.kindsTell printable nofun
  | .command text, b => by
    cases b with
    | command other => exact (textTells printable text other).implies (congrArg Statement.command)
    | _ => exact Statement.kindsTell printable nofun
  | .cargo subcommand directory text, b => by
    cases b with
    | cargo other place content =>
      have subcommand := subcommandTells printable subcommand other
      have directory := optionalTells printable directory place
      have text := quotedTells printable text content
      refine constructedTells (.cons subcommand (.cons directory (.cons text .nil))) ?_
      rintro ⟨rfl, rfl, rfl, -⟩
      rfl
    | _ => exact Statement.kindsTell printable nofun
  | .rule name prerequisites definedIn recipe doubleColon, b => by
    cases b with
    | rule other needs place steps double =>
      have name := quotedTells printable name other
      have prerequisites := quotedListTells printable prerequisites needs
      have definedIn := optionalTells printable definedIn place
      have recipe := bracketsTell printable (stepsTell recipe steps)
      have double := boolTells doubleColon double
      refine constructedTells
        (.cons name (.cons prerequisites (.cons definedIn (.cons recipe (.cons double .nil))))) ?_
      rintro ⟨rfl, rfl, rfl, rfl, rfl, -⟩
      rfl
    | _ => exact Statement.kindsTell printable nofun
  | .elseBranch statements, b => by
    cases b with
    | elseBranch others =>
      exact (elseTells printable (stepsTell statements others)).implies (congrArg Statement.elseBranch)
    | _ => exact Statement.kindsTell printable nofun
  | .conditional block, b => by
    cases b with
    | conditional other =>
      exact (conditionalTells block other).implies (congrArg Statement.conditional)
    | _ => exact Statement.kindsTell printable nofun

theorem conditionalTells : ∀ a b : Conditional,
    Tells (a.literalWith printable) (b.literalWith printable) (a = b)
  | .mk condition expected statements chained otherwise, .mk other wanted steps further last => by
    have condition := quotedTells printable condition other
    have expected := boolTells expected wanted
    have statements := bracketsTell printable (stepsTell statements steps)
    have chained := optionTells (chainedLiteral printable) rfl (chainedAvoids printable)
      fun next later (inside : chained = some next) (_ : further = some later) => by
        subst inside
        exact conditionalTells next later
    have otherwise := optionTells (otherwiseLiteral printable) rfl (otherwiseAvoids printable)
      fun statements others (inside : otherwise = some statements) (_ : last = some others) => by
        subst inside
        exact elseTells printable (stepsTell statements others)
    unfold Conditional.literalWith
    refine constructedTells
      (.cons condition (.cons expected (.cons statements (.cons chained (.cons otherwise .nil))))) ?_
    rintro ⟨rfl, rfl, rfl, rfl, rfl, -⟩
    rfl

theorem stepsTell : ∀ xs ys : List Statement, StepsTell printable xs ys
  | [], [] => .nil rfl
  | [], y :: _ => .shorter (y.literalAvoids printable)
  | x :: _, [] => .longer (x.literalAvoids printable)
  | x :: xs, y :: ys => .cons (statementTells x y) (stepsTell xs ys) (by rintro rfl rfl; rfl)

end

theorem literalsIdentify (a b : Statement) :
    a = b ↔ a.literalWith printable = b.literalWith printable :=
  ⟨congrArg _, (statementTells printable a b).exact⟩

end

end MakeTree
