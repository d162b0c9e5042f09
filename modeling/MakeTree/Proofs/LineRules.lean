import MakeTree.Proofs.LineEffects
import MakeTree.Proofs.TextCuts

/-! The construct that a line starts, by rules tried in order. A rule says how a line can be taken
apart, or what its first word is; the tests that are run look for one way only, and find it if there is
any. A line is a rule header by its first colon alone. -/
namespace MakeTree
open Text MakeTree.Action

inductive FirstOf {α : Type} (applies : α → Prop) : List α → α → Prop where
  | here {a rest} (holds : applies a) : FirstOf applies (a :: rest) a
  | later {a b rest} (fails : ¬applies b) (onward : FirstOf applies rest a) :
      FirstOf applies (b :: rest) a

theorem firstUnique {α : Type} {applies : α → Prop} {candidates : List α} {a b : α}
    (left : FirstOf applies candidates a) (right : FirstOf applies candidates b) : a = b := by
  induction left with
  | here holds =>
    cases right with
    | here => rfl
    | later fails => exact absurd holds fails
  | later fails onward ih =>
    cases right with
    | here holds => exact absurd holds fails
    | later _ other => exact ih other

def modifiers : List Text := [[], ['?'], [':'], [':', ':'], ['+']]

def Assigns (line : Text) : Prop :=
  ∃ name blanks modifier value, line = name ++ (blanks ++ (modifier ++ '=' :: value)) ∧
    name ≠ [] ∧ (∀ c ∈ name, isNameChar c = true) ∧ (∀ c ∈ blanks, isBlank c = true) ∧
    modifier ∈ modifiers

def isMark (c : Char) : Bool := c == ':' || c == '+' || c == '?'

def Reassigns (t : Text) : Prop :=
  ∃ blanks marks value, t = blanks ++ (marks ++ '=' :: value) ∧ (∀ c ∈ blanks, isBlank c = true) ∧
    ∀ c ∈ marks, isMark c = true

def Includes (line : Text) : Prop :=
  line = includeWord ∨
    ∃ c rest, line = includeWord ++ c :: rest ∧ isBlank c = true ∧ ¬Reassigns rest

def FirstColon (line : Text) : Prop :=
  ∃ before after, line = before ++ ':' :: after ∧ ':' ∉ before ∧ after.head? ≠ some '='

def SomeColon (line : Text) : Prop :=
  ∃ before after, line = before ++ ':' :: after ∧ after.head? ≠ some '='

namespace LineKind

def Applies (header : Text → Prop) (line : Text) : LineKind → Prop
  | .comment => line.head? = some '#'
  | .variable => firstWord line = Keyword.exported.text ∨ firstWord line = Keyword.unexported.text
  | .assignment => Assigns line
  | .inclusion => Includes line
  | .conditional => firstWord line = Keyword.ifeq.text ∨ firstWord line = Keyword.ifneq.text
  | .stray keyword => firstWord line = keyword.text
  | .rule => header line
  | .command => True

def order : List LineKind :=
  [.comment, .variable, .assignment, .inclusion, .conditional, .stray .otherwise, .stray .endif,
    .rule, .command]

end LineKind

theorem startsHead (c : Char) (t : Text) : startsWith [c] t = true ↔ t.head? = some c := by
  rw [startsWith, List.isPrefixOf_iff_prefix, List.head?_eq_some_iff]
  constructor
  · rintro ⟨rest, rfl⟩
    exact ⟨rest, rfl⟩
  · rintro ⟨rest, rfl⟩
    exact ⟨rest, rfl⟩

theorem keywordWord (line : Text) (keyword : Keyword) :
    Keyword.ofLine? line = some keyword ↔ firstWord line = keyword.text := by
  rw [Keyword.ofLine?]
  generalize firstWord line = word
  constructor
  · intro found
    exact (by simpa using List.find?_some found : keyword.text = word).symm
  · rintro rfl
    cases keyword <;> rfl

theorem operatorForm (t : Text) : startsOperator t = true ↔
    ∃ modifier ∈ modifiers, ∃ value, t = modifier ++ '=' :: value := by
  constructor
  · intro operator
    unfold startsOperator at operator
    split at operator
    · exact ⟨[], by simp [modifiers], _, rfl⟩
    · exact ⟨['?'], by simp [modifiers], _, rfl⟩
    · exact ⟨['+'], by simp [modifiers], _, rfl⟩
    · exact ⟨[':'], by simp [modifiers], _, rfl⟩
    · exact ⟨[':', ':'], by simp [modifiers], _, rfl⟩
    · cases operator
  · rintro ⟨modifier, known, value, rfl⟩
    simp only [modifiers, List.mem_cons, List.not_mem_nil, or_false] at known
    rcases known with rfl | rfl | rfl | rfl | rfl <;> rfl

theorem operatorHead {modifier : Text} (known : modifier ∈ modifiers) (value : Text) :
    ∀ c ∈ (modifier ++ '=' :: value).head?, isNameChar c = false ∧ isBlank c = false := by
  have marks : ∀ c ∈ ['=', '?', ':', '+'], isNameChar c = false ∧ isBlank c = false := by
    intro c inside
    simp only [List.mem_cons, List.not_mem_nil, or_false] at inside
    rcases inside with rfl | rfl | rfl | rfl <;> decide +kernel
  intro c head
  refine marks c ?_
  simp only [modifiers, List.mem_cons, List.not_mem_nil, or_false] at known
  rcases known with rfl | rfl | rfl | rfl | rfl <;> cases Option.some.inj head <;> simp

theorem assignmentForm (line : Text) : isAssignment line = true ↔ Assigns line := by
  rw [isAssignment, Bool.and_eq_true, operatorForm]
  constructor
  · rintro ⟨some, modifier, known, value, operator⟩
    refine ⟨line.takeWhile isNameChar, (line.dropWhile isNameChar).takeWhile isBlank, modifier,
      value, ?_, by simpa using some, fun c => List.mem_takeWhile_imp,
      fun c => List.mem_takeWhile_imp, known⟩
    rw [← operator, trimLeft, List.takeWhile_append_dropWhile, List.takeWhile_append_dropWhile]
  · rintro ⟨name, blanks, modifier, value, rfl, some, inside, blank, known⟩
    have solid := operatorHead known value
    have stops : ∀ c ∈ (blanks ++ (modifier ++ '=' :: value)).head?, isNameChar c = false := by
      intro c head
      cases blanks with
      | nil => exact (solid c head).1
      | cons d more =>
        cases Option.some.inj head
        exact blankNotName (blank _ (List.mem_cons_self ..))
    obtain ⟨front, behind⟩ := spanSplit inside stops
    have operator := (spanSplit blank fun c head => (solid c head).2).2
    rw [front, behind, trimLeft, operator]
    exact ⟨by simpa using some, modifier, known, value, rfl⟩

theorem markSolid {c : Char} (mark : isMark c = true) : isBlank c = false ∧ isNameChar c = false := by
  simp only [isMark, Bool.or_eq_true, beq_iff_eq] at mark
  rcases mark with (rfl | rfl) | rfl <;> decide +kernel

theorem reassignsForm (t : Text) : startsAnyOperator t = true ↔ Reassigns t := by
  have apply : startsAnyOperator t = startsWith ['='] ((trimLeft t).dropWhile isMark) := rfl
  rw [apply, startsWith, List.isPrefixOf_iff_prefix]
  constructor
  · rintro ⟨value, equals⟩
    refine ⟨t.takeWhile isBlank, (trimLeft t).takeWhile isMark, value, ?_,
      fun c => List.mem_takeWhile_imp, fun c => List.mem_takeWhile_imp⟩
    rw [show '=' :: value = ['='] ++ value from rfl, equals, List.takeWhile_append_dropWhile, trimLeft,
      List.takeWhile_append_dropWhile]
  · rintro ⟨blanks, marks, value, rfl, blank, known⟩
    have stops : ∀ c ∈ (marks ++ '=' :: value).head?, isBlank c = false := by
      intro c head
      cases marks with
      | nil =>
        cases Option.some.inj head
        decide
      | cons d more =>
        cases Option.some.inj head
        exact (markSolid (known _ (List.mem_cons_self ..))).1
    have behind := (spanSplit blank stops).2
    have last : ∀ c ∈ ('=' :: value).head?, isMark c = false := by simp [isMark]
    have equals := (spanSplit known last).2
    rw [trimLeft, behind, equals]
    exact ⟨value, rfl⟩

theorem inclusionForm (line : Text) : isInclude line = true ↔ Includes (trim line) := by
  constructor
  · intro inclusion
    obtain ⟨rest, split, blank⟩ := includeShape inclusion
    cases rest with
    | nil => exact .inl (by simpa using split)
    | cons c more =>
      obtain ⟨first, plain⟩ := blank c more rfl
      refine .inr ⟨c, more, split, first, fun assigns => ?_⟩
      rw [(reassignsForm more).mpr assigns] at plain
      cases plain
  · rintro (whole | ⟨c, rest, split, first, plain⟩)
    · simp [isInclude, whole, startsWith]
    · have other : startsAnyOperator rest = false := by
        rw [Bool.eq_false_iff]
        exact fun operator => plain ((reassignsForm rest).mp operator)
      simp [isInclude, split, startsWith, first, other]

theorem headerForm (line : Text) : isRuleHeader line = true ↔ FirstColon line := by
  unfold isRuleHeader
  cases found : cutAt ':' line with
  | mk before after? =>
    cases after? with
    | none =>
      have clear : ':' ∉ line := cutMissing.mp (by rw [found])
      refine ⟨fun header => (by cases header), ?_⟩
      rintro ⟨before, after, rfl, _⟩
      simp at clear
    | some after =>
      simp only [Bool.not_eq_true', Bool.eq_false_iff, ne_eq, startsHead]
      constructor
      · intro other
        obtain ⟨split, clear⟩ := cutFound.mp found
        exact ⟨before, after, split, clear, other⟩
      · rintro ⟨front, behind, split, clear, other⟩
        cases found.symm.trans (cutFound.mpr ⟨split, clear⟩)
        exact other

theorem firstInstead {α : Type} {applies holds : α → Prop} (front : List α) {rest : List α} {a b : α}
    (first : FirstOf applies (front ++ b :: rest) a) (behind : a ∉ front)
    (out : ∀ c ∈ front, ¬applies c → ¬holds c) (here : holds b) :
    FirstOf holds (front ++ b :: rest) b := by
  induction front with
  | nil => exact .here here
  | cons c front ih =>
    cases first with
    | here => simp at behind
    | later fails onward =>
      refine .later (out c (List.mem_cons_self ..) fails) (ih onward ?_ fun d inside => ?_)
      · exact fun inside => behind (List.mem_cons_of_mem c inside)
      · exact out d (List.mem_cons_of_mem c inside)

theorem kindFirst {line : Text} {header : Text → Prop}
    (rule : LineKind.of (trim line) = .rule → header (trim line))
    (command : LineKind.of (trim line) = .command → ¬header (trim line)) :
    FirstOf (LineKind.Applies header (trim line)) LineKind.order (LineKind.of (trim line)) := by
  have assigns := assignmentForm (trim line)
  have includes := (includeTrim line).symm ▸ inclusionForm line
  have words := keywordWord (trim line)
  revert rule command
  unfold LineKind.of LineKind.order
  simp only [startsHead, keywordWord]
  intro rule command
  split
  · exact .here ‹_›
  rename_i noComment
  refine .later noComment ?_
  split
  · exact .here ‹_›
  rename_i noVariable
  refine .later noVariable ?_
  split
  · exact .here (assigns.mp ‹_›)
  rename_i noAssignment
  refine .later (fun assignment => noAssignment (assigns.mpr assignment)) ?_
  split
  · exact .here (includes.mp ‹_›)
  rename_i noInclusion
  refine .later (fun inclusion => noInclusion (includes.mpr inclusion)) ?_
  simp only [if_neg noComment, if_neg noVariable, if_neg noAssignment, if_neg noInclusion] at rule command
  cases keyword : Keyword.ofLine? (trim line) with
  | none =>
    have other : ∀ keyword : Keyword, firstWord (trim line) ≠ keyword.text := by
      intro keyword' same
      rw [(words keyword').mpr same] at keyword
      cases keyword
    refine .later (by simp [LineKind.Applies, other]) (.later (other _) (.later (other _) ?_))
    simp only [keyword] at rule command ⊢
    split
    · rename_i found
      exact .here (rule (if_pos found))
    · rename_i none
      exact .later (command (if_neg none)) (.here trivial)
  | some keyword' =>
    have word := (words keyword').mp keyword
    cases keyword' with
    | ifeq => exact .here (.inl word)
    | ifneq => exact .here (.inr word)
    | otherwise =>
      refine .later ?_ (.here word)
      simp only [LineKind.Applies, word]
      decide
    | endif =>
      refine .later ?_ (.later ?_ (.here word))
      · simp only [LineKind.Applies, word]
        decide
      · simp only [LineKind.Applies, word]
        decide
    | exported => exact absurd (.inl word) noVariable
    | unexported => exact absurd (.inr word) noVariable

theorem headerKind (line : Text) :
    (LineKind.of line = .rule → FirstColon line) ∧ (LineKind.of line = .command → ¬FirstColon line) := by
  rw [← headerForm]
  unfold LineKind.of
  grind

theorem firstColonSome {line : Text} (header : FirstColon line) : SomeColon line := by
  obtain ⟨before, after, split, _, other⟩ := header
  exact ⟨before, after, split, other⟩

/-- If any colon could make a line a header, the rules would choose otherwise for those lines only that
are read as commands for want of another rule. -/
structure ColonsAlike (line : Text) (kind : LineKind) : Prop where
  overlooked : kind = .command → SomeColon line →
    FirstOf (LineKind.Applies SomeColon line) LineKind.order .rule
  alike : ¬(kind = .command ∧ SomeColon line) →
    FirstOf (LineKind.Applies SomeColon line) LineKind.order kind

theorem colonsAlike (line : Text) : ColonsAlike (trim line) (LineKind.of (trim line)) where
  overlooked := by
    intro command colon
    have first := kindFirst (headerKind (trim line)).1 (headerKind (trim line)).2
    rw [command] at first
    refine firstInstead (LineKind.order.take 7) first (by decide) ?_ colon
    intro kind inside fails
    -- The rules differ for headers alone, and those come later.
    cases kind with
    | rule => simp [LineKind.order] at inside
    | _ => exact fails
  alike := fun plain => kindFirst (fun rule => firstColonSome ((headerKind _).1 rule))
    fun command colon => plain ⟨command, colon⟩

def readAs (setting : Setting) (fuel : Nat) (vars : Variables) (line : Text) :
    LineKind → Action LineStream (Option (Option Statement × Variables))
  | .comment => return some (some (.comment (commentText line)), vars)
  | .variable => do
    let (statement, vars) ← readVariable vars line (← Action.state).location
    return some (some statement, vars)
  | .assignment => do return some (none, ← assignLine vars line)
  | .inclusion => do return some (some (← readInclusion setting.files line), vars)
  | .conditional => readConditional setting fuel vars line
  | .stray keyword => do Action.fail ⟨.unmatched keyword, (← Action.state).location⟩
  | .rule => readRule setting fuel vars line
  | .command => do
    Action.emit (.remark .warning (← Action.state).location ("Unhandled: ".toList ++ line))
    return some (some (.command line), vars)

theorem bindNested {σ α β γ : Type} (x : Action σ α) (f : α → Action σ β) (g : β → Action σ γ) (s : σ) :
    (x >>= f >>= g) none s = (x >>= fun a => f a >>= g) none s := by
  cases first : x none s with
  | mk events t result =>
    cases result with
    | error failure =>
      have failed : (x >>= f) none s = ⟨events, t, .error failure⟩ := bindFailed first
      rw [bindFailed failed, bindFailed first]
    | ok a =>
      rw [bindReturned first]
      cases second : f a none t with
      | mk more u result =>
        have both : (x >>= f) none s = ⟨events ++ more, u, result⟩ := by
          rw [bindReturned first, second]
          rfl
        cases result with
        | error failure => rw [bindFailed both, bindFailed second]; rfl
        | ok b =>
          rw [bindReturned both, bindReturned second]
          simp [Outcome.behind]

theorem bindAlike {σ α β : Type} {x : Action σ α} {f g : α → Action σ β} {s : σ}
    (same : ∀ a t, f a none t = g a none t) : (x >>= f) none s = (x >>= g) none s := by
  cases first : x none s with
  | mk events t result =>
    cases result with
    | error failure => rw [bindFailed first, bindFailed first]
    | ok a => rw [bindReturned first, bindReturned first, same]

theorem statementReadAs (setting : Setting) (fuel : Nat) (vars : Variables) (line : Text)
    (s : LineStream) :
    readStatement setting fuel vars line none s =
      readAs setting fuel vars (trim line) (LineKind.of (trim line)) none s := by
  unfold readStatement beginStatement
  rw [bindNested, bindSilent (stateApply none s)]
  cases LineKind.of (trim line) with
  | comment => rfl
  | «variable» =>
    dsimp only [readAs]
    rw [bindNested, bindSilent (stateApply none s)]
    exact bindAlike fun statement t => bindSilent (pureApply _ none t)
  | assignment => rfl
  | inclusion =>
    dsimp only [readAs]
    rw [bindNested]
    exact bindAlike fun statement t => bindSilent (pureApply _ none t)
  | conditional =>
    dsimp only [readAs, readConditional]
    rw [bindNested]
    exact bindAlike fun opened t => bindSilent (pureApply _ none t)
  | stray keyword => rfl
  | rule =>
    dsimp only [readAs, readRule]
    rw [bindNested]
    exact bindAlike fun block t => bindSilent (pureApply _ none t)
  | command => rfl

/-- A line is read as the construct of the first rule that applies to it. It is no header if its first
colon belongs to an assignment, even where a later colon does not. -/
theorem statementsClassified (setting : Setting) (fuel : Nat) (vars : Variables) (line : Text)
    (s : LineStream) :
    ∃ kind, (∀ other, FirstOf (LineKind.Applies FirstColon (trim line)) LineKind.order other ↔
        other = kind) ∧
      readStatement setting fuel vars line none s =
        readAs setting fuel vars (trim line) kind none s ∧
      ColonsAlike (trim line) kind := by
  have first := kindFirst (headerKind (trim line)).1 (headerKind (trim line)).2
  refine ⟨LineKind.of (trim line), fun other => ⟨fun also => firstUnique also first, ?_⟩,
    statementReadAs setting fuel vars line s, colonsAlike line⟩
  rintro rfl
  exact first

/-- A rule for a name with a suffix put in: its own colon is the second of the line, so that the header
and its recipe are read as commands. -/
theorem suffixedHeader :
    (¬∀ setting fuel vars line s kind,
      FirstOf (LineKind.Applies SomeColon (trim line)) LineKind.order kind →
        readStatement setting fuel vars line none s =
          readAs setting fuel vars (trim line) kind none s) ∧
    ((Origin.text "Makefile".toList "$(BINS:=.exe): main.c\n\tcc $<\n".toList).read ⟨['/'], []⟩
      none 3).result.map (Option.map (·.statements)) =
      .ok (some [.command "$(BINS:=.exe): main.c".toList, .command "cc $<".toList]) := by
  refine ⟨fun all => ?_, by decide +kernel⟩
  have colon : SomeColon "$(BINS:=.exe): main.c".toList :=
    ⟨"$(BINS:=.exe)".toList, " main.c".toList, rfl, by decide⟩
  have chosen := (colonsAlike "$(BINS:=.exe): main.c".toList).overlooked (by decide +kernel) colon
  have same := all ⟨⟨['/'], []⟩, ['/']⟩ 0 .empty "$(BINS:=.exe): main.c".toList (LineStream.empty [])
    .rule chosen
  exact absurd (congrArg (·.result.map (Option.map Prod.fst)) same) (by decide +kernel)

end MakeTree
