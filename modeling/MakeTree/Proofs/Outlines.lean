import MakeTree.Proofs.Chains
import MakeTree.Proofs.IndentedLines

/-! The outline of a statement is printed under an indent: it is made up of parts, each with lines of its
own and the outlines of the statements in it, a fixed step further in. A chain of conditionals is one part
after another at the same indent. -/
namespace MakeTree
open Text

mutual

def Statement.shownTexts : Statement → List Text
  | .comment text => [text]
  | .inclusion path => [path]
  | .exported name value => [name, value]
  | .unexported name => [name]
  | .command text => [text]
  | .cargo _ directory _ => directory.toList
  | .rule name prerequisites definedIn recipe _ =>
    name :: prerequisites ++ definedIn.toList ++ allShownTexts recipe
  | .elseBranch statements => allShownTexts statements
  | .conditional block => block.shownTexts

def Conditional.shownTexts : Conditional → List Text
  | .mk condition _ statements chained otherwise =>
    condition :: allShownTexts statements ++
    match chained, otherwise with
    | some next, _ => next.shownTexts
    | none, some statements => allShownTexts statements
    | none, none => []

def allShownTexts : List Statement → List Text
  | [] => []
  | statement :: rest => statement.shownTexts ++ allShownTexts rest

end

structure OutlinePart where
  heads : List Text
  further : Text
  inside : List Statement

def stepLines (statements : List Statement) : List Text :=
  statements.flatMap fun step => splitLines (step.dump [])

def OutlinePart.lines (part : OutlinePart) : List Text :=
  part.heads ++ (stepLines part.inside).map (part.further ++ ·)

def chainLines : List Text → List Text
  | [] => []
  | [last] => ["    ".toList ++ last]
  | command :: rest => ("    ".toList ++ command ++ " && \\".toList) :: chainLines rest

def commandLines (command : Text) : List Text :=
  match chainCommands command with
  | [] | [_] => [command]
  | first :: rest => (first ++ " && \\".toList) :: chainLines rest

def headsAlone (heads : List Text) : List OutlinePart := [⟨heads, [], []⟩]

def elsePart (statements : List Statement) : OutlinePart :=
  ⟨["Else".toList], "  ".toList, statements⟩

def Conditional.parts (lead : Text) : Conditional → List OutlinePart
  | .mk condition expected statements chained otherwise =>
    ⟨[lead ++ (if expected then "IfEq ".toList else "IfNotEq ".toList) ++ condition],
      "  ".toList, statements⟩ ::
    match chained, otherwise with
    | some next, _ => next.parts "Else ".toList
    | none, some statements => [elsePart statements]
    | none, none => []

def Statement.parts : Statement → List OutlinePart
  | .comment text => headsAlone ["Comment ".toList ++ text]
  | .inclusion path => headsAlone ["Include ".toList ++ path]
  | .exported name value => headsAlone ["Export ".toList ++ name ++ '=' :: value]
  | .unexported name => headsAlone ["Unexport ".toList ++ name]
  | .command text => headsAlone (commandLines text)
  | .cargo subcommand directory text =>
    headsAlone ["Cargo ".toList ++ subcommand.name ++ ' ' :: directory.getD [],
      "    Original: ".toList ++ quoted text]
  | .rule name prerequisites definedIn recipe doubleColon =>
    [⟨["Target ".toList ++ name ++ (if doubleColon then "::".toList else [':']) ++
        ' ' :: joinWith [' '] prerequisites,
        "  Defined in: ".toList ++ definedIn.getD "None".toList], "    ".toList, recipe⟩]
  | .elseBranch statements => [elsePart statements]
  | .conditional block => block.parts []

def outline (parts : List OutlinePart) : List Text := parts.flatMap OutlinePart.lines

/-! What stands at the head of a part. -/

theorem joinWithClear {texts : List Text} (clear : ∀ text ∈ texts, '\n' ∉ text) :
    '\n' ∉ joinWith [' '] texts := by
  fun_induction joinWith [' '] texts with
  | case1 => exact List.not_mem_nil
  | case2 text => exact clear text (List.mem_cons_self ..)
  | case3 text rest more ih =>
    obtain ⟨first, later⟩ := List.forall_mem_cons.mp clear
    exact List.not_mem_append (List.not_mem_append first (by decide)) (ih later)

theorem hexClear (width n : Nat) : '\n' ∉ hexDigits width n := by
  induction width generalizing n with
  | zero => exact List.not_mem_nil
  | succ width ih =>
    have digits : ∀ n < 16, '\n' ∉ [Nat.digitChar n] := by decide
    exact List.not_mem_append (ih _) (digits (n % 16) (Nat.mod_lt n (by decide)))

theorem quoteCharClear {quote : Char} (apart : quote ≠ '\n') (c : Char) :
    '\n' ∉ quoteChar isPrintable quote c := by
  unfold quoteChar
  split
  · rename_i marked
    rcases marked with rfl | rfl
    · simpa using Ne.symm apart
    · decide
  split
  · decide
  rename_i feedless
  split
  · decide
  split
  · decide
  split
  · simpa using Ne.symm feedless
  · unfold escapeCodePoint
    split
    · simpa using hexClear 2 _
    · split
      · simpa using hexClear 4 _
      · simpa using hexClear 8 _

theorem quotedClear (text : Text) : '\n' ∉ quoted text := by
  have apart : quoteFor text ≠ '\n' := by
    unfold quoteFor
    split <;> decide
  have inner : '\n' ∉ text.flatMap (quoteChar isPrintable (quoteFor text)) := by
    intro member
    obtain ⟨c, -, shown⟩ := List.mem_flatMap.mp member
    exact quoteCharClear apart c shown
  simpa [quoted, quotedWith, Ne.symm apart] using inner

theorem printsChain {commands : List Text} (clear : ∀ command ∈ commands, '\n' ∉ command) :
    Prints (dumpChain · commands) (chainLines commands) := by
  have gap : '\n' ∉ "    ".toList := by decide
  have onward : '\n' ∉ " && \\".toList := by decide
  fun_induction chainLines commands with
  | case1 => exact printsNone
  | case2 last => exact printsOne (List.not_mem_append gap (clear last (List.mem_cons_self ..)))
  | case3 command rest more ih =>
    obtain ⟨first, later⟩ := List.forall_mem_cons.mp clear
    cases rest with
    | nil => exact absurd rfl more
    | cons second rest =>
      exact (ih later).behind (List.not_mem_append (List.not_mem_append gap first) onward)

theorem printsCommand {text : Text} (clear : '\n' ∉ text) :
    Prints (dumpCommand · text) (commandLines text) := by
  have commands : ∀ command ∈ chainCommands text, '\n' ∉ command :=
    fun command member feed => clear ((commandsLinks member).2 feed)
  have onward : '\n' ∉ " && \\".toList := by decide
  unfold dumpCommand commandLines
  generalize chainCommands text = chain at commands
  match chain with
  | [] => exact printsOne clear
  | [_] => exact printsOne clear
  | first :: second :: rest =>
    obtain ⟨head, later⟩ := List.forall_mem_cons.mp commands
    exact (printsChain later).behind (List.not_mem_append head onward)

/-! Parts and what is made up of them. -/

theorem printsAlone {print : Text → Text} {heads : List Text} (prints : Prints print heads) :
    Prints print (outline (headsAlone heads)) := by
  have same : outline (headsAlone heads) = heads := by
    simp [outline, headsAlone, OutlinePart.lines, stepLines]
  rwa [same]

theorem printsText {lead text : Text} (level : '\n' ∉ lead) (clear : '\n' ∉ text) :
    Prints (indented · (lead ++ text)) (outline (headsAlone [lead ++ text])) :=
  printsAlone (printsOne (List.not_mem_append level clear))

theorem printsPart {print other : Text → Text} {heads : List Text} {gap : Text} {inside : List Statement}
    {parts : List OutlinePart} (own : Prints print heads) (level : '\n' ∉ gap)
    (steps : Prints (dumpAll · inside) (stepLines inside)) (onward : Prints other (outline parts)) :
    Prints (fun indent => print indent ++ dumpAll (indent ++ gap) inside ++ other indent)
      (outline (⟨heads, gap, inside⟩ :: parts)) :=
  (own.append (steps.further level)).append onward

theorem printsLast {print : Text → Text} {heads : List Text} {gap : Text} {inside : List Statement}
    (own : Prints print heads) (level : '\n' ∉ gap)
    (steps : Prints (dumpAll · inside) (stepLines inside)) :
    Prints (fun indent => print indent ++ dumpAll (indent ++ gap) inside)
      (outline [⟨heads, gap, inside⟩]) := by
  have nothing : Prints (fun _ => []) (outline []) := printsNone
  simpa using printsPart own level steps nothing

theorem printsElse {statements : List Statement}
    (steps : Prints (dumpAll · statements) (stepLines statements)) :
    Prints (fun indent => elseLine indent ++ dumpAll (indent ++ "  ".toList) statements)
      (outline [elsePart statements]) :=
  printsLast (printsOne (by decide)) (by decide) steps

theorem printsLink {lead condition : Text} (expected : Bool) (level : '\n' ∉ lead)
    (clear : '\n' ∉ condition) {statements : List Statement}
    (steps : Prints (dumpAll · statements) (stepLines statements)) {other : Text → Text}
    {parts : List OutlinePart} (onward : Prints other (outline parts)) :
    Prints (fun indent =>
        indented indent (lead ++ (if expected then "IfEq ".toList else "IfNotEq ".toList) ++ condition) ++
          dumpAll (indent ++ "  ".toList) statements ++ other indent)
      (outline (⟨[lead ++ (if expected then "IfEq ".toList else "IfNotEq ".toList) ++ condition],
        "  ".toList, statements⟩ :: parts)) := by
  have keyword : '\n' ∉ if expected then "IfEq ".toList else "IfNotEq ".toList := by
    cases expected <;> decide
  exact printsPart (printsOne (List.not_mem_append (List.not_mem_append level keyword) clear)) (by decide)
    steps onward

mutual

theorem statementPrints : ∀ s : Statement, (∀ text ∈ s.shownTexts, '\n' ∉ text) →
    Prints (s.dump ·) (outline s.parts)
  | .comment text, clear => printsText (by decide) (clear text (List.mem_singleton_self _))
  | .inclusion path, clear => printsText (by decide) (clear path (List.mem_singleton_self _))
  | .exported name value, clear => by
    obtain ⟨named, valued⟩ := List.forall_mem_cons.mp clear
    have shown : '\n' ∉ value := valued value (List.mem_singleton_self _)
    exact printsAlone (printsOne (by simpa using ⟨named, shown⟩))
  | .unexported name, clear => printsText (by decide) (clear name (List.mem_singleton_self _))
  | .command text, clear => printsAlone (printsCommand (clear text (List.mem_singleton_self _)))
  | .cargo subcommand directory text, clear => by
    have named : '\n' ∉ subcommand.name := by cases subcommand <;> decide
    have placed : '\n' ∉ directory.getD [] := by
      cases directory with
      | none => exact List.not_mem_nil
      | some place => exact clear place (List.mem_singleton_self _)
    have quoted := quotedClear text
    exact printsAlone ((printsOne (by simpa using quoted)).behind (by simpa using ⟨named, placed⟩))
  | .rule name prerequisites definedIn recipe doubleColon, clear => by
    obtain ⟨front, steps⟩ := List.forall_mem_append.mp clear
    obtain ⟨titled, placed⟩ := List.forall_mem_append.mp front
    obtain ⟨named, needed⟩ := List.forall_mem_cons.mp titled
    have colons : '\n' ∉ if doubleColon then "::".toList else [':'] := by cases doubleColon <;> decide
    have located : '\n' ∉ definedIn.getD "None".toList := by
      cases definedIn with
      | none => decide
      | some place => exact placed place (List.mem_singleton_self _)
    have header : '\n' ∉ "Target ".toList ++ name ++ (if doubleColon then "::".toList else [':']) ++
        ' ' :: joinWith [' '] prerequisites := by
      simpa using ⟨named, colons, joinWithClear needed⟩
    have place : '\n' ∉ "  Defined in: ".toList ++ definedIn.getD "None".toList := by
      simpa using located
    exact printsLast ((printsOne place).behind header) (by decide) (allPrints recipe steps)
  | .elseBranch statements, clear => printsElse (allPrints statements clear)
  | .conditional block, clear => conditionalPrints [] block List.not_mem_nil clear

theorem conditionalPrints : ∀ (lead : Text) (block : Conditional), '\n' ∉ lead →
    (∀ text ∈ block.shownTexts, '\n' ∉ text) → Prints (block.dump · lead) (outline (block.parts lead))
  | lead, .mk condition expected statements (some next) otherwise, level, clear => by
    obtain ⟨own, onward⟩ := List.forall_mem_append.mp clear
    obtain ⟨first, steps⟩ := List.forall_mem_cons.mp own
    have chain := conditionalPrints "Else ".toList next (by decide) onward
    exact printsLink expected level first (allPrints statements steps) chain
  | lead, .mk condition expected statements none (some others), level, clear => by
    obtain ⟨own, onward⟩ := List.forall_mem_append.mp clear
    obtain ⟨first, steps⟩ := List.forall_mem_cons.mp own
    have branch := printsElse (allPrints others onward)
    exact printsLink expected level first (allPrints statements steps) branch
  | lead, .mk condition expected statements none none, level, clear => by
    obtain ⟨own, -⟩ := List.forall_mem_append.mp clear
    obtain ⟨first, steps⟩ := List.forall_mem_cons.mp own
    have nothing : Prints (fun _ => []) (outline []) := printsNone
    exact printsLink expected level first (allPrints statements steps) nothing

theorem allPrints : ∀ statements : List Statement,
    (∀ text ∈ allShownTexts statements, '\n' ∉ text) → Prints (dumpAll · statements) (stepLines statements)
  | [], _ => printsNone
  | statement :: rest, clear => by
    obtain ⟨first, later⟩ := List.forall_mem_append.mp clear
    have prints := statementPrints statement first
    rw [← prints.own] at prints
    exact prints.append (allPrints rest later)

end

theorem commandLinesSome (text : Text) : commandLines text ≠ [] := by
  unfold commandLines
  split <;> exact List.cons_ne_nil _ _

theorem outlineSome (s : Statement) : outline s.parts ≠ [] := by
  suffices headed : ∃ head rest, outline s.parts = head :: rest by
    obtain ⟨head, rest, lines⟩ := headed
    exact lines ▸ List.cons_ne_nil head rest
  cases s with
  | command text =>
    obtain ⟨head, rest, lines⟩ := List.exists_cons_of_ne_nil (commandLinesSome text)
    refine ⟨head, rest, ?_⟩
    simp [outline, Statement.parts, headsAlone, OutlinePart.lines, stepLines, lines]
  | conditional block =>
    obtain ⟨condition, expected, statements, chained, otherwise⟩ := block
    unfold Statement.parts Conditional.parts
    exact ⟨_, _, rfl⟩
  | _ => exact ⟨_, _, rfl⟩

theorem dumpAllJoined (indent : Text) (statements : List Statement) :
    dumpAll indent statements = statements.flatMap (·.dump indent) := by
  induction statements with
  | nil => rfl
  | cons statement rest ih => rw [dumpAll, ih, List.flatMap_cons]

/-- What an outline does under an indent. In front of an indent that ends lines, anything more gets in
front of every one of them. -/
structure Statement.Outlined (s : Statement) : Prop where
  prints : Prints (s.dump ·) (outline s.parts)
  ended : ∀ indent, ∃ front, s.dump indent = front ++ ['\n']
  shifts : ∀ i j, s.dump (i ++ j) = inFront i (s.dump j) ↔ i = [] ∨ '\n' ∉ j

structure AllOutlined (statements : List Statement) : Prop where
  joined : ∀ indent, dumpAll indent statements = statements.flatMap (·.dump indent)
  prints : Prints (dumpAll · statements) (stepLines statements)
  shifts : ∀ i j, dumpAll (i ++ j) statements = inFront i (dumpAll j statements) ↔
    statements = [] ∨ i = [] ∨ '\n' ∉ j

theorem outlinesShift :
    (∀ s : Statement, (∀ text ∈ s.shownTexts, '\n' ∉ text) → s.Outlined) ∧
    ∀ statements, (∀ text ∈ allShownTexts statements, '\n' ∉ text) → AllOutlined statements := by
  constructor
  · intro s clear
    have prints := statementPrints s clear
    have some := outlineSome s
    exact ⟨prints, prints.ended some, fun i j => by simpa [some] using prints.shifts i j⟩
  · intro statements clear
    have prints := allPrints statements clear
    have bare : stepLines statements = [] ↔ statements = [] := by
      cases statements with
      | nil => simp [stepLines]
      | cons first rest =>
        have own := (statementPrints first (List.forall_mem_append.mp clear).1).own
        simp [stepLines, own, outlineSome first]
    exact ⟨(dumpAllJoined · statements), prints, fun i j => by simpa [bare] using prints.shifts i j⟩

def nestedOutline : Statement :=
  let recipe := [.command "cd x && && make".toList, .cargo .run (some ['x']) "cargo run\n".toList]
  let rule := Statement.rule "all".toList ["dep".toList] none recipe true
  .conditional (.mk ['a'] true [rule] (some (.mk ['b'] false [] none (some [.unexported ['c']]))) none)

theorem nestedOutline.outlined :
    (∀ text ∈ nestedOutline.shownTexts, '\n' ∉ text) ∧ nestedOutline.Outlined ∧
    (∀ text ∈ allShownTexts [nestedOutline, .comment []], '\n' ∉ text) ∧
    AllOutlined [nestedOutline, .comment []] := by
  have clear : ∀ text ∈ nestedOutline.shownTexts, '\n' ∉ text := by decide +kernel
  have both : ∀ text ∈ allShownTexts [nestedOutline, .comment []], '\n' ∉ text := by decide +kernel
  exact ⟨clear, outlinesShift.1 nestedOutline clear, both, outlinesShift.2 _ both⟩

theorem brokenIndent :
    (∀ text ∈ (Statement.comment ['x']).shownTexts, '\n' ∉ text) ∧
    (¬∀ i j, (Statement.comment ['x']).dump (i ++ j) = inFront i ((Statement.comment ['x']).dump j)) ∧
    (Statement.comment ['x']).dump "a\n".toList = "a\nComment x\n".toList ∧
    inFront ['a'] ((Statement.comment ['x']).dump ['\n']) = "a\naComment x\n".toList := by
  have printed : (Statement.comment ['x']).dump "a\n".toList = "a\nComment x\n".toList := by decide
  have front : inFront ['a'] ((Statement.comment ['x']).dump ['\n']) = "a\naComment x\n".toList := by
    decide
  refine ⟨by decide, fun all => ?_, printed, front⟩
  have same := all ['a'] ['\n']
  rw [front] at same
  exact absurd (printed.symm.trans same) (by decide)

end MakeTree
