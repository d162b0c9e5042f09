import MakeTree.Proofs.Continuations
import MakeTree.Proofs.Outlines

/-! Reading the outline of a chain of commands. Every line but the last ends in a backslash, so the lines
are joined again. What is lost on the way are commands that look like comments and a backslash at the end;
a chain without these reads back as one logical line with the same commands, however many of them are
empty. -/
namespace MakeTree
open Text LineStream

def reread : List Text → List Text
  | [] => []
  | [last] =>
    if startsWith ['#'] last then [[]]
    else if endsWithChar '\\' last then [trim last.dropLast]
    else [last]
  | command :: rest =>
    if startsWith ['#'] command then reread rest else command :: reread rest

structure Rereadable (commands : List Text) : Prop where
  plain : ∀ command ∈ commands, startsWith ['#'] command = false
  closed : ∀ last ∈ commands.getLast?, endsWithChar '\\' last = false

theorem rereadCons (command : Text) {rest : List Text} (more : rest ≠ []) :
    reread (command :: rest) = if startsWith ['#'] command then reread rest else command :: reread rest := by
  obtain ⟨second, others, rfl⟩ := List.exists_cons_of_ne_nil more
  rfl

theorem rereadLength (commands : List Text) : (reread commands).length ≤ commands.length := by
  fun_induction reread commands with
  | case1 => exact Nat.le_refl _
  | case2 => exact Nat.le_refl _
  | case3 => exact Nat.le_refl _
  | case4 => exact Nat.le_refl _
  | case5 command rest more comment ih => exact Nat.le_succ_of_le ih
  | case6 command rest more plain ih => exact Nat.succ_le_succ ih

theorem trimLength (t : Text) : (trim t).length ≤ t.length :=
  ((trimRightPrefix _).length_le).trans (List.dropWhile_suffix _).length_le

theorem rereadExact (commands : List Text) : reread commands = commands ↔ Rereadable commands := by
  fun_induction reread commands with
  | case1 => exact ⟨fun _ => ⟨by simp, by simp⟩, fun _ => rfl⟩
  | case2 last comment =>
    constructor
    · intro same
      cases same
      cases comment
    · intro able
      simp [able.plain last (List.mem_cons_self ..)] at comment
  | case3 last plain continues =>
    constructor
    · intro same
      obtain ⟨front, rfl⟩ := endsForm.mp continues
      have shorter := trimLength (front ++ ['\\']).dropLast
      rw [(List.cons.inj same).1, List.dropLast_concat, List.length_append] at shorter
      exact absurd shorter (by simp)
    · intro able
      simp [able.closed last rfl] at continues
  | case4 last plain ends =>
    refine ⟨fun _ => ⟨?_, ?_⟩, fun _ => rfl⟩
    · simpa using plain
    · simpa using ends
  | case5 command rest more comment ih =>
    constructor
    · intro same
      have shorter := rereadLength rest
      rw [same, List.length_cons] at shorter
      omega
    · intro able
      simp [able.plain command (List.mem_cons_self ..)] at comment
  | case6 command rest more plain ih =>
    have last : (command :: rest).getLast? = rest.getLast? := by
      cases rest with
      | nil => exact absurd rfl more
      | cons second rest => rfl
    rw [List.cons.injEq, eq_self, true_and, ih]
    constructor
    · intro able
      exact ⟨List.forall_mem_cons.mpr ⟨by simpa using plain, able.plain⟩, last ▸ able.closed⟩
    · intro able
      exact ⟨(List.forall_mem_cons.mp able.plain).2, last ▸ able.closed⟩

theorem linkHead {command : Text} {c : Char} {rest : Text} (link : IsLink command)
    (head : command = c :: rest) : isBlank c = false := by
  have trimmed := trimLeftTrim command
  rw [link.trimmed, head] at trimmed
  exact trimLeftHead trimmed

theorem linkLast {front : Text} {c : Char} (link : IsLink (front ++ [c])) : isBlank c = false := by
  have ends : c ∈ (trimRight (trimLeft (front ++ [c]))).getLast? := by
    rw [show trimRight (trimLeft (front ++ [c])) = front ++ [c] from link.trimmed]
    simp
  exact trimRightLast ends

theorem linkComment {command gap tail : Text} (link : IsLink command)
    (blank : ∀ c ∈ gap, isBlank c = true) (apart : isComment tail = false) :
    isComment (gap ++ (command ++ tail)) = startsWith ['#'] command := by
  have front : trimLeft (gap ++ (command ++ tail)) = trimLeft (command ++ tail) :=
    List.dropWhile_append_of_pos blank
  rw [isComment, front]
  cases command with
  | nil => exact apart
  | cons c rest =>
    rw [List.cons_append, trimLeft, List.dropWhile_cons_of_neg (by simp [linkHead link rfl])]
    simp [startsWith, List.isPrefixOf]

theorem onwardComment {command gap : Text} (link : IsLink command)
    (blank : ∀ c ∈ gap, isBlank c = true) :
    isComment (gap ++ command ++ " && \\".toList) = startsWith ['#'] command := by
  rw [List.append_assoc]
  exact linkComment link blank (by decide)

theorem onwardContinued (front : Text) : isContinued (front ++ " && \\".toList) = true :=
  endsForm.mpr ⟨front ++ " && ".toList, by simp⟩

theorem onwardCut (front : Text) :
    (front ++ " && \\".toList).dropLast = front ++ ' ' :: '&' :: '&' :: [' '] := by
  have ends : front ++ " && \\".toList = (front ++ ' ' :: '&' :: '&' :: [' ']) ++ ['\\'] := by simp
  rw [ends, List.dropLast_concat]

theorem commandsOnward {gap command : Text} (blank : ∀ c ∈ gap, isBlank c = true)
    (link : IsLink command) (rest : Text) :
    chainCommands ((gap ++ command ++ " && \\".toList).dropLast ++ rest) =
      command :: chainCommands rest := by
  have parts : (gap ++ command ++ " && \\".toList).dropLast ++ rest =
      gap ++ (command ++ ' ' :: '&' :: '&' :: ([' '] ++ rest)) := by
    rw [onwardCut]
    simp
  have space : ∀ c ∈ [' '], isBlank c = true := List.all_eq_true.mp rfl
  rw [parts, commandsAhead blank, commandsCut link, commandsAhead space]

theorem spacesBlank : ∀ c ∈ "    ".toList, isBlank c = true := List.all_eq_true.mp rfl

theorem lastContinued {last : Text} (link : IsLink last) :
    chainCommands (continued ["    ".toList ++ last]).text = reread [last] ∧
    (continued ["    ".toList ++ last]).length = 1 := by
  rcases List.eq_nil_or_concat last with rfl | ⟨before, c, rfl⟩
  · exact ⟨rfl, rfl⟩
  rw [List.concat_eq_append] at link ⊢
  have solid : allBlank ("    ".toList ++ (before ++ [c])) = false := by simp [allBlank, linkLast link]
  have comment : isComment ("    ".toList ++ (before ++ [c])) = startsWith ['#'] (before ++ [c]) := by
    have head := linkComment link spacesBlank (show isComment [] = false by decide)
    rwa [List.append_nil] at head
  have ends : isContinued ("    ".toList ++ (before ++ [c])) = endsWithChar '\\' (before ++ [c]) := by
    rw [← List.append_assoc, isContinued, endsWithChar, endsWithChar, List.getLast?_concat,
      List.getLast?_concat]
  have cut : ("    ".toList ++ (before ++ [c])).dropLast = "    ".toList ++ before := by
    rw [← List.append_assoc, List.dropLast_concat]
  have inner : ¬chainMark <:+: before := fun marked => link.unmarked (marked.trans ⟨[], [c], rfl⟩)
  simp only [continued, solid, comment, ends, cut, reread, List.dropLast_concat, Bool.false_eq_true,
    if_false]
  split
  · exact ⟨rfl, rfl⟩
  split
  · rw [List.append_nil, commandsTrim, commandsAhead spacesBlank, chainCommands, chainWhole inner]
    exact ⟨rfl, rfl⟩
  · rw [commandsTrim, commandsAhead spacesBlank, commandsWhole link]
    exact ⟨rfl, rfl⟩

theorem chainContinued {commands : List Text} (some : commands ≠ [])
    (links : ∀ command ∈ commands, IsLink command) :
    chainCommands (continued (chainLines commands)).text = reread commands ∧
    (continued (chainLines commands)).length = (chainLines commands).length := by
  fun_induction chainLines commands with
  | case1 => exact absurd rfl some
  | case2 last => exact lastContinued (links last (List.mem_cons_self ..))
  | case3 command rest more ih =>
    obtain ⟨link, later⟩ := List.forall_mem_cons.mp links
    obtain ⟨text, length⟩ := ih more later
    have continues := onwardContinued ("    ".toList ++ command)
    have comment := onwardComment link spacesBlank
    simp only [continued, continuedSolid continues, comment, continues, rereadCons command more,
      Bool.false_eq_true, if_false, if_true]
    split
    · exact ⟨text, congrArg (· + 1) length⟩
    · rw [commandsTrim, commandsOnward spacesBlank link, text]
      exact ⟨rfl, congrArg (· + 1) length⟩

/-! The physical lines of an outline. -/

theorem lineKept (front : Text) {c : Char} (solid : isBlank c = false) :
    Source.withoutReturn (front ++ [c]) = front ++ [c] := by
  refine dropEndKeeps front ?_
  rw [Bool.or_eq_false_iff, beq_eq_false_iff_ne, beq_eq_false_iff_ne]
  constructor
  · rintro rfl
    cases solid
  · rintro rfl
    cases solid

theorem onwardKept (front : Text) :
    Source.withoutReturn (front ++ " && \\".toList) = front ++ " && \\".toList := by
  obtain ⟨before, ends⟩ := endsForm.mp (onwardContinued front)
  rw [ends]
  exact lineKept before (by decide)

theorem lastKept {last : Text} (link : IsLink last) :
    Source.withoutReturn ("    ".toList ++ last) = "    ".toList ++ last := by
  rcases List.eq_nil_or_concat last with rfl | ⟨before, c, rfl⟩
  · decide
  · rw [List.concat_eq_append] at link ⊢
    rw [← List.append_assoc]
    exact lineKept _ (linkLast link)

theorem chainKept {commands : List Text} (links : ∀ command ∈ commands, IsLink command) :
    (chainLines commands).map Source.withoutReturn = chainLines commands := by
  fun_induction chainLines commands with
  | case1 => rfl
  | case2 last => exact congrArg (fun line => [line]) (lastKept (links last (List.mem_cons_self ..)))
  | case3 command rest more ih =>
    rw [List.map_cons, onwardKept, ih (List.forall_mem_cons.mp links).2]

variable {command first : Text} {tail : List Text}

theorem outlineLines (line : '\n' ∉ command) (split : chainCommands command = first :: tail)
    (some : tail ≠ []) : Source.textLines ((Statement.command command).dump []) =
      (first ++ " && \\".toList) :: chainLines tail := by
  have shown : splitLines ((Statement.command command).dump []) = commandLines command :=
    (printsCommand line).own
  have lines : commandLines command = (first ++ " && \\".toList) :: chainLines tail := by
    obtain ⟨second, rest, rfl⟩ := List.exists_cons_of_ne_nil some
    rw [commandLines, split]
  have links : ∀ other ∈ tail, IsLink other := fun other inside =>
    (commandsLinks (split ▸ List.mem_cons_of_mem first inside)).1
  rw [Source.textLines, shown, lines, List.map_cons, onwardKept, chainKept links]

theorem chainJoined (path : Text) (line : '\n' ∉ command) (split : chainCommands command = first :: tail)
    (some : tail ≠ []) (plain : startsWith ['#'] first = false) :
    ∃ read, logicalLines path 0 0 (Source.textLines ((Statement.command command).dump [])) = [read] ∧
      chainCommands read.text = reread (first :: tail) := by
  have links : ∀ other ∈ first :: tail, IsLink other := fun other inside =>
    (commandsLinks (split ▸ inside)).1
  obtain ⟨link, later⟩ := List.forall_mem_cons.mp links
  obtain ⟨text, length⟩ := chainContinued some later
  have continues := onwardContinued first
  have comment : isComment (first ++ " && \\".toList) = false :=
    (onwardComment link (List.forall_mem_nil _)).trans plain
  have joins : joined (first ++ " && \\".toList) (chainLines tail) =
      ⟨(first ++ " && \\".toList).dropLast ++ (continued (chainLines tail)).text,
        (chainLines tail).length, (continued (chainLines tail)).cut⟩ := by
    rw [joined, comment, continues, length]
    rfl
  have read : chainCommands ((first ++ " && \\".toList).dropLast ++ (continued (chainLines tail)).text) =
      first :: reread tail := by
    rw [← text]
    exact commandsOnward (List.forall_mem_nil _) link _
  have whole : reread (first :: tail) = first :: reread tail := by
    simp [rereadCons first some, plain]
  refine ⟨⟨_, ⟨path, 1⟩⟩, ?_, read.trans whole.symm⟩
  rw [outlineLines line split some, logicalLinesCons path 0 _ _ (continuedSolid continues), joins,
    List.drop_length]
  rfl

theorem chainComment (path : Text) (line : '\n' ∉ command) (split : chainCommands command = first :: tail)
    (some : tail ≠ []) (comment : startsWith ['#'] first = true) {read : LogicalLine}
    (alone : logicalLines path 0 0 (Source.textLines ((Statement.command command).dump [])) = [read]) :
    chainCommands read.text ≠ chainCommands command := by
  intro same
  have link : IsLink first := (commandsLinks (split ▸ List.mem_cons_self ..)).1
  have marked : isComment (first ++ " && \\".toList) = true :=
    (onwardComment link (List.forall_mem_nil _)).trans comment
  have whole : joined (first ++ " && \\".toList) (chainLines tail) =
      ⟨first ++ " && \\".toList, 0, false⟩ := by
    rw [joined, marked]
    rfl
  have solid := continuedSolid (onwardContinued first)
  rw [outlineLines line split some, logicalLinesCons path 0 _ _ solid, whole] at alone
  obtain ⟨rfl, none⟩ := List.cons.inj alone
  -- The line that stands alone is cut into its command and the backslash, which nothing joined.
  have parts : first ++ " && \\".toList = first ++ ' ' :: '&' :: '&' :: [' ', '\\'] := by simp
  rw [split, parts, commandsCut link] at same
  obtain rfl : [['\\']] = tail := (List.cons.inj same).2
  rw [List.drop_zero, chainLines, logicalLinesCons path _ _ _ (by decide)] at none
  cases none

theorem textDelivers (files : FileTree) (path text : Text) (workDir? : Option Text) (s : LineStream)
    (lines : List LogicalLine) :
    (∃ told t events, startText files path text workDir? none s = ⟨told, t, .ok ()⟩ ∧
      t.Empties lines events) ↔ logicalLines path 0 0 (Source.textLines text) = lines := by
  obtain ⟨warned, scan⟩ := scanLogical path 0 (Source.textLines text)
  have holds : (Source.ofText path text).Holds path 0 (Source.textLines text) := ⟨rfl, rfl, rfl, rfl⟩
  obtain ⟨told, events, finds, empties, -⟩ := scanGives scan holds
    { empty (workDirFor files path workDir?) with sources := [.ofText path text] }
  rw [startTextApply, finds]
  constructor
  · rintro ⟨_, _, _, started, delivers⟩
    cases started
    exact (emptiesUnique empties delivers).1
  · rintro rfl
    exact ⟨told, _, events, rfl, empties⟩

def DeliversChain (files : FileTree) (path text : Text) (workDir? : Option Text) (s : LineStream)
    (commands : List Text) : Prop :=
  ∃ line, (∃ told t events, startText files path text workDir? none s = ⟨told, t, .ok ()⟩ ∧
    t.Empties [line] events) ∧ chainCommands line.text = commands

theorem chainRereads (files : FileTree) (path : Text) (workDir? : Option Text) (s : LineStream)
    (line : '\n' ∉ command) (several : 2 ≤ (chainCommands command).length) :
    DeliversChain files path ((Statement.command command).dump []) workDir? s (chainCommands command) ↔
      Rereadable (chainCommands command) := by
  obtain ⟨first, second, rest, split⟩ : ∃ first second rest,
      chainCommands command = first :: second :: rest := by
    match commands : chainCommands command with
    | [] => simp [commands] at several
    | [_] => simp [commands] at several
    | first :: second :: rest => exact ⟨first, second, rest, rfl⟩
  have some : second :: rest ≠ [] := List.cons_ne_nil second rest
  simp only [DeliversChain, textDelivers]
  cases comment : startsWith ['#'] first with
  | true =>
    constructor
    · rintro ⟨read, alone, same⟩
      exact absurd same (chainComment path line split some comment alone)
    · intro able
      have plain := able.plain first (split ▸ List.mem_cons_self ..)
      rw [comment] at plain
      cases plain
  | false =>
    obtain ⟨read, alone, commands⟩ := chainJoined path line split some comment
    rw [alone, ← rereadExact, split, ← commands]
    constructor
    · rintro ⟨_, same, kept⟩
      cases same
      exact kept
    · intro kept
      exact ⟨read, rfl, kept⟩

def gappedChain : Text := "a\\ && && b &&& &&".toList

theorem gappedChain.rejoined :
    '\n' ∉ gappedChain ∧ 2 ≤ (chainCommands gappedChain).length ∧ Rereadable (chainCommands gappedChain) ∧
    DeliversChain ⟨['/'], []⟩ "Makefile".toList ((Statement.command gappedChain).dump []) none (.empty [])
      (chainCommands gappedChain) := by
  have line : '\n' ∉ gappedChain := by decide
  have several : 2 ≤ (chainCommands gappedChain).length := by decide
  have able : Rereadable (chainCommands gappedChain) := ⟨by decide, by decide⟩
  exact ⟨line, several, able, (chainRereads _ _ none (.empty []) line several).mpr able⟩

example : (logicalLines "Makefile".toList 0 0 (Source.textLines
    ((Statement.command "a\\ && && b &&& &&".toList).dump []))).map LogicalLine.text =
      ["a\\ && && b && & &&".toList] := by
  decide

end MakeTree
