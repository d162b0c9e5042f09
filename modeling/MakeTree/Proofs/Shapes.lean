import MakeTree.Proofs.HollowLines
import MakeTree.Proofs.Manifests
import MakeTree.Proofs.TidyTexts

/-! The shape of what is read. Every statement of a makefile has one of a few forms, at any depth, and
its texts are cut out of one line each: no blank stands around them, and the marks they were cut at
are not in them. -/
namespace MakeTree
open Text MakeTree.Action LineStream

inductive Statement.IsSimple : Statement → Prop where
  | comment {text} (tidy : IsTidy text) : IsSimple (.comment text)
  | exported {name value} (named : IsTidy name) (unassigned : '=' ∉ name) (tidy : IsTidy value) :
      IsSimple (.exported name value)
  | unexported {name} (named : IsTidy name) : IsSimple (.unexported name)

inductive Statement.IsStep : Statement → Prop where
  | simple {statement} (simple : IsSimple statement) : IsStep statement
  | command {text} (some : text ≠ []) (tidy : IsTidy text) : IsStep (.command text)
  -- A subcommand that was not recognized has no word.
  | cargo {subcommand directory command token others} (tidy : IsTidy command)
      (split : words command = Recipe.cargoWord :: token :: others)
      (known : subcommand.word? = some token) : IsStep (.cargo subcommand directory command)

structure RuleHeader.Shaped (header : RuleHeader) : Prop where
  some : header.name ≠ []
  tidy : IsTidy header.name
  whole : ':' ∉ header.name
  words : ∀ word ∈ header.prerequisites, IsWord word

mutual

inductive Statement.Shaped : Statement → Prop where
  | simple {statement} (simple : statement.IsSimple) : Statement.Shaped statement
  | inclusion {path} (word : IsWord path) : Statement.Shaped (.inclusion path)
  | command {text} (tidy : IsTidy text) : Statement.Shaped (.command text)
  | rule {name prerequisites definedIn recipe doubleColon}
      (headed : RuleHeader.Shaped ⟨name, prerequisites, definedIn, doubleColon⟩)
      (steps : ∀ step ∈ recipe, Statement.IsStep step) :
      Statement.Shaped (.rule name prerequisites definedIn recipe doubleColon)
  | conditional {block} (shaped : Conditional.Shaped block) : Statement.Shaped (.conditional block)

inductive Conditional.Shaped : Conditional → Prop where
  | mk {condition expected statements chained otherwise} (some : condition ≠ [])
      (tidy : IsTidy condition) (body : ∀ statement ∈ statements, Statement.Shaped statement)
      (single : chained = none ∨ otherwise = none)
      (chain : ∀ last ∈ chained, Conditional.Shaped last)
      (branch : ∀ inside ∈ otherwise, ∀ statement ∈ inside, Statement.Shaped statement) :
      Conditional.Shaped (.mk condition expected statements chained otherwise)

end

def AllShaped (statements : List Statement) : Prop := ∀ statement ∈ statements, statement.Shaped

structure Link.Shaped (link : Link) : Prop where
  some : link.condition ≠ []
  tidy : IsTidy link.condition
  body : AllShaped link.statements

def Block.Shaped : Block → Prop
  | .makefile statements => AllShaped statements
  | .rule header _ recipe => header.Shaped ∧ ∀ step ∈ recipe, step.IsStep
  | .link before current _ => ∀ link ∈ current :: before, link.Shaped
  | .otherwise before current _ statements =>
    (∀ link ∈ current :: before, link.Shaped) ∧ AllShaped statements

def Begun.Shaped : Begun → Prop
  | .nothing => True
  | .whole statement => statement.Shaped
  | .opened block => block.Shaped

def Block.WaitsShaped (block : Block) : Prop := block.Shaped ∧ block.stops ≠ none

def Change.Shaped : Change → Prop
  | .stay block => block.Shaped
  | .nest block inner => block.WaitsShaped ∧ inner.Shaped
  | .close statements => AllShaped statements

theorem trimClear {text : Text} (clear : '\n' ∉ text) : '\n' ∉ trim text :=
  fun member => clear (trimSubset text member)

theorem argumentTidy {text : Text} (clear : '\n' ∉ text) : IsTidy (trim (afterFirstWord text)) :=
  trimTidy fun member => clear (afterFirstWordSubset text member)

theorem commentTidy {text : Text} (clear : '\n' ∉ text) : IsTidy (commentText text) :=
  trimTidy fun member => clear ((List.drop_suffix 1 text).subset member)

/-! What one line is read as. -/

theorem assignNamed {σ : Type} (vars : Variables) (raw value : Text) :
    (assign vars raw value : Action σ _).Gives fun out => out.1 = (LeftSide.ofText raw).name := by
  rintro s out ⟨⟩
  rfl

theorem readVariableSimple {σ : Type} (vars : Variables) {text : Text} (location : Option Location)
    (clear : '\n' ∉ text) :
    (readVariable vars text location : Action σ _).Gives fun read => read.1.IsSimple := by
  have argument := argumentTidy clear
  unfold readVariable
  refine givesIte (fun _ => givesFail _ _) fun _ => givesIte (fun _ => givesFail _ _) fun _ => ?_
  refine givesIte (fun _ => givesBind (givesAny _) fun _ _ => givesPure (.unexported argument))
    fun _ => ?_
  split
  · exact givesFail _ _
  · rename_i raw value split
    refine givesIte (fun _ => givesFail _ _) fun _ =>
      givesBind (assignNamed _ _ _) fun out same => givesPure ?_
    obtain ⟨unassigned, inside⟩ := cutBefore '=' (trim (afterFirstWord text))
    have after := cutAfter (congrArg Prod.snd split)
    rw [split] at unassigned inside
    have named := leftSideTidy fun member => argument.line (inside member)
    rw [← same] at named
    exact .exported named.1 (fun member => unassigned (named.2 member))
      (trimTidy fun member => argument.line (after member))

theorem ofWordKnown {token : Text} (recognized : Subcommand.ofWord token ≠ .unrecognized) :
    (Subcommand.ofWord token).word? = some token := by
  unfold Subcommand.ofWord at recognized ⊢
  cases found : List.find? (fun known => decide (known.word? = some token))
      [Subcommand.build, .clean, .run, .update] with
  | none =>
    rw [found] at recognized
    exact absurd rfl recognized
  | some known => simpa using List.find?_some found

theorem readCargoStep {root line : Text} (location : Option Location) {rest : List Text}
    (tidy : IsTidy line) (split : words line = Recipe.cargoWord :: rest) :
    (Recipe.readCargo root line location).Gives Statement.IsStep := by
  have some : line ≠ [] := by
    rintro rfl
    cases split
  unfold Recipe.readCargo
  generalize read : (words line)[1]?.elim Subcommand.unrecognized Subcommand.ofWord = subcommand
  split
  · exact givesBind (givesAny _) fun _ _ => givesPure (.command some tidy)
  · rename_i recognized
    rw [split] at read
    cases rest with
    | nil => exact absurd read.symm recognized
    | cons token others =>
      cases (read : Subcommand.ofWord token = subcommand)
      have known := ofWordKnown recognized
      refine givesBind (givesAny _) fun manifest _ => ?_
      split
      · exact givesPure (.cargo tidy split known)
      · exact givesBind (givesAny _) fun _ _ => givesPure (.cargo tidy split known)

theorem readStepShaped (setting : Setting) (vars : Variables) {text : Text}
    (location : Option Location) (clear : '\n' ∉ text) :
    (Recipe.readStep setting vars text location).Gives fun read => read.1.IsStep := by
  have line := trimClear clear
  have directive : (readVariable vars (trim text) location : Action Text _).Gives (·.1.IsStep) :=
    fun s a ok => .simple (readVariableSimple vars location line s a ok)
  unfold Recipe.readStep
  simp only
  split
  · exact givesPure (.simple (.comment (commentTidy line)))
  · split
    · exact directive
    · exact directive
    · split
      · exact givesFail _ _
      · rename_i word rest found
        have some : trim text ≠ [] := by
          intro none
          rw [none] at found
          cases found
        have whole := Statement.IsStep.command some (trimTidy clear)
        refine givesIte (fun cargo => givesBind (readCargoStep _ (trimTidy clear) (cargo ▸ found))
          fun _ step => givesPure step) fun _ => ?_
        split
        · split
          · exact givesBind (givesAny _) fun _ _ => givesPure whole
          · exact givesBind (givesAny _) fun _ _ => givesPure whole
        · exact givesPure whole

theorem openRuleShaped (setting : Setting) (vars : Variables) {text : Text} (clear : '\n' ∉ text) :
    (openRule setting vars text).Gives fun opened => opened.1.Shaped := by
  unfold openRule
  refine givesBind (givesAny _) fun s _ => ?_
  simp only
  split
  · exact givesFail _ _
  · rename_i raw rest split
    obtain ⟨whole, inside⟩ := cutBefore ':' (trim text)
    have after := cutAfter (congrArg Prod.snd split)
    rw [split] at whole inside
    refine givesIte (fun _ => givesFail _ _) fun some => ?_
    generalize parts : cutAt ';' (if startsWith [':'] rest then rest.drop 1 else rest) = cut
    obtain ⟨prerequisites, command⟩ := cut
    simp only
    have headed : ∀ definedIn doubleColon,
        (RuleHeader.mk (trim raw) (words prerequisites) definedIn doubleColon).Shaped :=
      fun _ _ => ⟨some, trimTidy fun member => trimClear clear (inside member),
        fun member => whole (trimSubset raw member), wordsSolid prerequisites⟩
    refine givesIte (fun _ => givesPure ⟨headed _ _, by simp⟩) fun _ => ?_
    refine givesBind (givesWithin (readStepShaped _ _ _ ?_) _) fun read step =>
      givesPure ⟨headed _ _, by simpa using step⟩
    intro member
    cases command with
    | none => cases member
    | some command =>
      have found := cutAfter (congrArg Prod.snd parts) member
      refine trimClear clear (after ?_)
      split at found
      · exact (List.drop_suffix 1 rest).subset found
      · exact found

variable {setting : Setting} {block : Block}

theorem openLinkShaped {text : Text} (clear : '\n' ∉ text) :
    (openLink text).Gives fun opened => opened.1.Shaped := by
  unfold openLink
  refine givesBind (givesAny _) fun s _ => givesIte (fun _ => givesFail _ _) fun some => ?_
  exact givesPure ⟨some, argumentTidy clear, by simp [AllShaped]⟩

theorem readInclusionShaped (files : FileTree) (text : Text) :
    (readInclusion files text).Gives (·.Shaped) := by
  unfold readInclusion
  refine givesBind (givesAny _) fun s _ => ?_
  simp only
  split
  · rename_i first path extra split
    have word : IsWord path := wordsSolid text path (by simp [split])
    have entering : (enter files path >>= fun _ => pure (.inclusion path) :
        Action LineStream Statement).Gives (·.Shaped) :=
      givesBind (givesAny _) fun _ _ => givesPure (.inclusion word)
    exact givesIte (fun _ => givesBind (givesAny _) fun _ _ => entering) fun _ => entering
  · exact givesFail _ _

theorem beginShaped (setting : Setting) (vars : Variables) {text : Text} (clear : '\n' ∉ text) :
    (beginStatement setting vars text).Gives fun read => read.1.Shaped := by
  have line := trimClear clear
  unfold beginStatement
  refine givesBind (givesAny _) fun s _ => ?_
  simp only
  split
  · exact givesPure (.simple (.comment (commentTidy line)))
  · exact givesBind (readVariableSimple _ _ line) fun _ simple => givesPure (.simple simple)
  · exact givesBind (givesAny _) fun _ _ => givesPure trivial
  · exact givesBind (readInclusionShaped _ _) fun _ shaped => givesPure shaped
  · refine givesBind (openLinkShaped line) fun opened shaped => givesPure fun link member => ?_
    cases List.mem_singleton.mp member
    exact shaped
  · exact givesFail _ _
  · exact givesBind (openRuleShaped _ _ line) fun _ shaped => givesPure shaped
  · exact givesBind (givesAny _) fun _ _ => givesPure (.command (trimTidy clear))

theorem beginsShaped {workDir : Text} {entered : Prop} {line : LogicalLine}
    {lines rest : List LogicalLine} {begun : Begun} (clear : '\n' ∉ line.text)
    (begins : Begins setting workDir entered line lines begun rest) : begun.Shaped := by
  cases begins with
  | here other reads =>
    obtain ⟨_, result, rfl⟩ := mapOk reads
    exact beginShaped setting .empty clear _ _ result
  | inclusion allowed directive named opened =>
    exact .inclusion (wordsSolid _ _ (List.mem_of_getElem? named))

/-! What blocks keep of the statements in them. -/

theorem allShapedAppend {first second : List Statement} :
    AllShaped (first ++ second) ↔ AllShaped first ∧ AllShaped second := List.forall_mem_append

theorem allShapedOne {statement : Statement} (shaped : statement.Shaped) :
    AllShaped [statement] := List.forall_mem_singleton.mpr shaped

theorem addAllShaped {added : List Statement} (waits : block.WaitsShaped)
    (new : AllShaped added) : (block.addAll added).WaitsShaped := by
  obtain ⟨shaped, inside⟩ := waits
  cases block with
  | makefile statements => exact ⟨allShapedAppend.mpr ⟨shaped, new⟩, inside⟩
  | rule header directory recipe => exact absurd rfl inside
  | link before current start =>
    obtain ⟨here, others⟩ := List.forall_mem_cons.mp shaped
    exact ⟨List.forall_mem_cons.mpr
      ⟨{ here with body := allShapedAppend.mpr ⟨here.body, new⟩ }, others⟩, inside⟩
  | otherwise before current start statements =>
    exact ⟨⟨shaped.1, allShapedAppend.mpr ⟨shaped.2, new⟩⟩, inside⟩

theorem withinShaped {begun : Begun} (new : begun.Shaped) (waits : block.WaitsShaped) :
    (begun.within block).Shaped := by
  cases begun with
  | nothing => exact waits.1
  | whole statement => exact (addAllShaped waits (allShapedOne new)).1
  | opened inner => exact ⟨waits, new⟩

theorem wrapShaped {before : List Link} {last : Conditional}
    (links : ∀ link ∈ before, link.Shaped) (ends : last.Shaped) :
    (Link.wrap before last).Shaped := by
  induction before generalizing last with
  | nil => exact ends
  | cons link rest ih =>
    obtain ⟨here, others⟩ := List.forall_mem_cons.mp links
    exact ih others (.mk here.some here.tidy here.body (.inr rfl) (by simpa using ends) (by simp))

theorem conditionalShaped {before : List Link} {current : Link}
    {otherwise : Option (List Statement)} (links : ∀ link ∈ current :: before, link.Shaped)
    (branch : ∀ inside ∈ otherwise, AllShaped inside) :
    AllShaped [.conditional (Link.conditional before current otherwise)] := by
  obtain ⟨here, others⟩ := List.forall_mem_cons.mp links
  rw [conditionalWrap]
  exact allShapedOne (.conditional (wrapShaped others
    (.mk here.some here.tidy here.body (.inl rfl) (by simp) branch)))

theorem remainderClear {line : LogicalLine} (clear : '\n' ∉ line.text) :
    '\n' ∉ line.remainder.text :=
  fun member => trimClear clear (afterFirstWordSubset (trim line.text) member)

theorem movesShaped {workDir : Text} {entered : Prop} {lines rest : List LogicalLine}
    {change : Change} (moves : block.Moves setting workDir entered lines change rest)
    (clear : ∀ line ∈ lines, '\n' ∉ line.text) (shaped : block.Shaped) : change.Shaped := by
  cases moves with
  | finish => exact shaped
  | statement inside passes begins =>
    exact withinShaped (beginsShaped (clear _ (List.mem_cons_self ..)) begins)
      ⟨shaped, by simp [inside]⟩
  | step tab solid reads =>
    obtain ⟨step, result, same⟩ := mapOk reads
    cases same
    have new := readStepShaped _ _ _ (clear _ (List.mem_cons_self ..)) _ _ result
    exact ⟨shaped.1, List.forall_mem_append.mpr ⟨shaped.2, List.forall_mem_singleton.mpr new⟩⟩
  | blank tab blank => exact shaped
  | ended other => exact allShapedOne (.rule shaped.1 shaped.2)
  | endLink keyword => exact conditionalShaped shaped (by simp)
  | endOtherwise keyword =>
    refine conditionalShaped shaped.1 fun inside same => ?_
    cases same
    exact shaped.2
  | chain keyword opens =>
    have remainder := remainderClear (clear _ (List.mem_cons_self ..))
    refine List.forall_mem_cons.mpr ⟨?_, shaped⟩
    rw [opens.link]
    exact ⟨opens.condition, argumentTidy remainder, by simp [AllShaped]⟩
  | otherwise keyword bare => exact ⟨shaped, by simp [AllShaped]⟩
  | otherwiseWith keyword unconditional solid begins =>
    have remainder := remainderClear (clear _ (List.mem_cons_self ..))
    exact withinShaped (beginsShaped remainder begins)
      ⟨⟨shaped, by simp [AllShaped]⟩, by simp [Block.stops]⟩

theorem beginsClear {workDir : Text} {entered : Prop} {line : LogicalLine}
    {lines rest : List LogicalLine} {begun : Begun} (clear : ∀ line ∈ lines, '\n' ∉ line.text)
    (begins : Begins setting workDir entered line lines begun rest) :
    ∀ line ∈ rest, '\n' ∉ line.text := by
  cases begins with
  | here other reads => exact clear
  | inclusion allowed directive named opened =>
    exact List.forall_mem_append.mpr ⟨fileClear opened, clear⟩

theorem movesClear {workDir : Text} {entered : Prop} {lines rest : List LogicalLine}
    {change : Change} (moves : block.Moves setting workDir entered lines change rest)
    (clear : ∀ line ∈ lines, '\n' ∉ line.text) : ∀ line ∈ rest, '\n' ∉ line.text := by
  cases moves with
  | finish | ended other => exact clear
  | statement inside passes begins => exact beginsClear (List.forall_mem_cons.mp clear).2 begins
  | otherwiseWith keyword unconditional solid begins =>
    exact beginsClear (List.forall_mem_cons.mp clear).2 begins
  | step | blank | endLink | endOtherwise | chain | otherwise =>
    exact (List.forall_mem_cons.mp clear).2

theorem runsShaped {workDir : Text} {entered : Prop} {outer : List Block}
    {lines : List LogicalLine} {statements : List Statement}
    (runs : block.Runs setting workDir entered outer lines statements)
    (clear : ∀ line ∈ lines, '\n' ∉ line.text) (shaped : block.Shaped)
    (around : ∀ waiting ∈ outer, waiting.WaitsShaped) : AllShaped statements := by
  induction runs with
  | stay moves _ ih => exact ih (movesClear moves clear) (movesShaped moves clear shaped) around
  | nest moves _ ih =>
    obtain ⟨waits, inner⟩ := movesShaped moves clear shaped
    exact ih (movesClear moves clear) inner (List.forall_mem_cons.mpr ⟨waits, around⟩)
  | close moves _ ih =>
    obtain ⟨waits, others⟩ := List.forall_mem_cons.mp around
    have again := addAllShaped waits (movesShaped moves clear shaped)
    exact ih (movesClear moves clear) again.1 others
  | finish moves => exact movesShaped moves clear shaped

theorem pendingClear (files : FileTree) (origin : Origin) :
    ∀ line ∈ origin.pending files, '\n' ∉ line.text := by
  unfold Origin.pending
  cases opened : (origin.resolved files).source? files with
  | none => simp
  | some source => exact originClear opened

/-- Every statement that is read has one of the forms a statement can have, and so have the
statements in it. -/
theorem statementsShaped (files : FileTree) (workDir? : Option Text) (origin : Origin)
    (fuel : Nat) {makefile : Makefile}
    (ok : (origin.read files workDir? fuel).result = .ok (some makefile)) :
    ∀ statement ∈ makefile.statements, statement.Shaped :=
  runsShaped (readStatements ok) (pendingClear files origin) (by simp [Block.Shaped, AllShaped])
    (by simp)

def mixedStatements : FileTree where
  workingDirectory := "/r".toList
  entries := [(["r".toList], .directory),
    (["r".toList, "i".toList], .file (encodeUtf8 "unexport U \n".toList))]

namespace mixedStatements

def origin : Origin := .text "Makefile".toList (joinWith ['\n'] (List.map String.toList
  ["#  top", "include i", "ifeq x ", "t u: d e ; cargo build x", "\t# step", "\tcargo frob \\",
    "  x", "\texport B += c", "else ifneq y", "run", "else", "z :: ", "endif"]))

def statements : List Statement :=
  [.comment "top".toList, .inclusion "i".toList, .unexported "U".toList,
   .conditional (.mk "x".toList true
    [.rule "t u".toList ["d".toList, "e".toList] (some "Makefile".toList)
      [.cargo .build none "cargo build x".toList, .comment "step".toList,
       .command "cargo frob x".toList, .exported "B".toList "c".toList] false]
    (some (.mk "y".toList false [.command "run".toList] none
      (some [.rule "z".toList [] (some "Makefile".toList) [] true]))) none)]

theorem shaped : ∃ makefile, (origin.read mixedStatements none 24).result = .ok (some makefile) ∧
    makefile.statements = statements ∧ ∀ statement ∈ statements, statement.Shaped := by
  have reads : (origin.read mixedStatements none 24).result.map (·.map (·.statements)) =
      .ok (some statements) := by
    decide +kernel
  obtain ⟨read, ok, found⟩ := mapOk reads
  obtain ⟨makefile, rfl, same⟩ := Option.map_eq_some_iff.mp found
  exact ⟨makefile, ok, same, same ▸ statementsShaped mixedStatements none origin 24 ok⟩

end mixedStatements
end MakeTree
