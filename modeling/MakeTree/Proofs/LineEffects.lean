import MakeTree.Proofs.Handover
import MakeTree.Proofs.RecipeSteps

/-! What a line does where it stands. Of the blocks around a line only their kinds matter, and of the
line only which variable it changes, which file it names and which blocks it opens or closes. A step
of a block does what the line ahead says, or leaves the line to the block around it. -/
namespace MakeTree
open Text MakeTree.Action LineStream

inductive Scope where
  | rule
  | link
  | otherwise
  deriving DecidableEq, Repr

structure LineEffect where
  change : Option Event
  included : Option Text
  scopes : List Scope
  deriving DecidableEq, Repr

def assignment (line : Text) : Event :=
  .assigned (cutAt '=' line).1 (trim ((cutAt '=' line).2.getD []))

def assignLine (vars : Variables) (line : Text) : Action LineStream Variables := do
  let (raw, value) := cutAt '=' line
  let (_, vars) ← assign vars raw (trim (value.getD []))
  return vars

theorem assignLineApply (vars : Variables) (line : Text) (s : LineStream) :
    ∃ told, assignLine vars line none s =
      ⟨[.told told, assignment line], s, .ok (Event.apply vars (assignment line))⟩ := ⟨_, rfl⟩

def statementEffect (scopes : List Scope) (line : Text) : LineEffect :=
  let line := trim line
  match LineKind.of line with
  | .variable => ⟨variableChange line, none, scopes⟩
  | .assignment => ⟨some (assignment line), none, scopes⟩
  | .inclusion => ⟨none, (words line)[1]?, scopes⟩
  | .conditional => ⟨none, none, .link :: scopes⟩
  | .rule => ⟨stepChange (inlineStep line), none, .rule :: scopes⟩
  | .comment | .stray _ | .command => ⟨none, none, scopes⟩

def elseEffect (outer : List Scope) (rest : Text) : LineEffect :=
  match Keyword.ofLine? rest with
  | some .ifeq | some .ifneq => ⟨none, none, .link :: outer⟩
  | _ =>
    if rest = [] ∨ startsWith ['#'] rest then ⟨none, none, .otherwise :: outer⟩
    else statementEffect (.otherwise :: outer) rest

def lineEffect : List Scope → Text → LineEffect
  | [], line => statementEffect [] line
  | .rule :: outer, line =>
    if startsWith ['\t'] line then ⟨stepChange line, none, .rule :: outer⟩
    else lineEffect outer line
  | .link :: outer, line => match Keyword.ofLine? line with
    | some .endif => ⟨none, none, outer⟩
    | some .otherwise => elseEffect outer (afterFirstWord (trim line))
    | _ => statementEffect (.link :: outer) line
  | .otherwise :: outer, line => match Keyword.ofLine? line with
    | some .endif => ⟨none, none, outer⟩
    | _ => statementEffect (.otherwise :: outer) line

theorem effectShape {motive : LineEffect → Prop} (scopes : List Scope) (line : Text)
    (plain : ∀ scopes, motive ⟨none, none, scopes⟩)
    (step : ∀ scopes, motive ⟨stepChange line, none, scopes⟩)
    (statement : ∀ scopes, motive (statementEffect scopes line))
    (remainder : Keyword.ofLine? line = some .otherwise → ∀ scopes,
      motive (statementEffect scopes (afterFirstWord (trim line)))) :
    motive (lineEffect scopes line) := by
  induction scopes with
  | nil => exact statement []
  | cons scope outer ih =>
    cases scope with
    | rule =>
      unfold lineEffect
      split
      · exact step _
      · exact ih
    | link =>
      unfold lineEffect
      split
      · exact plain _
      · rename_i keyword
        unfold elseEffect
        split
        · exact plain _
        · exact plain _
        · split
          · exact plain _
          · exact remainder keyword _
      · exact statement _
    | otherwise =>
      unfold lineEffect
      split
      · exact plain _
      · exact statement _

def Block.scopes : Block → List Scope
  | .makefile _ => []
  | .rule .. => [.rule]
  | .link .. => [.link]
  | .otherwise .. => [.otherwise]

def Change.scopes (outer : List Scope) : Change → List Scope
  | .stay block => block.scopes ++ outer
  | .nest block inner => inner.scopes ++ (block.scopes ++ outer)
  | .close _ => outer

def Begun.scopes : Begun → List Scope
  | .nothing | .whole _ => []
  | .opened block => block.scopes

@[simp] theorem addAllScopes (block : Block) (added : List Statement) :
    (block.addAll added).scopes = block.scopes := by
  cases block <;> rfl

theorem withinScopes (begun : Begun) (block : Block) (outer : List Scope) :
    (begun.within block).scopes outer = begun.scopes ++ (block.scopes ++ outer) := by
  cases begun <;> simp [Begun.within, Change.scopes, Begun.scopes]

def LineEffect.deeds (workDir : Text) (effect : LineEffect) : List Event :=
  effect.change.toList ++ (effect.included.map fun token =>
    Event.included (Path.normalJoin workDir token)).toList

theorem beginLeaves (setting : Setting) (vars : Variables) {line : Text} (scopes : List Scope) (s : LineStream)
    (plain : isInclude line = false) :
    (beginStatement setting vars line).Leaves s fun done read t =>
      t = s ∧ done = (statementEffect scopes line).change.toList ∧
      (statementEffect scopes line).included = none ∧
      (statementEffect scopes line).scopes = read.1.scopes ++ scopes := by
  unfold beginStatement statementEffect
  refine leavesState ?_
  simp only
  cases kind : LineKind.of (trim line) with
  | comment => exact leavesPure ⟨rfl, rfl, rfl, rfl⟩
  | «variable» =>
    refine leavesBind (readVariableLeaves _ _ _ _) fun done _ t changed => ?_
    exact leavesPure ⟨changed.2.1, by simp [changed.1], rfl, rfl⟩
  | assignment =>
    refine leavesBind (assignLeaves _ _ _ _) fun done _ t assigned => ?_
    exact leavesPure ⟨assigned.2, by simp [assigned.1, assignment], rfl, rfl⟩
  | inclusion =>
    rw [(inclusionKind line).mp kind] at plain
    cases plain
  | conditional =>
    refine leavesBind (openLinkLeaves _ _) fun done _ t silent => ?_
    exact leavesPure ⟨silent.2, by simp [silent.1], rfl, rfl⟩
  | stray keyword => exact leavesFail
  | rule =>
    refine leavesBind (openRuleLeaves _ _ _ _) fun done read t changed => ?_
    obtain ⟨change, same, header, directory, recipe, opened, _⟩ := changed
    exact leavesPure ⟨same, by simp [change, trimTrim], rfl, by simp [opened, Begun.scopes, Block.scopes]⟩
  | command => exact leavesTell rfl (leavesPure ⟨rfl, rfl, rfl, rfl⟩)

inductive LineStream.Past (files : FileTree) (s : LineStream) : Option Text → LineStream → Prop where
  | taken : Past files s none (s.atNext.found s.sources)
  | entered {token source} (opened : files.source? (s.target token) = some source) :
      Past files s (some token) (s.atNext.found (source :: s.sources))

theorem beginEnters (setting : Setting) (vars : Variables) {line : Text} (s : LineStream)
    (directive : isInclude line = true) :
    (beginStatement setting vars line).Leaves s fun done read t =>
      read.1.scopes = [] ∧ ∃ token source, (words (trim line))[1]? = some token ∧
        setting.files.source? (s.target token) = some source ∧
        t = s.found (source :: s.sources) ∧ done = [.included (s.target token)] := by
  rw [beginInclusion directive]
  refine leavesState (leavesBind (readInclusionLeaves _ _ s) fun done _ t read => leavesPure ?_)
  rw [List.append_nil]
  exact ⟨rfl, read⟩

structure Handled (files : FileTree) (outer : List Scope) (s : LineStream) (effect : LineEffect)
    (done : List Event) (read : Change × Variables) (t : LineStream) : Prop where
  deeds : done = effect.deeds s.workDir
  scopes : effect.scopes = read.1.scopes outer
  past : s.Past files effect.included t

theorem beginHandles (setting : Setting) (vars : Variables) (block : Block) (outer : List Scope) (line : Text)
    (s : LineStream) :
    (readWithin setting vars block line).Leaves
      (if isInclude line then s.atNext else s.atNext.found s.sources)
      (Handled setting.files outer s (statementEffect (block.scopes ++ outer) line)) := by
  cases plain : isInclude line with
  | false =>
    refine leavesBind (beginLeaves setting vars (block.scopes ++ outer) _ plain) fun done begun t read => ?_
    obtain ⟨rfl, rfl, none, scopes⟩ := read
    refine leavesPure ⟨?_, ?_, ?_⟩
    · simp [LineEffect.deeds, none]
    · rw [scopes, withinScopes]
    · rw [none]
      exact .taken
  | true =>
    have kind := (inclusionKind line).mpr plain
    refine leavesBind (beginEnters setting vars s.atNext plain) fun done begun t read => ?_
    obtain ⟨none, token, source, named, opened, rfl, rfl⟩ := read
    have effect : statementEffect (block.scopes ++ outer) line =
        ⟨Option.none, some token, block.scopes ++ outer⟩ := by
      simp [statementEffect, kind, named]
    rw [effect]
    exact leavesPure ⟨rfl, by rw [withinScopes, none]; rfl, .entered opened⟩

theorem takeHandles (setting : Setting) (vars : Variables) (block : Block) (outer : List Scope)
    (s : LineStream) :
    (takeLine >>= readWithin setting vars block).Leaves s
      (Handled setting.files outer s (statementEffect (block.scopes ++ outer) s.next)) := by
  refine leavesBind (leavesState (takeLeaves _ s)) fun done line t taken => ?_
  obtain ⟨rfl, rfl, rfl⟩ := taken
  exact beginHandles setting vars block outer s.next s

theorem elsePlain {rest : Text} (outer : List Scope) (noIfeq : Keyword.ofLine? rest ≠ some .ifeq)
    (noIfneq : Keyword.ofLine? rest ≠ some .ifneq) :
    elseEffect outer rest =
      if rest = [] ∨ startsWith ['#'] rest then ⟨none, none, .otherwise :: outer⟩
      else statementEffect (.otherwise :: outer) rest := by
  unfold elseEffect
  split
  · contradiction
  · contradiction
  · rfl

theorem chainHandles (setting : Setting) (vars : Variables) (before : List Link) (current : Link)
    (outer : List Scope) {rest : Text} (s : LineStream)
    (keyword : Keyword.ofLine? rest = some .ifeq ∨ Keyword.ofLine? rest = some .ifneq) :
    (do
      let (link, start) ← openLink rest
      return (.stay (.link (current :: before) link start), vars) :
        Action LineStream (Change × Variables)).Leaves
        (if isInclude rest then s.atNext else s.atNext.found s.sources)
        (Handled setting.files outer s (elseEffect outer rest)) := by
  have effect : elseEffect outer rest = ⟨none, none, .link :: outer⟩ := by
    rcases keyword with keyword | keyword
    · simp [elseEffect, keyword]
    · simp [elseEffect, keyword]
  rw [effect, keyword.elim keywordPlain keywordPlain]
  refine leavesBind (openLinkLeaves rest _) fun done _ t silent => ?_
  obtain ⟨rfl, rfl⟩ := silent
  exact leavesPure ⟨rfl, rfl, .taken⟩

theorem elseHandles (setting : Setting) (vars : Variables) (before : List Link) (current : Link)
    (start : Option Location) (outer : List Scope) (rest : Text) (s : LineStream) :
    (readElse setting vars before current start rest).Leaves s
      (Handled setting.files outer s (elseEffect outer rest)) := by
  unfold readElse
  refine leavesBind (takeLeaves _ s) fun done _ t taken => ?_
  obtain ⟨rfl, _, rfl⟩ := taken
  split
  · rename_i keyword
    exact chainHandles setting vars before current outer s (.inl keyword)
  · rename_i keyword
    exact chainHandles setting vars before current outer s (.inr keyword)
  · rename_i noIfeq noIfneq
    rw [elsePlain outer noIfeq noIfneq]
    simp only
    split
    · rename_i bare
      have plain : isInclude rest = false := by
        rcases bare with rfl | comment
        · rfl
        · exact hashInclude comment
      rw [plain]
      exact leavesPure ⟨rfl, rfl, .taken⟩
    · exact beginHandles setting vars (.otherwise before current start []) outer rest s

inductive Block.Does (files : FileTree) (outer : List Scope) (s : LineStream) (block : Block) :
    List Event → Change × Variables → LineStream → Prop where
  | leaves {statements vars}
      (unread : s.eof = true ∨
        lineEffect (block.scopes ++ outer) s.next = lineEffect outer s.next) :
      Does files outer s block [] (.close statements, vars) s
  | handles {done read t} (more : s.eof = false)
      (handled : Handled files outer s (lineEffect (block.scopes ++ outer) s.next) done read t) :
      Does files outer s block done read t

theorem linkPlain {line : Text} (outer : List Scope)
    (noEnd : Keyword.ofLine? line ≠ some .endif) (noElse : Keyword.ofLine? line ≠ some .otherwise) :
    lineEffect (.link :: outer) line = statementEffect (.link :: outer) line := by
  unfold lineEffect
  split
  · contradiction
  · contradiction
  · rfl

theorem otherwisePlain {line : Text} (outer : List Scope)
    (noEnd : Keyword.ofLine? line ≠ some .endif) :
    lineEffect (.otherwise :: outer) line = statementEffect (.otherwise :: outer) line := by
  unfold lineEffect
  split
  · contradiction
  · rfl

theorem endHandles (setting : Setting) (vars : Variables) (outer : List Scope)
    (statements : List Statement) {s : LineStream} (keyword : Keyword.ofLine? s.next = some .endif) :
    (do let _ ← takeLine; return (.close statements, vars) :
      Action LineStream (Change × Variables)).Leaves s
      (Handled setting.files outer s ⟨none, none, outer⟩) := by
  refine leavesBind (leavesState (takeLeaves _ s)) fun done _ t taken => ?_
  obtain ⟨rfl, _, rfl⟩ := taken
  rw [keywordPlain keyword]
  exact leavesPure ⟨rfl, rfl, .taken⟩

theorem recipeHandles (setting : Setting) (vars : Variables) (header : RuleHeader)
    (directory : Text) (recipe : List Statement) (outer : List Scope) {s : LineStream}
    (tab : startsWith ['\t'] s.next = true) :
    (takeStep setting vars header directory recipe).Leaves s
      (Handled setting.files outer s (lineEffect (.rule :: outer) s.next)) := by
  simp only [lineEffect, tab, if_true]
  refine leavesBind (takeLeaves false s) fun done _ t taken => ?_
  obtain ⟨rfl, rfl, rfl⟩ := taken
  refine leavesIte (fun blank => leavesPure ?_) fun _ => leavesState ?_
  · rw [stepChangeBlank blank]
    exact ⟨rfl, rfl, .taken⟩
  · refine leavesBind (Recipe.stepWithin setting _ _ _ _ _) fun done read t taken => ?_
    obtain ⟨rfl, rfl, _⟩ := taken
    exact leavesPure ⟨by simp [LineEffect.deeds], rfl, .taken⟩

theorem stepDoes (setting : Setting) (vars : Variables) (block : Block) (outer : List Scope) {s : LineStream}
    (ended : s.eof = true → s.next = []) (top : block.isMakefile = true → outer = []) :
    (block.step setting vars).Leaves s
      (block.Does setting.files outer s) := by
  unfold Block.step
  cases block with
  | makefile statements =>
    refine leavesAtEnd (leavesIte (fun eof => leavesPure (.leaves (.inl eof))) fun more => ?_)
    cases top rfl
    exact leavesWeaken (takeHandles setting vars (.makefile statements) [] s) fun _ _ _ handled =>
      .handles (by simpa using more) handled
  | rule header directory recipe =>
    refine leavesPeek (leavesIte (fun tab => ?_) fun other => leavesPure (.leaves (.inr ?_)))
    · have more : s.eof = false := by
        rw [Bool.eq_false_iff]
        intro eof
        rw [ended eof] at tab
        cases tab
      refine leavesWeaken (recipeHandles setting vars header directory recipe outer tab) fun _ _ _ handled => ?_
      exact .handles more handled
    · simp [Block.scopes, lineEffect, other]
  | link before current start =>
    refine leavesAtEnd (leavesIte (fun _ => leavesFail) fun more => ?_)
    refine leavesPeek ?_
    simp only [keywordTrim]
    refine leavesWeaken ?_ fun _ _ _ handled => Block.Does.handles (by simpa using more) handled
    change Leaves _ s (Handled _ outer s (lineEffect (.link :: outer) s.next))
    split
    · rename_i keyword
      rw [lineEffect, keyword]
      exact endHandles setting vars outer _ keyword
    · rename_i keyword
      rw [lineEffect, keyword]
      exact elseHandles setting vars before current start outer _ s
    · rename_i noEnd noElse
      rw [linkPlain outer noEnd noElse]
      exact takeHandles setting vars (.link before current start) outer s
  | otherwise before current start statements =>
    refine leavesAtEnd (leavesIte (fun _ => leavesFail) fun more => ?_)
    refine leavesPeek ?_
    simp only [keywordTrim]
    refine leavesWeaken ?_ fun _ _ _ handled => Block.Does.handles (by simpa using more) handled
    change Leaves _ s (Handled _ outer s (lineEffect (.otherwise :: outer) s.next))
    split
    · rename_i keyword
      rw [lineEffect, keyword]
      exact endHandles setting vars outer _ keyword
    · rename_i noEnd
      rw [otherwisePlain outer noEnd]
      exact takeHandles setting vars (.otherwise before current start statements) outer s

end MakeTree
