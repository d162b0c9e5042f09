import MakeTree.Proofs.Derivation

/-! Logical lines with nothing in them. A physical line is passed over if it is blank, but whether
anything is left of it is only known once it has been joined: a backslash and what it takes in may
vanish, and then an empty line is delivered. -/
namespace MakeTree
open Text MakeTree.Action LineStream

def IsBackslash (line : Text) : Prop := ∃ blanks, allBlank blanks = true ∧ line = blanks ++ ['\\']

inductive Vanishes : List Text → Prop where
  | finish : Vanishes []
  | blank {line rest} (blank : allBlank line = true) : Vanishes (line :: rest)
  | comment {line rest} (comment : isComment line = true) (onward : Vanishes rest) :
      Vanishes (line :: rest)
  | backslash {line rest} (bare : IsBackslash line) (onward : Vanishes rest) :
      Vanishes (line :: rest)

theorem backslashContinued {line : Text} :
    IsBackslash line ↔ isContinued line = true ∧ allBlank line.dropLast = true := by
  constructor
  · rintro ⟨blanks, blank, rfl⟩
    exact ⟨by simp [isContinued, endsWithChar], by rw [List.dropLast_concat]; exact blank⟩
  · rintro ⟨ends, blank⟩
    have last : line.getLast? = some '\\' := by simpa [isContinued, endsWithChar] using ends
    obtain ⟨front, rfl⟩ := List.getLast?_eq_some_iff.mp last
    rw [List.dropLast_concat] at blank
    exact ⟨front, blank, rfl⟩

theorem backslashComment {line : Text} (bare : IsBackslash line) : isComment line = false := by
  obtain ⟨blanks, blank, rfl⟩ := bare
  have left : trimLeft (blanks ++ ['\\']) = ['\\'] :=
    List.dropWhile_append_of_pos (List.all_eq_true.mp blank)
  rw [isComment, left]
  rfl

theorem appendBlank (first second : Text) :
    allBlank (first ++ second) = (allBlank first && allBlank second) := List.all_append

theorem trimBlank (t : Text) : allBlank (trim t) = allBlank t := by
  obtain ⟨behind, blank, split⟩ := trimSplit t
  have whole : t.takeWhile isBlank ++ (trim t ++ behind) = t := by
    rw [← split]
    exact List.takeWhile_append_dropWhile
  have lead : allBlank (t.takeWhile isBlank) = true := List.all_takeWhile
  rw [← congrArg allBlank whole, appendBlank, appendBlank, lead, blank]
  simp

theorem continuedBlank (lines : List Text) :
    allBlank (continued lines).text = true ↔ Vanishes lines := by
  induction lines with
  | nil => exact ⟨fun _ => .finish, fun _ => rfl⟩
  | cons line rest ih =>
    simp only [continued]
    split
    · rename_i blank
      exact ⟨fun _ => .blank blank, fun _ => rfl⟩
    · rename_i solid
      split
      · rename_i comment
        rw [ih]
        refine ⟨.comment comment, fun vanishes => ?_⟩
        cases vanishes with
        | blank blank => exact absurd blank solid
        | comment _ onward => exact onward
        | backslash bare _ => rw [backslashComment bare] at comment; cases comment
      · rename_i noComment
        split
        · rename_i ends
          rw [trimBlank, appendBlank, Bool.and_eq_true, ih]
          constructor
          · rintro ⟨blank, onward⟩
            exact .backslash (backslashContinued.mpr ⟨ends, blank⟩) onward
          · intro vanishes
            cases vanishes with
            | blank blank => exact absurd blank solid
            | comment comment _ => exact absurd comment noComment
            | backslash bare onward => exact ⟨(backslashContinued.mp bare).2, onward⟩
        · rename_i whole
          rw [trimBlank]
          refine ⟨fun blank => absurd blank solid, fun vanishes => ?_⟩
          cases vanishes with
          | blank blank => exact blank
          | comment comment _ => exact absurd comment noComment
          | backslash bare _ => exact absurd (backslashContinued.mp bare).1 whole

theorem joinedBlank {line : Text} (solid : allBlank line = false) (rest : List Text) :
    allBlank (joined line rest).text = true ↔ IsBackslash line ∧ Vanishes rest := by
  unfold joined
  split
  · rename_i whole
    constructor
    · intro blank
      rw [solid] at blank
      cases blank
    intro hollow
    simp [backslashComment hollow.1, (backslashContinued.mp hollow.1).1] at whole
  · rename_i ends
    simp only [Bool.or_eq_true, Bool.not_eq_true', not_or, Bool.not_eq_false] at ends
    rw [appendBlank, Bool.and_eq_true, continuedBlank, backslashContinued]
    exact ⟨fun parts => ⟨⟨ends.2, parts.1⟩, parts.2⟩, fun parts => ⟨parts.1.2, parts.2⟩⟩

def Opened (files : FileTree) (origin : Origin) (source : Source) : Prop :=
  origin.source? files = some source ∨ ∃ path, files.source? path = some source

def Started (files : FileTree) (origin : Origin) (source : Source) : Prop :=
  ∃ fresh count, Opened files origin fresh ∧ source = fresh.past count

structure Ahead (files : FileTree) (origin : Origin) (s : LineStream) (line : Text)
    (rest : List Text) : Prop where
  next : s.next = (joined line rest).text
  solid : allBlank line = false
  stands : ∃ fresh count, Opened files origin fresh ∧ fresh.lines.drop count = line :: rest ∧
    s.nextLocation = some ⟨fresh.path, count + 1⟩

structure Traced (files : FileTree) (origin : Origin) (s : LineStream) : Prop where
  sources : ∀ source ∈ s.sources, Started files origin source
  ahead : s.eof = false → ∃ line rest, Ahead files origin s line rest

theorem openedNumber {files : FileTree} {origin : Origin} {source : Source}
    (opened : Opened files origin source) : source.lineNumber = 0 := by
  have file : ∀ path, files.source? path = some source → source.lineNumber = 0 := by
    intro path opened
    unfold FileTree.source? at opened
    split at opened <;> try contradiction
    cases Option.some.inj opened
    simp only [Source.ofFile, Source.ofBytes]
    split
    · rfl
    · split
      · rfl
      · rfl
  rcases opened with opened | ⟨path, opened⟩
  · cases origin with
    | file path => exact file path opened
    | text path content => cases Option.some.inj opened; rfl
  · exact file path opened

theorem foundTraced {files : FileTree} {origin : Origin} (s : LineStream) {sources : List Source}
    (started : ∀ source ∈ sources, Started files origin source) :
    Traced files origin (s.found sources) := by
  induction sources with
  | nil => exact ⟨by simp [found], fun more => by cases more⟩
  | cons source below ih =>
    have under := fun other member => started other (List.mem_cons_of_mem source member)
    obtain ⟨fresh, count, opened, rfl⟩ := started source (List.mem_cons_self ..)
    simp only [found]
    split
    · exact ih under
    · rename_i line rest lines
      -- The blank lines that are skipped only move the place in the source as it was opened.
      have solid := Source.atSolidHead lines
      unfold Source.atSolid at lines ⊢
      rw [Source.pastPast] at lines ⊢
      refine ⟨fun other member => ?_, fun _ =>
        ⟨line, rest, rfl, solid, fresh, _, opened, lines, ?_⟩⟩
      · rcases List.mem_cons.mp member with rfl | inside
        · rw [Source.pastPast, Source.pastPast]
          exact ⟨fresh, _, opened, rfl⟩
        · exact under other inside
      · simp [openedNumber opened]

def Reachable (files : FileTree) (origin : Origin) (workDir? : Option Text)
    (s : LineStream) : Prop :=
  ∃ events start, origin.start files workDir? none (.empty []) = ⟨events, start, .ok ()⟩ ∧
    Onward files start s

theorem onwardTraced {files : FileTree} {origin : Origin} {s t : LineStream}
    (traced : Traced files origin s) (onward : Onward files s t) : Traced files origin t := by
  induction onward with
  | here => exact traced
  | @taken u v deferred events line before ok ih =>
    cases deferred with
    | true =>
      rw [takeDeferred] at ok
      cases ok
      refine ⟨ih.sources, fun more => ?_⟩
      obtain ⟨line, rest, next, solid, stands⟩ := ih.ahead more
      exact ⟨line, rest, next, solid, stands⟩
    | false =>
      rw [(takeReturned ok).2]
      exact foundTraced _ ih.sources
  | @entered u v path events before ok ih =>
    obtain ⟨source, opened, rfl⟩ := enterReturned ok
    refine foundTraced u fun other member => ?_
    rcases List.mem_cons.mp member with rfl | inside
    · exact ⟨other, 0, .inr ⟨_, opened⟩, rfl⟩
    · exact ih.sources other inside

theorem reachableTraced {files : FileTree} {origin : Origin} {workDir? : Option Text}
    {s : LineStream} (reachable : Reachable files origin workDir? s) :
    Traced files origin s := by
  obtain ⟨events, start, begun, onward⟩ := reachable
  obtain ⟨source, opened, rfl⟩ := Origin.startReturned begun
  refine onwardTraced (foundTraced _ fun other member => ?_) onward
  cases List.mem_singleton.mp member
  exact ⟨source, 0, .inl opened, rfl⟩

theorem aheadHollow {files : FileTree} {origin : Origin} {workDir? : Option Text} {s : LineStream}
    (reachable : Reachable files origin workDir? s) (more : s.eof = false) :
    ∃ line rest, Ahead files origin s line rest ∧
      (allBlank s.next = true ↔ IsBackslash line ∧ Vanishes rest) := by
  obtain ⟨line, rest, ahead⟩ := (reachableTraced reachable).ahead more
  refine ⟨line, rest, ahead, ?_⟩
  rw [ahead.next]
  exact joinedBlank ahead.solid rest

mutual

def Statement.hasEmpty : Statement → Bool
  | .command text => text.isEmpty
  | .rule _ _ _ recipe _ => anyEmpty recipe
  | .elseBranch statements => anyEmpty statements
  | .conditional block => block.hasEmpty
  | .comment _ | .inclusion _ | .exported .. | .unexported _ | .cargo .. => false

def Conditional.hasEmpty : Conditional → Bool
  | .mk _ _ statements chained otherwise =>
    anyEmpty statements ||
    (match chained with
      | some last => last.hasEmpty
      | none => false) ||
    (match otherwise with
      | some statements => anyEmpty statements
      | none => false)

def anyEmpty : List Statement → Bool
  | [] => false
  | statement :: rest => statement.hasEmpty || anyEmpty rest

end

theorem anyEmptyAppend (first second : List Statement) :
    anyEmpty (first ++ second) = (anyEmpty first || anyEmpty second) := by
  induction first with
  | nil => rfl
  | cons statement rest ih => simp only [List.cons_append, anyEmpty, ih, Bool.or_assoc]

def Block.Clean : Block → Prop
  | .makefile statements => anyEmpty statements = false
  | .rule _ _ recipe => anyEmpty recipe = false
  | .link before current _ => ∀ link ∈ current :: before, anyEmpty link.statements = false
  | .otherwise before current _ statements =>
    (∀ link ∈ current :: before, anyEmpty link.statements = false) ∧ anyEmpty statements = false

def Change.Clean : Change → Prop
  | .stay block => block.Clean
  | .nest block inner => block.Clean ∧ inner.Clean
  | .close statements => anyEmpty statements = false

theorem addAllClean {block : Block} {added : List Statement} (clean : block.Clean)
    (new : anyEmpty added = false) : (block.addAll added).Clean := by
  cases block with
  | makefile statements => simpa [Block.addAll, Block.Clean, anyEmptyAppend, new] using clean
  | rule header directory recipe =>
    simpa [Block.addAll, Block.Clean, anyEmptyAppend, new] using clean
  | link before current start =>
    simpa [Block.addAll, Block.Clean, anyEmptyAppend, new] using clean
  | otherwise before current start statements =>
    simpa [Block.addAll, Block.Clean, anyEmptyAppend, new] using clean

theorem chainClean {before : List Link} {last : Conditional}
    (clean : ∀ link ∈ before, anyEmpty link.statements = false) (ends : last.hasEmpty = false) :
    (Link.wrap before last).hasEmpty = false := by
  induction before generalizing last with
  | nil => exact ends
  | cons link rest ih =>
    refine ih (fun other member => clean other (List.mem_cons_of_mem _ member)) ?_
    simp [Conditional.hasEmpty, clean link (List.mem_cons_self ..), ends]

theorem conditionalClean {before : List Link} {current : Link} {otherwise : Option (List Statement)}
    (clean : ∀ link ∈ current :: before, anyEmpty link.statements = false)
    (last : ∀ statements ∈ otherwise, anyEmpty statements = false) :
    anyEmpty [.conditional (Link.conditional before current otherwise)] = false := by
  have ends : (Conditional.mk current.condition current.expected current.statements none
      otherwise).hasEmpty = false := by
    cases otherwise with
    | none => simp [Conditional.hasEmpty, clean current (List.mem_cons_self ..)]
    | some statements =>
      simp [Conditional.hasEmpty, clean current (List.mem_cons_self ..), last statements rfl]
  have chain := chainClean (fun link member => clean link (List.mem_cons_of_mem _ member)) ends
  rw [anyEmpty, anyEmpty, Statement.hasEmpty, Bool.or_false, conditionalWrap]
  exact chain

namespace Action
variable {σ α β : Type}

def Gives (x : Action σ α) (holds : α → Prop) : Prop := ∀ s a, (x none s).result = .ok a → holds a

theorem givesPure {a : α} {holds : α → Prop} (here : holds a) :
    (pure a : Action σ α).Gives holds := by
  rintro _ _ ⟨⟩
  exact here

theorem givesFail (failure : Failure) (holds : α → Prop) :
    (fail failure : Action σ α).Gives holds := by
  rintro _ _ ⟨⟩

theorem givesBind {x : Action σ α} {f : α → Action σ β} {first : α → Prop} {holds : β → Prop}
    (before : x.Gives first) (rest : ∀ a, first a → (f a).Gives holds) : (x >>= f).Gives holds := by
  intro s b ok
  cases outcome : x none s with
  | mk events t result =>
    cases result with
    | error failure => rw [bindFailed outcome] at ok; cases ok
    | ok a =>
      rw [bindReturned outcome] at ok
      exact rest a (before s a (by rw [outcome])) t b ok

theorem givesAny (x : Action σ α) : x.Gives fun _ => True := fun _ _ _ => trivial

theorem givesIte {c : Prop} [Decidable c] {x y : Action σ α} {holds : α → Prop}
    (yes : c → x.Gives holds) (no : ¬c → y.Gives holds) : (if c then x else y).Gives holds := by
  split
  · exact yes ‹_›
  · exact no ‹_›

theorem givesWithin {τ : Type} {x : Action τ α} {holds : α → Prop} (inside : x.Gives holds)
    (inner : τ) : (within inner x : Action σ (α × τ)).Gives fun read => holds read.1 := by
  intro s read ok
  obtain ⟨a, result, rfl⟩ := mapOk ok
  exact inside inner a result

end Action

theorem readVariableClean {σ : Type} (vars : Variables) (line : Text) (location : Option Location) :
    (readVariable vars line location : Action σ _).Gives (·.1.hasEmpty = false) := by
  unfold readVariable
  refine givesIte (fun _ => givesFail _ _) fun _ => givesIte (fun _ => givesFail _ _) fun _ => ?_
  refine givesIte (fun _ => givesBind (givesAny _) fun _ _ => givesPure rfl) fun _ => ?_
  split
  · exact givesFail _ _
  · exact givesIte (fun _ => givesFail _ _) fun _ =>
      givesBind (givesAny _) fun _ _ => givesPure rfl

theorem readCargoClean (root : Text) {line : Text} (location : Option Location) (some : line ≠ []) :
    (Recipe.readCargo root line location).Gives (·.hasEmpty = false) := by
  have whole : Statement.hasEmpty (.command line) = false := by
    simpa [Statement.hasEmpty] using some
  unfold Recipe.readCargo
  split
  · exact givesBind (givesAny _) fun _ _ => givesPure whole
  · refine givesBind (givesAny _) fun manifest _ => ?_
    split
    · exact givesPure rfl
    · exact givesBind (givesAny _) fun _ _ => givesPure rfl

theorem readStepClean (setting : Setting) (vars : Variables) (line : Text)
    (location : Option Location) :
    (Recipe.readStep setting vars line location).Gives (·.1.hasEmpty = false) := by
  unfold Recipe.readStep
  simp only
  split
  · exact givesPure rfl
  · split
    · exact readVariableClean _ _ _
    · exact readVariableClean _ _ _
    · split
      · exact givesFail _ _
      · rename_i word rest found
        have some : trim line ≠ [] := by
          intro none
          rw [none] at found
          cases found
        have whole : Statement.hasEmpty (.command (trim line)) = false := by
          simpa [Statement.hasEmpty] using some
        refine givesIte (fun _ => givesBind (readCargoClean _ _ some) fun _ clean =>
          givesPure clean) fun _ => ?_
        split
        · split
          · exact givesBind (givesAny _) fun _ _ => givesPure whole
          · exact givesBind (givesAny _) fun _ _ => givesPure whole
        · exact givesPure whole

def Begun.Clean : Begun → Prop
  | .nothing => True
  | .whole statement => statement.hasEmpty = false
  | .opened block => block.Clean

theorem withinClean {begun : Begun} {block : Block} (new : begun.Clean) (clean : block.Clean) :
    (begun.within block).Clean := by
  cases begun with
  | nothing => exact clean
  | whole statement =>
    have one : statement.hasEmpty = false := new
    exact addAllClean clean (by simp [anyEmpty, one])
  | opened inner => exact ⟨clean, new⟩

theorem openRuleClean (setting : Setting) (vars : Variables) (line : Text) :
    (openRule setting vars line).Gives (·.1.Clean) := by
  unfold openRule
  refine givesBind (givesAny _) fun s _ => ?_
  simp only
  split
  · exact givesFail _ _
  · refine givesIte (fun _ => givesFail _ _) fun _ => givesIte (fun _ => givesPure rfl) fun _ => ?_
    refine givesBind (givesWithin (readStepClean _ _ _ _) _) fun read step => givesPure ?_
    simpa [Block.Clean, anyEmpty] using step

theorem openLinkClean (line : Text) : (openLink line).Gives fun opened =>
    anyEmpty opened.1.statements = false := by
  unfold openLink
  refine givesBind (givesAny _) fun s _ => ?_
  exact givesIte (fun _ => givesFail _ _) fun _ => givesPure rfl

theorem readInclusionClean (files : FileTree) (line : Text) :
    (readInclusion files line).Gives (·.hasEmpty = false) := by
  unfold readInclusion
  refine givesBind (givesAny _) fun s _ => ?_
  simp only
  split
  · have entering : ∀ path, (do
        enter files path
        return .inclusion path : Action LineStream Statement).Gives (·.hasEmpty = false) :=
      fun _ => givesBind (givesAny _) fun _ _ => givesPure rfl
    exact givesIte (fun _ => givesBind (givesAny _) fun _ _ => entering _) fun _ => entering _
  · exact givesFail _ _

theorem beginClean (setting : Setting) (vars : Variables) {line : Text}
    (solid : allBlank line = false) : (beginStatement setting vars line).Gives (·.1.Clean) := by
  have some : trim line ≠ [] := by
    intro none
    rw [← trimBlank, none] at solid
    cases solid
  unfold beginStatement
  refine givesBind (givesAny _) fun s _ => ?_
  simp only
  split
  · exact givesPure rfl
  · exact givesBind (readVariableClean _ _ _) fun _ clean => givesPure clean
  · exact givesBind (givesAny _) fun _ _ => givesPure trivial
  · exact givesBind (readInclusionClean _ _) fun _ clean => givesPure clean
  · refine givesBind (openLinkClean _) fun opened clean => givesPure fun link member => ?_
    cases List.mem_singleton.mp member
    exact clean
  · exact givesFail _ _
  · exact givesBind (openRuleClean _ _ _) fun _ clean => givesPure clean
  · refine givesBind (givesAny _) fun _ _ => givesPure ?_
    simpa [Begun.Clean, Statement.hasEmpty] using some

theorem beginsClean {setting : Setting} {workDir : Text} {entered : Prop} {line : LogicalLine}
    {lines rest : List LogicalLine} {begun : Begun} (solid : allBlank line.text = false)
    (begins : Begins setting workDir entered line lines begun rest) : begun.Clean := by
  cases begins with
  | here other reads =>
    obtain ⟨read, result, rfl⟩ := mapOk reads
    exact beginClean setting _ solid _ _ result
  | inclusion allowed directive named opened => exact rfl

theorem remainderSolid {line : LogicalLine} (solid : ¬line.remainder.Bare) :
    allBlank line.remainder.text = false := by
  unfold LogicalLine.Bare at solid
  cases text : line.remainder.text with
  | nil => exact absurd (.inl text) solid
  | cons c rest => simp [allBlank, trimLeftHead text]

theorem movesClean {setting : Setting} {workDir : Text} {entered : Prop} {block : Block}
    {lines rest : List LogicalLine} {change : Change}
    (moves : block.Moves setting workDir entered lines change rest)
    (solid : ∀ line ∈ lines.head?, allBlank line.text = false) (clean : block.Clean) :
    change.Clean := by
  cases moves with
  | finish => exact clean
  | statement inside passes begins => exact withinClean (beginsClean (solid _ rfl) begins) clean
  | step tab solid reads =>
    obtain ⟨step, result, same⟩ := mapOk reads
    cases same
    have new := readStepClean _ _ _ _ _ _ result
    have recipe : anyEmpty _ = false := clean
    simp [Change.Clean, Block.Clean, anyEmptyAppend, anyEmpty, new, recipe]
  | blank tab blank => exact clean
  | ended other =>
    have recipe : anyEmpty _ = false := clean
    simp [Change.Clean, RuleHeader.statement, anyEmpty, Statement.hasEmpty, recipe]
  | endLink keyword => exact conditionalClean clean (by simp)
  | endOtherwise keyword =>
    refine conditionalClean clean.1 fun statements same => ?_
    cases same
    exact clean.2
  | chain keyword opens =>
    intro link member
    rcases List.mem_cons.mp member with rfl | inside
    · rw [opens.link]
      rfl
    · exact clean link inside
  | otherwise keyword bare => exact ⟨clean, rfl⟩
  | otherwiseWith keyword unconditional some begins =>
    exact withinClean (beginsClean (remainderSolid some) begins) ⟨clean, rfl⟩

def NeverBlank (files : FileTree) (s : LineStream) : Prop :=
  ∀ t, Onward files s t → t.eof = false → allBlank t.next = false

theorem runClean {setting : Setting} (fuel : Nat) {vars : Variables} {block : Block}
    {outer : List Block} {s : LineStream} {lines : List LogicalLine} (shows : s.Shows lines)
    (solid : NeverBlank setting.files s) (clean : ∀ started ∈ block :: outer, started.Clean) :
    (block.run setting fuel vars outer).Follows setting.files (.moving lines) s
      fun _ read _ _ => ∀ out ∈ read, anyEmpty out.1 = false := by
  induction fuel generalizing vars block outer s lines with
  | zero => exact followsPure fun _ none => nomatch none
  | succ fuel ih =>
    rw [Block.run]
    refine followsBind (stepFollows block shows) fun before read t q stepped => ?_
    obtain ⟨change, vars⟩ := read
    obtain ⟨onward, rest, rfl, showsRest, moves⟩ := stepped
    have later : NeverBlank setting.files t := fun u further => solid u (onward.trans further)
    have first : ∀ line ∈ lines.head?, allBlank line.text = false := by
      intro line head
      obtain ⟨tail, rfl⟩ := List.head?_eq_some_iff.mp head
      have here := solid s .here shows.eof
      rw [shows.next] at here
      exact here
    have changed := movesClean moves first (clean block (List.mem_cons_self ..))
    have around := fun other member => clean other (List.mem_cons_of_mem block member)
    cases change with
    | stay next =>
      refine ih showsRest later fun other member => ?_
      rcases List.mem_cons.mp member with rfl | inside
      · exact changed
      · exact around other inside
    | nest next inner =>
      refine ih showsRest later fun other member => ?_
      rcases List.mem_cons.mp member with rfl | inside
      · exact changed.2
      · rcases List.mem_cons.mp inside with rfl | inside
        · exact changed.1
        · exact around other inside
    | close statements =>
      cases outer with
      | nil =>
        refine followsPure fun out same => ?_
        cases Option.some.inj same
        exact changed
      | cons enclosing outer =>
        refine ih showsRest later fun other member => ?_
        rcases List.mem_cons.mp member with rfl | inside
        · exact addAllClean (around enclosing (List.mem_cons_self ..)) changed
        · exact around other (List.mem_cons_of_mem _ inside)

theorem readClean {files : FileTree} {workDir? : Option Text} {fuel : Nat} {origin : Origin}
    (solid : ∀ s, Reachable files (origin.resolved files) workDir? s → s.eof = false →
      allBlank s.next = false)
    {makefile : Makefile} (ok : (origin.read files workDir? fuel).result = .ok (some makefile)) :
    anyEmpty makefile.statements = false := by
  obtain ⟨events, t, outcome, result⟩ := Origin.readReturned ok
  obtain ⟨source, _, same⟩ := Origin.startReturned outcome
  have shows := foundShows (empty ((origin.resolved files).workDir files workDir?)) [source]
  rw [← same] at shows
  have later : NeverBlank (origin.setting files).files t :=
    fun u onward => solid u ⟨events, t, outcome, onward⟩
  have fresh : ∀ started ∈ [Block.makefile []], started.Clean := by
    intro started member
    cases List.mem_singleton.mp member
    exact rfl
  obtain ⟨reached, _, after⟩ := @runClean (origin.setting files) fuel .empty _ _ _ _ shows later fresh
  rw [result] at after
  exact after _ rfl

theorem tabTaken {setting : Setting} {vars after : Variables} {header : RuleHeader} {directory : Text}
    {recipe statements : List Statement} {s : LineStream}
    (ok : ((Block.rule header directory recipe).step setting vars none s).result =
      .ok (.close statements, after)) : startsWith ['\t'] s.next = false := by
  rw [Bool.eq_false_iff]
  intro tab
  have peeked : peek none s = ⟨[.peeked], s, .ok s.next⟩ := rfl
  rw [ruleStep, bindReturned peeked, Outcome.behindResult, if_pos tab] at ok
  have stays : (takeStep setting vars header directory recipe).Gives
      fun read => ∀ given, read.1 ≠ .close given := by
    refine givesBind (givesAny _) fun line _ => givesIte (fun _ => givesPure (by simp)) fun _ => ?_
    exact givesBind (givesAny _) fun _ _ => givesBind (givesAny _) fun _ _ => givesPure (by simp)
  exact stays s _ ok statements rfl

/-- A line ahead of a stream is blank exactly if it comes of a lone backslash whose continuation
vanishes. Where that never happens, no command that is read is empty and no recipe ends at a blank
line. -/
theorem hollowLines (files : FileTree) (workDir? : Option Text) (fuel : Nat) (origin : Origin) :
    (∀ s, Reachable files origin workDir? s → s.eof = false → ∃ line rest,
      Ahead files origin s line rest ∧
        (allBlank s.next = true ↔ IsBackslash line ∧ Vanishes rest)) ∧
    ((∀ s, Reachable files (origin.resolved files) workDir? s → s.eof = false →
        ∀ line rest, Ahead files (origin.resolved files) s line rest →
          ¬(IsBackslash line ∧ Vanishes rest)) →
      (∀ makefile, (origin.read files workDir? fuel).result = .ok (some makefile) →
        anyEmpty makefile.statements = false) ∧
      ∀ s, Reachable files (origin.resolved files) workDir? s →
        ∀ setting vars header directory recipe statements after,
          ((Block.rule header directory recipe).step setting vars none s).result =
              .ok (.close statements, after) →
            s.eof = true ∨ allBlank s.next = false ∧ startsWith ['\t'] s.next = false) := by
  refine ⟨fun s reachable more => aheadHollow reachable more, fun never => ?_⟩
  have solid : ∀ s, Reachable files (origin.resolved files) workDir? s → s.eof = false →
      allBlank s.next = false := by
    intro s reachable more
    obtain ⟨line, rest, ahead, hollow⟩ := aheadHollow reachable more
    rw [Bool.eq_false_iff]
    exact fun blank => never s reachable more line rest ahead (hollow.mp blank)
  refine ⟨fun makefile ok => readClean solid ok, fun s reachable setting vars header directory
    recipe statements after ok => ?_⟩
  cases more : s.eof with
  | true => exact .inl rfl
  | false =>
    exact .inr ⟨solid s reachable more, tabTaken ok⟩

/-- A backslash alone is delivered as an empty line and read as an empty command, and behind a rule
it ends the recipe. -/
theorem loneBackslash :
    (¬∀ s, Reachable ⟨['/'], []⟩ (.text "Makefile".toList ['\\']) none s → s.eof = false →
      allBlank s.next = false) ∧
    ((Origin.text "Makefile".toList ['\\']).read ⟨['/'], []⟩ none 2).result.map
        (Option.map (·.statements)) =
      .ok (some [.command []]) ∧
    ((Origin.text "Makefile".toList "a:\n\\\n\n\tb".toList).read ⟨['/'], []⟩ none 5).result.map
        (Option.map (·.statements)) =
      .ok (some [.rule ['a'] [] (some "Makefile".toList) [] false, .command [], .command ['b']]) := by
  refine ⟨fun never => ?_, by decide +kernel, by decide +kernel⟩
  obtain ⟨events, begun⟩ := @Origin.startSound (.text "Makefile".toList ['\\']) ⟨['/'], []⟩ _
    rfl rfl none (.empty [])
  have solid := never _ ⟨events, _, begun, .here⟩ (by decide +kernel)
  exact absurd solid (by decide +kernel)

end MakeTree
