import MakeTree.Block.Run
import MakeTree.Proofs.Deferral
import MakeTree.Proofs.Grammar

/-! What one step makes of a block and of the lines before it, as a relation that knows of no
stream. Whatever a step does to a stream, it keeps the bargain with it, and if it succeeds it is
one of these moves. -/
namespace MakeTree
open Text MakeTree.Action LineStream

/-- `line` starts what has begun; the lines after it are then others if it names a file, which only
happens where files are `entered`. -/
inductive Begins (setting : Setting) (workDir : Text) (entered : Prop) (line : LogicalLine)
    (lines : List LogicalLine) : Begun → List LogicalLine → Prop where
  | here {begun} (other : isInclude line.text = false) (reads : begun? setting line = .ok begun) :
      Begins setting workDir entered line lines begun lines
  | inclusion {token source} (allowed : entered) (directive : isInclude line.text = true)
      (named : (words (trim line.text))[1]? = some token)
      (opened : setting.files.source? (Path.normalJoin workDir token) = some source) :
      Begins setting workDir entered line lines (.whole (.inclusion token))
        (source.remaining ++ lines)

def Block.stops : Block → Option (List Keyword)
  | .makefile _ => some []
  | .rule .. => none
  | .link .. => some [.endif, .otherwise]
  | .otherwise .. => some [.endif]

inductive Block.Moves (setting : Setting) (workDir : Text) (entered : Prop) :
    Block → List LogicalLine → Change → List LogicalLine → Prop where
  | finish {statements} :
      Moves setting workDir entered (.makefile statements) [] (.close statements) []
  | statement {block stops line lines begun rest} (inside : block.stops = some stops)
      (passes : line.Passes stops) (begins : Begins setting workDir entered line lines begun rest) :
      Moves setting workDir entered block (line :: lines) (begun.within block) rest
  | step {header directory recipe line lines step next}
      (tab : startsWith ['\t'] line.text = true) (solid : allBlank line.text = false)
      (reads : step? setting directory line = .ok (step, next)) :
      Moves setting workDir entered (.rule header directory recipe) (line :: lines)
        (.stay (.rule header next (recipe ++ [step]))) lines
  | blank {header directory recipe line lines} (tab : startsWith ['\t'] line.text = true)
      (blank : allBlank line.text = true) :
      Moves setting workDir entered (.rule header directory recipe) (line :: lines)
        (.stay (.rule header directory recipe)) lines
  | ended {header directory recipe lines}
      (other : ∀ line ∈ lines.head?, startsWith ['\t'] line.text = false) :
      Moves setting workDir entered (.rule header directory recipe) lines
        (.close [header.statement recipe]) lines
  | endLink {before current start line lines}
      (keyword : Keyword.ofLine? line.text = some .endif) :
      Moves setting workDir entered (.link before current start) (line :: lines)
        (.close [.conditional (Link.conditional before current none)]) lines
  | endOtherwise {before current start statements line lines}
      (keyword : Keyword.ofLine? line.text = some .endif) :
      Moves setting workDir entered (.otherwise before current start statements) (line :: lines)
        (.close [.conditional (Link.conditional before current (some statements))]) lines
  | chain {before current start line lines link}
      (keyword : Keyword.ofLine? line.text = some .otherwise) (opens : line.remainder.Opens link) :
      Moves setting workDir entered (.link before current start) (line :: lines)
        (.stay (.link (current :: before) link (some line.location))) lines
  | otherwise {before current start line lines}
      (keyword : Keyword.ofLine? line.text = some .otherwise)
      (bare : line.remainder.Bare) :
      Moves setting workDir entered (.link before current start) (line :: lines)
        (.stay (.otherwise before current start [])) lines
  | otherwiseWith {before current start line lines begun rest}
      (keyword : Keyword.ofLine? line.text = some .otherwise)
      (unconditional : line.remainder.Passes [.ifeq, .ifneq])
      (solid : ¬line.remainder.Bare)
      (begins : Begins setting workDir entered line.remainder lines begun rest) :
      Moves setting workDir entered (.link before current start) (line :: lines)
        (begun.within (.otherwise before current start [])) rest

theorem Begins.allow {setting : Setting} {workDir : Text} {entered wider : Prop}
    {line : LogicalLine} {lines rest : List LogicalLine} {begun : Begun} (wide : entered → wider)
    (begins : Begins setting workDir entered line lines begun rest) :
    Begins setting workDir wider line lines begun rest := by
  cases begins with
  | here other reads => exact .here other reads
  | inclusion allowed directive named opened =>
    exact .inclusion (wide allowed) directive named opened

theorem Block.Moves.allow {setting : Setting} {workDir : Text} {entered wider : Prop}
    {block : Block} {lines rest : List LogicalLine} {change : Change} (wide : entered → wider)
    (moves : block.Moves setting workDir entered lines change rest) :
    block.Moves setting workDir wider lines change rest := by
  cases moves with
  | finish => exact .finish
  | statement inside passes begins => exact .statement inside passes (begins.allow wide)
  | step tab solid reads => exact .step tab solid reads
  | blank tab blank => exact .blank tab blank
  | ended other => exact .ended other
  | endLink keyword => exact .endLink keyword
  | endOtherwise keyword => exact .endOtherwise keyword
  | chain keyword opens => exact .chain keyword opens
  | otherwise keyword bare => exact .otherwise keyword bare
  | otherwiseWith keyword unconditional solid begins =>
    exact .otherwiseWith keyword unconditional solid (begins.allow wide)

variable {setting : Setting} {s t : LineStream} {phase : Phase} {line : LogicalLine}
  {lines : List LogicalLine} {vars : Variables}

theorem readInclusionFollows {text : Text} (behind : pending t.sources = lines) :
    (readInclusion setting.files text).Follows setting.files (.waiting lines) t
      fun events statement u phase => Entered events ∧ Onward setting.files t u ∧ ∃ token source,
        (words text)[1]? = some token ∧ setting.files.source? (t.target token) = some source ∧
        statement = .inclusion token ∧ u.Shows (source.remaining ++ lines) ∧
        phase = .moving (source.remaining ++ lines) := by
  unfold readInclusion
  refine followsState ?_
  simp only
  split
  · rename_i first path extra split
    have named : (words text)[1]? = some path := by rw [split]; rfl
    refine followsRemark rfl ?_ fun events _ _ _ read => ⟨enteredRight read.1 [_], read.2⟩
    refine followsBind (enterFollows path behind) fun before _ u q read => ?_
    obtain ⟨entered, onward, source, opened, shows, rfl⟩ := read
    exact followsPure
      ⟨enteredLeft entered _, onward, path, source, named, opened, rfl, shows, rfl⟩
  · exact followsFail rfl

theorem beginInclusion {text : Text} (directive : isInclude text = true) :
    beginStatement setting vars text =
      (state >>= fun _ => readInclusion setting.files (trim text) >>=
        fun statement => pure (.whole statement, vars)) := by
  unfold beginStatement
  simp only [(inclusionKind text).mpr directive]

theorem beginFollows {handed : LogicalLine} (place : line.location = handed.location)
    (left : Left setting.files s handed lines (isInclude line.text) t phase) :
    (beginStatement setting vars line.text).Follows setting.files phase t fun events begun u phase =>
      Onward setting.files s u ∧ ∃ rest, phase = .moving rest ∧ u.Shows rest ∧
        Begins setting s.workDir (Entered events) line lines begun.1 rest := by
  have located : t.location = some line.location := by rw [left.location, place]
  -- The stream waits behind the line exactly if the line names a file.
  cases directive : isInclude line.text with
  | true =>
    obtain ⟨onward, _, rfl, behind⟩ := directive ▸ left
    rw [beginInclusion directive]
    refine followsState (followsBind (readInclusionFollows behind) fun before _ u q read => ?_)
    obtain ⟨entered, further, token, source, named, opened, rfl, shows, rfl⟩ := read
    rw [target, onward.workDir] at opened
    exact followsPure ⟨onward.trans further, _, rfl, shows,
      .inclusion (enteredLeft entered _) directive named opened⟩
  | false =>
    obtain ⟨onward, _, rfl, shows⟩ := directive ▸ left
    have other : LineKind.of (trim line.text) ≠ .inclusion := by
      simp [inclusionKind, directive]
    refine followsDetached (beginDetached other) located (fun _ => trivial) fun _ begun reads => ?_
    have begins := begunWith setting vars line
    rw [reads] at begins
    exact ⟨onward, _, rfl, shows, .here directive begins.symm⟩

def Stepped (setting : Setting) (s : LineStream) (block : Block) (lines : List LogicalLine)
    (events : List Event) (step : Change × Variables) (t : LineStream) (phase : Phase) : Prop :=
  Onward setting.files s t ∧ ∃ rest, phase = .moving rest ∧ t.Shows rest ∧
    block.Moves setting s.workDir (Entered events) lines step.1 rest

theorem steppedBehind {x : Action LineStream (Change × Variables)} {block : Block}
    (steps : x.Follows setting.files phase t (Stepped setting s block lines))
    (before : List Event) :
    x.Follows setting.files phase t fun events =>
      Stepped setting s block lines (before ++ events) := by
  refine followsWeaken steps fun events change u q stepped => ?_
  obtain ⟨onward, rest, moving, shows, moves⟩ := stepped
  exact ⟨onward, rest, moving, shows, moves.allow fun entered => enteredRight entered before⟩

theorem takeLineFollows (shows : s.Shows (line :: lines)) :
    takeLine.Follows setting.files (.moving (line :: lines)) s fun _ text t phase =>
      text = line.text ∧ Left setting.files s line lines (isInclude line.text) t phase := by
  refine followsState ?_
  rw [shows.next]
  exact takeFollows shows _

theorem statementFollows {block : Block} {stops : List Keyword} (shows : s.Shows (line :: lines))
    (inside : block.stops = some stops) (passes : line.Passes stops) :
    (takeLine >>= readWithin setting vars block).Follows setting.files
      (.moving (line :: lines)) s (Stepped setting s block (line :: lines)) := by
  refine followsBind (takeLineFollows shows) fun before text t q taken => ?_
  obtain ⟨rfl, left⟩ := taken
  refine followsBind (beginFollows rfl left) fun within begun u q begins => ?_
  obtain ⟨onward, rest, rfl, showsRest, begins⟩ := begins
  exact followsPure ⟨onward, rest, rfl, showsRest, .statement inside passes
    (begins.allow fun entered => enteredRight (enteredLeft entered _) before)⟩

theorem endFollows {block : Block} {statements : List Statement} (shows : s.Shows (line :: lines))
    (keyword : Keyword.ofLine? line.text = some .endif)
    (moves : block.Moves setting s.workDir False (line :: lines) (.close statements) lines) :
    (do let _ ← takeLine; return (.close statements, vars) :
      Action LineStream (Change × Variables)).Follows setting.files
      (.moving (line :: lines)) s (Stepped setting s block (line :: lines)) := by
  refine followsBind (takeLineFollows shows) fun before text t q taken => ?_
  obtain ⟨_, left⟩ := taken
  obtain ⟨onward, _, rfl, showsRest⟩ := keywordPlain keyword ▸ left
  exact followsPure ⟨onward, lines, rfl, showsRest, moves.allow False.elim⟩

theorem chainFollows {before : List Link} {current : Link} {start : Option Location}
    (keyword : Keyword.ofLine? line.text = some .otherwise)
    (conditional : Keyword.ofLine? line.remainder.text = some .ifeq ∨
      Keyword.ofLine? line.remainder.text = some .ifneq)
    (left : Left setting.files s line lines (isInclude line.remainder.text) t phase) :
    (do
      let (link, start) ← openLink line.remainder.text
      return (.stay (.link (current :: before) link start), vars) :
      Action LineStream (Change × Variables)).Follows setting.files phase t (Stepped setting s (.link before current start) (line :: lines)) := by
  have plain : isInclude line.remainder.text = false := conditional.elim keywordPlain keywordPlain
  obtain ⟨onward, located, rfl, showsRest⟩ := plain ▸ left
  have opening : (openLink line.remainder.text).Follows setting.files (.moving lines) t
      fun _ opened u q => u = t ∧ q = .moving lines ∧ line.remainder.Opens opened.1 ∧
        opened.2 = some line.location := by
    refine followsDetached (openLinkDetached _) located (fun _ => trivial) fun _ opened ok => ?_
    rw [openLinkApply] at ok
    split at ok
    · cases ok
    · cases ok
      exact ⟨rfl, rfl, ⟨conditional, by assumption, rfl⟩, rfl⟩
  refine followsBind opening fun _ opened u q result => ?_
  obtain ⟨link, place⟩ := opened
  obtain ⟨rfl, rfl, opens, rfl⟩ := result
  exact followsPure ⟨onward, lines, rfl, showsRest, .chain keyword opens⟩

theorem elseFollows {before : List Link} {current : Link} {start : Option Location}
    (shows : s.Shows (line :: lines)) (keyword : Keyword.ofLine? line.text = some .otherwise) :
    (readElse setting vars before current start line.remainder.text).Follows setting.files
      (.moving (line :: lines)) s
      (Stepped setting s (.link before current start) (line :: lines)) := by
  unfold readElse
  refine followsBind (takeFollows shows _) fun told text t q taken => ?_
  obtain ⟨_, left⟩ := taken
  split
  · rename_i conditional
    exact steppedBehind (chainFollows keyword (.inl conditional) left) told
  · rename_i conditional
    exact steppedBehind (chainFollows keyword (.inr conditional) left) told
  · rename_i notIfeq notIfneq
    simp only
    split
    · rename_i bare
      obtain ⟨onward, _, rfl, showsRest⟩ := barePlain bare ▸ left
      exact followsPure ⟨onward, lines, rfl, showsRest, .otherwise keyword bare⟩
    · rename_i solid
      have place : line.remainder.location = line.location := rfl
      refine followsBind (beginFollows place left) fun within begun u q begins => ?_
      obtain ⟨onward, rest, rfl, showsRest, begins⟩ := begins
      have unconditional : line.remainder.Passes [.ifeq, .ifneq] := by
        intro keyword found member
        rcases List.mem_pair.mp member with rfl | rfl
        · exact notIfeq found
        · exact notIfneq found
      exact followsPure ⟨onward, rest, rfl, showsRest, .otherwiseWith keyword unconditional
        solid (begins.allow fun entered => enteredRight (enteredLeft entered _) told)⟩

theorem readStepFollows {directory : Text} (located : t.location = some line.location) :
    (within directory (Recipe.readStep setting vars line.text t.location)).Follows setting.files
      (.moving lines) t fun _ read u q => u = t ∧ q = .moving lines ∧
        step? setting directory line = .ok (read.1.1, read.2) := by
  have stateless : (within directory (Recipe.readStep setting vars line.text t.location) :
      Action LineStream _).Stateless :=
    statelessWithin (Recipe.readStepQuiet setting vars line.text t.location) directory
  refine followsDetached (detachedStateless stateless) located (fun _ => trivial)
    fun _ read ok => ?_
  rw [located] at ok
  have stepped := stepWith setting vars directory line
  simp only [within, standing] at ok
  generalize Recipe.readStep setting vars line.text (some line.location) none directory = o
    at ok stepped
  obtain ⟨step, result, rfl⟩ := mapOk ok
  simp only [result] at stepped
  exact ⟨rfl, rfl, stepped.symm⟩

def takeStep (setting : Setting) (vars : Variables) (header : RuleHeader) (directory : Text)
    (recipe : List Statement) : Action LineStream (Change × Variables) := do
  let line ← LineStream.take false
  if allBlank line then return (.stay (.rule header directory recipe), vars)
  else
    let ((step, vars), directory) ← Action.within directory
      (Recipe.readStep setting vars line (← Action.state).location)
    return (.stay (.rule header directory (recipe ++ [step])), vars)

theorem ruleStep (setting : Setting) (vars : Variables) (header : RuleHeader) (directory : Text)
    (recipe : List Statement) :
    (Block.rule header directory recipe).step setting vars = do
      if startsWith ['\t'] (← LineStream.peek) then takeStep setting vars header directory recipe
      else return (.close [header.statement recipe], vars) := rfl

theorem recipeFollows {header : RuleHeader} {directory : Text} {recipe : List Statement}
    (shows : s.Shows (line :: lines)) (tab : startsWith ['\t'] line.text = true) :
    (takeStep setting vars header directory recipe).Follows setting.files
      (.moving (line :: lines)) s (Stepped setting s (.rule header directory recipe)
        (line :: lines)) := by
  refine followsBind (takeFollows shows false) fun before text t q taken => ?_
  obtain ⟨rfl, onward, located, moving, showsRest⟩ := taken
  cases (moving : q = .moving lines)
  by_cases blank : allBlank line.text = true
  · rw [if_pos blank]
    exact followsPure ⟨onward, lines, rfl, showsRest, .blank tab blank⟩
  · rw [if_neg blank]
    refine followsState (followsBind (readStepFollows located) fun _ read u q result => ?_)
    obtain ⟨⟨step, after⟩, next⟩ := read
    obtain ⟨rfl, rfl, reads⟩ := result
    exact followsPure ⟨onward, lines, rfl, showsRest, .step tab (by simpa using blank) reads⟩

theorem stepFollows (block : Block) (shows : s.Shows lines) :
    (block.step setting vars).Follows setting.files (.moving lines) s
      (Stepped setting s block lines) := by
  unfold Block.step
  cases block with
  | makefile statements =>
    refine followsBind atEndFollows fun first eof t q asked => ?_
    obtain ⟨rfl, rfl, rfl⟩ := asked
    rw [shows.eof]
    cases lines with
    | nil => exact followsPure ⟨.here, [], rfl, shows, .finish⟩
    | cons line rest =>
      exact steppedBehind (statementFollows shows rfl fun _ _ => List.not_mem_nil) first
  | rule header directory recipe =>
    refine followsBind peekFollows fun second text t q asked => ?_
    obtain ⟨rfl, rfl, rfl⟩ := asked
    rw [shows.next]
    cases lines with
    | nil => exact followsPure ⟨.here, [], rfl, shows, .ended (by simp)⟩
    | cons line rest =>
      split
      · rename_i tab
        exact steppedBehind (recipeFollows shows tab) second
      · rename_i other
        refine followsPure ⟨.here, line :: rest, rfl, shows, .ended fun first head => ?_⟩
        cases Option.some.inj head
        simpa using other
  | link before current start =>
    refine followsBind atEndFollows fun first eof t q asked => ?_
    obtain ⟨rfl, rfl, rfl⟩ := asked
    rw [shows.eof]
    cases lines with
    | nil => exact followsFail trivial
    | cons line rest =>
      refine followsBind peekFollows fun second text t q asked => ?_
      obtain ⟨rfl, rfl, rfl⟩ := asked
      have next : t.next = line.text := shows.next
      simp only [next, keywordTrim, ← List.append_assoc]
      refine steppedBehind ?_ (first ++ second)
      split
      · rename_i keyword
        exact endFollows shows keyword (.endLink keyword)
      · rename_i keyword
        exact elseFollows shows keyword
      · rename_i noEnd noElse
        refine statementFollows shows rfl fun keyword found member => ?_
        rcases List.mem_pair.mp member with rfl | rfl
        · exact noEnd found
        · exact noElse found
  | otherwise before current start statements =>
    refine followsBind atEndFollows fun first eof t q asked => ?_
    obtain ⟨rfl, rfl, rfl⟩ := asked
    rw [shows.eof]
    cases lines with
    | nil => exact followsFail trivial
    | cons line rest =>
      refine followsBind peekFollows fun second text t q asked => ?_
      obtain ⟨rfl, rfl, rfl⟩ := asked
      have next : t.next = line.text := shows.next
      simp only [next, keywordTrim, ← List.append_assoc]
      refine steppedBehind ?_ (first ++ second)
      split
      · rename_i keyword
        exact endFollows shows keyword (.endOtherwise keyword)
      · rename_i noEnd
        refine statementFollows shows rfl fun keyword found member => ?_
        cases List.mem_singleton.mp member
        exact noEnd found

end MakeTree
