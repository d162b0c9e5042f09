import MakeTree.Proofs.Derivation
import MakeTree.Proofs.Includes

/-! The parser accepts what the grammar does, and nothing else. Where no source has a fault in it, a
step makes any move there is to make; so a derivation leads a run to its end, in no more than two steps
for each line. -/
namespace MakeTree
open Text MakeTree.Action LineStream

namespace Action
variable {α β : Type}

def Returns (x : Action LineStream α) (s : LineStream) (post : α → LineStream → Prop) : Prop :=
  ∃ events t a, x none s = ⟨events, t, .ok a⟩ ∧ ¬Entered events ∧ post a t

theorem enteredEither {first second : List Event} (entered : Entered (first ++ second)) :
    Entered first ∨ Entered second := by
  obtain ⟨path, member⟩ := entered
  rcases List.mem_append.mp member with left | right
  · exact .inl ⟨path, left⟩
  · exact .inr ⟨path, right⟩

theorem idleNotEntered {events : List Event} (idle : Idle events) : ¬Entered events := by
  rintro ⟨path, member⟩
  cases List.all_eq_true.mp idle _ member

theorem returnsPure {a : α} {s : LineStream} {post : α → LineStream → Prop} (holds : post a s) :
    (pure a : Action LineStream α).Returns s post := ⟨[], s, a, rfl, idleNotEntered idleNil, holds⟩

theorem returnsBind {x : Action LineStream α} {f : α → Action LineStream β} {s : LineStream}
    {middle : α → LineStream → Prop} {post : β → LineStream → Prop} (first : x.Returns s middle)
    (rest : ∀ a t, middle a t → (f a).Returns t post) : (x >>= f).Returns s post := by
  obtain ⟨before, t, a, outcome, outside, holds⟩ := first
  obtain ⟨after, u, b, outcome', outside', holds'⟩ := rest a t holds
  refine ⟨before ++ after, u, b, ?_, fun entered =>
    (enteredEither entered).elim outside outside', holds'⟩
  rw [bindReturned outcome, outcome']
  rfl

theorem returnsState {f : LineStream → Action LineStream β} {s : LineStream}
    {post : β → LineStream → Prop} (rest : (f s).Returns s post) :
    (state >>= f).Returns s post := by
  unfold Returns
  rw [bindSilent (stateApply none s)]
  exact rest

theorem returnsDetached {x : Action LineStream α} {s : LineStream} {location : Location} {a : α}
    (detached : x.Detached) (located : s.location = some location)
    (ok : (x none (LineStream.standing location)).result = .ok a) :
    x.Returns s fun b t => b = a ∧ t = s := by
  obtain ⟨events, idle, outcome⟩ := detachedApply detached located
  exact ⟨events, s, a, by rw [outcome, ok], idleNotEntered idle, rfl, rfl⟩

end Action

structure LineStream.Ready (s : LineStream) (lines : List LogicalLine) : Prop where
  shows : s.Shows lines
  sound : s.Sound

variable {setting : Setting} {workDir : Text} {vars : Variables} {block : Block} {s : LineStream}
  {line : LogicalLine} {lines after : List LogicalLine} {change : Change}

theorem peekReturns (s : LineStream) : peek.Returns s fun text t => text = s.next ∧ t = s :=
  ⟨[.peeked], s, _, rfl, by simp [Entered], rfl, rfl⟩

theorem atEndReturns (ready : s.Ready lines) :
    atEnd.Returns s fun eof t => eof = lines.isEmpty ∧ t = s := by
  refine ⟨[.peeked], s, _, rfl, by simp [Entered], ?_, rfl⟩
  exact ready.shows.eof

theorem takeReturns (ready : s.Ready (line :: lines)) : (take false).Returns s
    fun text t => text = line.text ∧ t.Ready lines ∧ t.location = some line.location := by
  obtain ⟨events, t, outcome, shows, sound, location, _⟩ := taken ready.shows ready.sound
  refine ⟨events, t, _, outcome, ?_, rfl, ⟨shows, sound⟩, location⟩
  obtain ⟨told, messages, same⟩ := takeEvents s
  rw [outcome] at same
  change events = _ at same
  rintro ⟨path, member⟩
  rw [same] at member
  rcases List.mem_cons.mp member with took | inside
  · cases took
  · obtain ⟨message, told⟩ := messages _ inside
    cases told

theorem takeLineReturns (ready : s.Ready (line :: lines)) (plain : isInclude line.text = false) :
    takeLine.Returns s fun text t =>
      text = line.text ∧ t.Ready lines ∧ t.location = some line.location := by
  refine returnsState ?_
  rw [ready.shows.next]
  change (take (isInclude line.text)).Returns s _
  rw [plain]
  exact takeReturns ready

theorem beginReturns {begun : Begun} {t : LineStream} (plain : isInclude line.text = false)
    (located : t.location = some line.location) (reads : begun? setting line = .ok begun) :
    (beginStatement setting vars line.text).Returns t fun read u => read.1 = begun ∧ u = t := by
  have other : LineKind.of (trim line.text) ≠ .inclusion := by
    simp [inclusionKind, plain]
  rw [← begunWith setting vars line] at reads
  obtain ⟨read, ok, rfl⟩ := mapOk reads
  obtain ⟨events, u, given, outcome, outside, rfl, rfl⟩ :=
    returnsDetached (beginDetached other) located ok
  exact ⟨events, u, given, outcome, outside, rfl, rfl⟩

def Comes (change : Change) (lines : List LogicalLine) (read : Change × Variables) (t : LineStream) :
    Prop := read.1 = change ∧ t.Ready lines

theorem withinReturns {begun : Begun} {t : LineStream} (plain : isInclude line.text = false)
    (located : t.location = some line.location) (reads : begun? setting line = .ok begun)
    (ready : t.Ready lines) :
    (readWithin setting vars block line.text).Returns t (Comes (begun.within block) lines) := by
  refine returnsBind (beginReturns plain located reads) fun read u same => ?_
  obtain ⟨rfl, rfl⟩ := same
  exact returnsPure ⟨rfl, ready⟩

theorem statementReturns {begun : Begun} (ready : s.Ready (line :: lines))
    (plain : isInclude line.text = false) (reads : begun? setting line = .ok begun) :
    (takeLine >>= readWithin setting vars block).Returns s (Comes (begun.within block) lines) := by
  refine returnsBind (takeLineReturns ready plain) fun text t taken => ?_
  obtain ⟨rfl, ready, located⟩ := taken
  exact withinReturns plain located reads ready

theorem passReturns {stops : List Keyword} {begun : Begun} (ready : s.Ready (line :: lines))
    (inside : block.stops = some stops) (passes : line.Passes stops)
    (plain : isInclude line.text = false) (reads : begun? setting line = .ok begun) :
    (block.step setting vars).Returns s (Comes (begun.within block) lines) := by
  have next : s.next = line.text := ready.shows.next
  unfold Block.step
  cases block with
  | makefile statements =>
    refine returnsBind (atEndReturns ready) fun eof t same => ?_
    obtain ⟨rfl, rfl⟩ := same
    exact statementReturns ready plain reads
  | rule header directory recipe => cases inside
  | link before current start =>
    cases Option.some.inj inside
    refine returnsBind (atEndReturns ready) fun eof t same => ?_
    obtain ⟨rfl, rfl⟩ := same
    refine returnsBind (peekReturns t) fun text u here => ?_
    obtain ⟨rfl, rfl⟩ := here
    simp only [next, keywordTrim]
    split
    · rename_i keyword
      exact absurd (List.mem_cons_self ..) (passes _ keyword)
    · rename_i keyword
      exact absurd (List.mem_cons_of_mem _ (List.mem_cons_self ..)) (passes _ keyword)
    · exact statementReturns ready plain reads
  | otherwise before current start statements =>
    cases Option.some.inj inside
    refine returnsBind (atEndReturns ready) fun eof t same => ?_
    obtain ⟨rfl, rfl⟩ := same
    refine returnsBind (peekReturns t) fun text u here => ?_
    obtain ⟨rfl, rfl⟩ := here
    simp only [next, keywordTrim]
    split
    · rename_i keyword
      exact absurd (List.mem_cons_self ..) (passes _ keyword)
    · exact statementReturns ready plain reads

theorem recipeReturns {header : RuleHeader} {directory : Text} {recipe : List Statement}
    {step : Statement} {next : Text} (ready : s.Ready (line :: lines))
    (tab : startsWith ['\t'] line.text = true) (solid : allBlank line.text = false)
    (reads : step? setting directory line = .ok (step, next)) :
    ((Block.rule header directory recipe).step setting vars).Returns s
      (Comes (.stay (.rule header next (recipe ++ [step]))) lines) := by
  have stateless : (within directory
      (Recipe.readStep setting vars line.text (some line.location)) : Action LineStream _).Stateless :=
    statelessWithin (Recipe.readStepQuiet setting vars line.text (some line.location)) directory
  rw [← stepWith setting vars directory line] at reads
  obtain ⟨read, ok, same⟩ := mapOk reads
  cases same
  rw [ruleStep]
  refine returnsBind (peekReturns s) fun text t same => ?_
  obtain ⟨rfl, rfl⟩ := same
  rw [ready.shows.next]
  change Returns (if startsWith ['\t'] line.text = true then _ else _) _ _
  rw [if_pos tab]
  refine returnsBind (takeReturns ready) fun text u taken => ?_
  obtain ⟨rfl, ready, located⟩ := taken
  rw [solid]
  refine returnsState ?_
  rw [located]
  have inside : (within directory (Recipe.readStep setting vars line.text (some line.location)) none
      (standing line.location)).result = .ok (read, _) := congrArg (Except.map _) ok
  refine returnsBind (returnsDetached (detachedStateless stateless) located inside)
    fun step v here => ?_
  obtain ⟨rfl, rfl⟩ := here
  exact returnsPure ⟨rfl, ready⟩

theorem elseReturns {before : List Link} {current : Link} {start : Option Location}
    (ready : s.Ready (line :: lines)) (keyword : Keyword.ofLine? line.text = some .otherwise)
    (reads : (readElse setting vars before current start line.remainder.text).Returns s
      (Comes change after)) :
    ((Block.link before current start).step setting vars).Returns s (Comes change after) := by
  have next : s.next = line.text := ready.shows.next
  unfold Block.step
  refine returnsBind (atEndReturns ready) fun eof t same => ?_
  obtain ⟨rfl, rfl⟩ := same
  refine returnsBind (peekReturns t) fun text u here => ?_
  obtain ⟨rfl, rfl⟩ := here
  simp only [next, keywordTrim, keyword]
  exact reads

theorem chainReturns {before : List Link} {current link : Link} {start : Option Location}
    (ready : s.Ready (line :: lines)) (opens : line.remainder.Opens link) :
    (readElse setting vars before current start line.remainder.text).Returns s
      (Comes (.stay (.link (current :: before) link (some line.location))) lines) := by
  obtain ⟨keyword, condition, rfl⟩ := opens
  unfold readElse
  rw [keyword.elim keywordPlain keywordPlain]
  refine returnsBind (takeReturns ready) fun text t taken => ?_
  obtain ⟨rfl, ready, located⟩ := taken
  have opened := openLinkApply line.remainder.text line.location
  rw [if_neg condition] at opened
  have links := returnsDetached (openLinkDetached line.remainder.text) located
    (congrArg Outcome.result opened)
  rcases keyword with keyword | keyword
  · simp only [keyword]
    refine returnsBind links fun read u same => ?_
    obtain ⟨rfl, rfl⟩ := same
    exact returnsPure ⟨rfl, ready⟩
  · simp only [keyword]
    refine returnsBind links fun read u same => ?_
    obtain ⟨rfl, rfl⟩ := same
    exact returnsPure ⟨rfl, ready⟩

theorem stepReturns (moves : block.Moves setting workDir False lines change after)
    (ready : s.Ready lines) : (block.step setting vars).Returns s (Comes change after) := by
  have next := ready.shows.next
  cases moves with
  | finish =>
    refine returnsBind (atEndReturns ready) fun eof t same => ?_
    obtain ⟨rfl, rfl⟩ := same
    exact returnsPure ⟨rfl, ready⟩
  | statement inside passes begins =>
    cases begins with
    | here other reads => exact passReturns ready inside passes other reads
    | inclusion allowed => exact allowed.elim
  | step tab solid reads => exact recipeReturns ready tab solid reads
  | blank tab blank =>
    rename_i header directory recipe line
    refine returnsBind (peekReturns s) fun text t same => ?_
    obtain ⟨rfl, rfl⟩ := same
    rw [next]
    change Returns (if startsWith ['\t'] line.text = true then _ else _) _ _
    rw [if_pos tab]
    refine returnsBind (takeReturns ready) fun text u taken => ?_
    obtain ⟨rfl, ready, _⟩ := taken
    rw [if_pos blank]
    exact returnsPure ⟨rfl, ready⟩
  | ended other =>
    refine returnsBind (peekReturns s) fun text t same => ?_
    obtain ⟨rfl, rfl⟩ := same
    rw [next]
    cases lines with
    | nil => exact returnsPure ⟨rfl, ready⟩
    | cons line rest =>
      change Returns (if startsWith ['\t'] line.text = true then _ else _) _ _
      rw [if_neg (by simp [other line rfl])]
      exact returnsPure ⟨rfl, ready⟩
  | endLink keyword =>
    refine returnsBind (atEndReturns ready) fun eof t same => ?_
    obtain ⟨rfl, rfl⟩ := same
    refine returnsBind (peekReturns t) fun text u here => ?_
    obtain ⟨rfl, rfl⟩ := here
    simp only [next, List.head?_cons, Option.map_some, Option.getD_some, keywordTrim, keyword]
    refine returnsBind (takeLineReturns ready (keywordPlain keyword)) fun text v taken => ?_
    exact returnsPure ⟨rfl, taken.2.1⟩
  | endOtherwise keyword =>
    refine returnsBind (atEndReturns ready) fun eof t same => ?_
    obtain ⟨rfl, rfl⟩ := same
    refine returnsBind (peekReturns t) fun text u here => ?_
    obtain ⟨rfl, rfl⟩ := here
    simp only [next, List.head?_cons, Option.map_some, Option.getD_some, keywordTrim, keyword]
    refine returnsBind (takeLineReturns ready (keywordPlain keyword)) fun text v taken => ?_
    exact returnsPure ⟨rfl, taken.2.1⟩
  | chain keyword opens =>
    rename_i before current start line link
    exact elseReturns ready keyword (chainReturns ready opens)
  | otherwise keyword bare =>
    rename_i before current start line
    refine elseReturns ready keyword ?_
    unfold readElse
    rw [barePlain bare]
    refine returnsBind (takeReturns ready) fun text t taken => ?_
    split
    · rename_i conditional
      exact absurd conditional (bareKeyword bare _)
    · rename_i conditional
      exact absurd conditional (bareKeyword bare _)
    · exact (if_pos bare).symm ▸ returnsPure ⟨rfl, taken.2.1⟩
  | otherwiseWith keyword unconditional solid begins =>
    rename_i before current start line lines begun
    refine elseReturns ready keyword ?_
    cases begins with
    | inclusion allowed => exact allowed.elim
    | here other reads =>
      unfold readElse
      rw [other]
      refine returnsBind (takeReturns ready) fun text t taken => ?_
      obtain ⟨rfl, ready, located⟩ := taken
      have here : t.location = some line.remainder.location := located
      split
      · rename_i conditional
        exact absurd (List.mem_cons_self ..) (unconditional _ conditional)
      · rename_i conditional
        exact absurd (List.mem_cons_of_mem _ (List.mem_cons_self ..)) (unconditional _ conditional)
      · simp only
        split
        · rename_i bare
          exact absurd bare solid
        · exact withinReturns other here reads ready

theorem withinStays (begun : Begun) (block : Block) :
    (begun.within block).kept?.isSome = true := by
  obtain ⟨kept, found, _⟩ := withinKept begun block
  rw [found]
  rfl

theorem movesShrink (moves : block.Moves setting workDir False lines change after) :
    after.length + (if change.kept?.isSome then 1 else 0) ≤ lines.length := by
  cases moves with
  | statement inside passes begins =>
    cases begins with
    | here other reads => simp [withinStays]
    | inclusion allowed => exact allowed.elim
  | otherwiseWith keyword unconditional solid begins =>
    cases begins with
    | here other reads => simp [withinStays]
    | inclusion allowed => exact allowed.elim
  | finish | ended | endLink | endOtherwise => simp [Change.kept?]
  | step | blank | chain | otherwise => simp [Change.kept?]

theorem runReturns {total : List Statement} {outer : List Block} (fuel : Nat)
    (enough : 2 * lines.length + outer.length < fuel) (ready : s.Ready lines)
    (stack : StackEnds setting total block outer lines) :
    (block.run setting fuel vars outer).Returns s fun read _ => read.map Prod.fst = some total := by
  -- A line counts twice: it is taken, and it may start a block that needs a step to end.
  induction fuel generalizing vars block outer s lines with
  | zero => omega
  | succ fuel ih =>
    rw [Block.run]
    cases outer with
    | nil =>
      obtain ⟨change, after, moves, ends⟩ := endsMoves s.workDir stack
      have shrink := movesShrink moves
      refine returnsBind (stepReturns moves ready) fun read t comes => ?_
      obtain ⟨step, vars⟩ := read
      obtain ⟨rfl, ready⟩ := comes
      cases step with
      | stay next =>
        simp only [Change.kept?, Option.isSome_some, if_true] at shrink
        exact ih (by omega) ready ends
      | nest next inner =>
        simp only [Change.kept?, Option.isSome_some, if_true] at shrink
        obtain ⟨statements, middle, inside, more⟩ := ends
        exact ih (by simp; omega) ready ⟨statements, middle, inside, more⟩
      | close statements =>
        obtain ⟨rfl, rfl⟩ := ends
        exact returnsPure rfl
    | cons around outer =>
      obtain ⟨statements, middle, inside, stack⟩ := stack
      obtain ⟨change, after, moves, ends⟩ := endsMoves s.workDir inside
      have shrink := movesShrink moves
      simp only [List.length_cons] at enough
      refine returnsBind (stepReturns moves ready) fun read t comes => ?_
      obtain ⟨step, vars⟩ := read
      obtain ⟨rfl, ready⟩ := comes
      cases step with
      | stay next =>
        simp only [Change.kept?, Option.isSome_some, if_true] at shrink
        exact ih (by simp; omega) ready ⟨statements, middle, ends, stack⟩
      | nest next inner =>
        simp only [Change.kept?, Option.isSome_some, if_true] at shrink
        obtain ⟨within, last, inside, more⟩ := ends
        exact ih (by simp; omega) ready ⟨within, last, inside, statements, middle, more, stack⟩
      | close given =>
        simp only [Change.kept?, Option.isSome_none, Bool.false_eq_true, if_false] at shrink
        obtain ⟨rfl, rfl⟩ := ends
        exact ih (by omega) ready stack

theorem startReturns {files : FileTree} {origin : Origin} (workDir? : Option Text)
    (readable : origin.lines? files = some lines) (s : LineStream) :
    (origin.start files workDir?).Returns s fun _ t => t.Ready lines := by
  obtain ⟨events, t, outcome, shows, sound, _⟩ := started readable workDir? s
  refine ⟨events, t, _, outcome, ?_, shows, sound⟩
  obtain ⟨first, told, messages, asked, same⟩ := origin.startEvents s files workDir?
  rw [outcome] at same
  change events = _ at same
  rintro ⟨path, member⟩
  rw [same] at member
  rcases List.mem_append.mp member with looked | inside
  · cases asked _ looked
  · exact idleNotEntered (onlyToldIdle messages) ⟨path, inside⟩

def Origin.Accepts (files : FileTree) (workDir? : Option Text) (fuel : Nat) (origin : Origin)
    (statements : List Statement) : Prop :=
  (∃ makefile, (origin.read files workDir? fuel).result = .ok (some makefile) ∧
    makefile.statements = statements) ∧ ¬Entered (origin.read files workDir? fuel).events

section
variable {files : FileTree} {origin : Origin} {workDir? : Option Text} {fuel : Nat}
  {statements : List Statement}

theorem acceptedBlocks (readable : (origin.resolved files).lines? files = some lines)
    (accepts : origin.Accepts files workDir? fuel statements) :
    AreBlocks (origin.setting files) [] lines statements [] := by
  obtain ⟨⟨makefile, ok, rfl⟩, outside⟩ := accepts
  have reads := (readStatements ok).allow outside
  obtain ⟨source, opened, _, rfl⟩ := Origin.readableSource readable
  unfold Origin.Reads Origin.pending at reads
  rw [opened] at reads
  obtain ⟨more, blocks, _, rfl⟩ := runsEnds reads
  exact blocks

theorem blocksAccepted (readable : (origin.resolved files).lines? files = some lines)
    (blocks : AreBlocks (origin.setting files) [] lines statements [])
    (enough : 2 * lines.length < fuel) : origin.Accepts files workDir? fuel statements := by
  have whole : (Makefile.readAll fuel files (origin.resolved files).path
      ((origin.resolved files).start files workDir?)).Returns (.empty [])
        fun read _ => ∃ makefile, read = some makefile ∧ makefile.statements = statements := by
    refine returnsBind (startReturns workDir? readable _) fun _ t ready => ?_
    have stack : StackEnds (origin.setting files) statements (.makefile []) [] lines :=
      ⟨statements, blocks, rfl, rfl⟩
    refine returnsBind (runReturns fuel enough ready stack) fun read u ended => returnsPure ?_
    obtain ⟨out, rfl, rfl⟩ := Option.map_eq_some_iff.mp ended
    exact ⟨_, rfl, rfl⟩
  obtain ⟨events, t, read, outcome, outside, makefile, rfl, same⟩ := whole
  unfold Origin.Accepts
  rw [Origin.readApply, outcome]
  exact ⟨⟨makefile, rfl, same⟩, outside⟩

end

/-- A text is read, and no file with it, exactly if its logical lines are a list of blocks, and what
is read is what the blocks stand for. Then any number of steps will do that is more than twice the
number of lines. -/
theorem acceptsGrammar (files : FileTree) (path text : Text) (workDir? : Option Text)
    (statements : List Statement) :
    let lines := logicalLines path 0 0 (Source.textLines text)
    ((∃ fuel, (Origin.text path text).Accepts files workDir? fuel statements) ↔
      AreBlocks ⟨files, Path.parent (files.absolute path)⟩ [] lines statements []) ∧
    ∀ more, (∃ fuel, (Origin.text path text).Accepts files workDir? fuel statements) ↔
      (Origin.text path text).Accepts files workDir? (2 * lines.length + 1 + more) statements := by
  intro lines
  have readable : ((Origin.text path text).resolved files).lines? files = some lines := rfl
  have setting : (Origin.text path text).setting files =
      ⟨files, Path.parent (files.absolute path)⟩ := rfl
  rw [← setting]
  refine ⟨⟨?_, ?_⟩, fun more => ⟨?_, ?_⟩⟩
  · rintro ⟨fuel, accepts⟩
    exact acceptedBlocks readable accepts
  · intro blocks
    exact ⟨_, blocksAccepted readable blocks (Nat.lt_succ_self _)⟩
  · rintro ⟨fuel, accepts⟩
    exact blocksAccepted readable (acceptedBlocks readable accepts) (by omega)
  · exact fun accepts => ⟨_, accepts⟩

end MakeTree
