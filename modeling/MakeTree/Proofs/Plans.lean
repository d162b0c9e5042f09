import MakeTree.Proofs.Endings
import MakeTree.Proofs.Faults

/-! What a step of a block does with its stream, as it is settled by the line ahead. A block leaves the
stream alone, or it takes the line and needs nothing more of the stream, or the line names a file that is
entered next. Whatever is to be known of steps and streams follows from these three. -/
namespace MakeTree
open Text MakeTree.Action LineStream

inductive Plan where
  | rests (result : Except Failure (Change × Variables))
  | takes (rest : Action LineStream (Change × Variables))
  | enters (directive : Text) (made : Statement → Change × Variables)

def Plan.act (files : FileTree) : Plan → Action LineStream (Change × Variables)
  | .rests result => fun _ s => ⟨[], s, result⟩
  | .takes rest => do
    let _ ← LineStream.take false
    rest
  | .enters directive made => do
    let _ ← LineStream.take true
    return made (← readInclusion files directive)

def statementPlan (setting : Setting) (vars : Variables) (block : Block) (line : Text) : Plan :=
  if isInclude line then
    .enters (trim line) fun statement => ((Begun.whole statement).within block, vars)
  else .takes (readWithin setting vars block line)

def elsePlan (setting : Setting) (vars : Variables) (before : List Link) (current : Link)
    (start : Option Location) (rest : Text) : Plan :=
  match Keyword.ofLine? rest with
  | some .ifeq | some .ifneq => .takes do
    let (link, start) ← openLink rest
    return (.stay (.link (current :: before) link start), vars)
  | _ =>
    let block : Block := .otherwise before current start []
    if rest = [] ∨ startsWith ['#'] rest then .takes (return (.stay block, vars))
    else statementPlan setting vars block rest

def Block.plan (setting : Setting) (vars : Variables) (eof : Bool) (next : Text) : Block → Plan
  | .makefile statements =>
    if eof then .rests (.ok (.close statements, vars))
    else statementPlan setting vars (.makefile statements) next
  | .rule header directory recipe =>
    if startsWith ['\t'] next then .takes <|
      if allBlank next then return (.stay (.rule header directory recipe), vars)
      else do
        let ((step, vars), directory) ← within directory
          (Recipe.readStep setting vars next (← Action.state).location)
        return (.stay (.rule header directory (recipe ++ [step])), vars)
    else .rests (.ok (.close [header.statement recipe], vars))
  | .link before current start =>
    if eof then .rests (.error (unterminated start))
    else match Keyword.ofLine? next with
      | some .endif =>
        .takes (return (.close [.conditional (Link.conditional before current none)], vars))
      | some .otherwise => elsePlan setting vars before current start (afterFirstWord (trim next))
      | _ => statementPlan setting vars (.link before current start) next
  | .otherwise before current start statements =>
    if eof then .rests (.error (unterminated start))
    else match Keyword.ofLine? next with
      | some .endif => .takes
        (return (.close [.conditional (Link.conditional before current (some statements))], vars))
      | _ => statementPlan setting vars (.otherwise before current start statements) next

def Block.looks (eof : Bool) : Block → List Event
  | .makefile _ | .rule .. => [.peeked]
  | .link .. | .otherwise .. => if eof then [.peeked] else [.peeked, .peeked]

variable {setting : Setting} {vars : Variables} {s : LineStream}

theorem statementActs (setting : Setting) (vars : Variables) (block : Block) (line : Text)
    (s : LineStream) :
    (take (isInclude line) >>= fun _ => readWithin setting vars block line) none s =
      (statementPlan setting vars block line).act setting.files none s := by
  unfold statementPlan
  cases directive : isInclude line with
  | false => rfl
  | true =>
    rw [readWithin, beginInclusion directive]
    change _ = (take true >>= fun _ => readInclusion setting.files (trim line) >>= fun _ => _) none s
    rw [bindReturned (takeDeferred s), bindReturned (takeDeferred s)]
    cases read : readInclusion setting.files (trim line) none s.atNext with
    | mk events t result => cases result <;> simp [bindApply, Outcome.andThen, Log.record, read]

theorem takeStatement (setting : Setting) (vars : Variables) (block : Block) (s : LineStream) :
    (takeLine >>= fun line => readWithin setting vars block line) none s =
      (statementPlan setting vars block s.next).act setting.files none s := by
  rw [← statementActs]
  exact takeThen (isInclude s.next) (readWithin setting vars block) s

theorem takeEnd {keyword : Keyword} (found : Keyword.ofLine? s.next = some keyword)
    (change : Change × Variables) :
    (do let _ ← takeLine; return change) none s =
      (Plan.takes (return change)).act setting.files none s := by
  change (take (isInclude s.next) >>= fun _ => _) none s = _
  rw [keywordPlain found]
  rfl

theorem otherwiseActs (setting : Setting) (vars : Variables) (block : Block) (rest : Text)
    (s : LineStream) :
    (take (isInclude rest) >>= fun _ =>
      if rest = [] ∨ startsWith ['#'] rest then return (.stay block, vars)
      else readWithin setting vars block rest) none s =
    (if rest = [] ∨ startsWith ['#'] rest then .takes (return (.stay block, vars))
      else statementPlan setting vars block rest : Plan).act setting.files none s := by
  split
  · rename_i bare
    have plain : isInclude rest = false := by
      rcases bare with rfl | comment
      · rfl
      · exact hashInclude comment
    rw [plain]
    rfl
  · exact statementActs setting vars _ rest s

theorem elseActs (setting : Setting) (vars : Variables) (before : List Link) (current : Link)
    (start : Option Location) (rest : Text) (s : LineStream) :
    readElse setting vars before current start rest none s =
      (elsePlan setting vars before current start rest).act setting.files none s := by
  have other := otherwiseActs setting vars (.otherwise before current start []) rest s
  cases found : Keyword.ofLine? rest with
  | none =>
    simp only [readElse, elsePlan, found]
    exact other
  | some keyword =>
    have plain := keywordPlain found
    cases keyword with
    | ifeq | ifneq =>
      simp only [readElse, elsePlan, found, plain]
      rfl
    | _ =>
      simp only [readElse, elsePlan, found]
      exact other

theorem stepPlan (setting : Setting) (vars : Variables) (block : Block) (s : LineStream) :
    block.step setting vars none s =
      ((block.plan setting vars s.eof s.next).act setting.files none s).behind
        (block.looks s.eof) := by
  cases block with
  | makefile statements =>
    simp only [Block.step, bindAtEnd, Block.plan, Block.looks]
    split
    · rfl
    · rw [takeStatement]
  | rule header directory recipe =>
    rw [ruleStep, bindPeek]
    simp only [Block.plan, Block.looks]
    split
    · exact congrArg (Outcome.behind · _) (takeThen false _ s)
    · rfl
  | link before current start =>
    simp only [Block.step, bindAtEnd, Block.plan, Block.looks]
    split
    · rfl
    · simp only [bindPeek, keywordTrim]
      have plain := congrArg (Outcome.behind · [.peeked, .peeked])
        (takeStatement setting vars (.link before current start) s)
      cases found : Keyword.ofLine? s.next with
      | none => exact plain
      | some keyword =>
        cases keyword with
        | endif => exact congrArg (Outcome.behind · [.peeked, .peeked]) (takeEnd found _)
        | otherwise =>
          change ((readElse setting vars before current start (afterFirstWord (trim s.next)) none s).behind
            [.peeked]).behind [.peeked] = _
          rw [elseActs]
          rfl
        | ifeq | ifneq | exported | unexported => exact plain
  | otherwise before current start statements =>
    simp only [Block.step, bindAtEnd, Block.plan, Block.looks]
    split
    · rfl
    · simp only [bindPeek, keywordTrim]
      have plain := congrArg (Outcome.behind · [.peeked, .peeked])
        (takeStatement setting vars (.otherwise before current start statements) s)
      cases found : Keyword.ofLine? s.next with
      | none => exact plain
      | some keyword =>
        cases keyword with
        | endif => exact congrArg (Outcome.behind · [.peeked, .peeked]) (takeEnd found _)
        | otherwise | ifeq | ifneq | exported | unexported => exact plain

inductive Plan.Fits (eof : Bool) (next : Text) : Plan → Prop where
  | rests {result} (mild : ∀ failure, result = .error failure → failure.cause = .unterminated) :
      Fits eof next (.rests result)
  | takes {rest} (more : eof = false) (detached : rest.Detached)
      (blamed : ∀ s, rest.Yields s (fun _ _ => True) (lineBlame s.location)) :
      Fits eof next (.takes rest)
  | enters {directive made} (more : eof = false)
      (named : ∀ token, (words directive)[1]? = some token → inclusion? next = some token) :
      Fits eof next (.enters directive made)

section
variable {eof : Bool} {next : Text}

theorem returnFits (more : eof = false) (change : Change × Variables) :
    (Plan.takes (return change)).Fits eof next :=
  .takes more (detachedStateless (statelessPure _)) fun _ => yieldsPure trivial

theorem statementFits (setting : Setting) (vars : Variables) (block : Block) {line : Text}
    (more : eof = false)
    (named : ∀ token, isInclude line = true → (words (trim line))[1]? = some token →
      inclusion? next = some token) : (statementPlan setting vars block line).Fits eof next := by
  unfold statementPlan
  split
  · rename_i directive
    exact .enters more fun token => named token directive
  · rename_i plain
    have other : LineKind.of (trim line) ≠ .inclusion := fun kind =>
      plain ((inclusionKind line).mp kind)
    exact .takes more (detachedBind (beginDetached other) fun _ => detachedStateless (statelessPure _))
      fun s => yieldsBind (beginPlainYields setting vars other s) fun _ _ _ => yieldsPure trivial

theorem aheadFits (setting : Setting) (vars : Variables) (block : Block) (more : eof = false) :
    (statementPlan setting vars block next).Fits eof next := by
  refine statementFits setting vars block more fun token directive named => ?_
  simp [inclusion?, includeKeyword directive, directive, named]

theorem elseFits (setting : Setting) (vars : Variables) (before : List Link) (current : Link)
    (start : Option Location) (more : eof = false)
    (found : Keyword.ofLine? next = some .otherwise) :
    (elsePlan setting vars before current start (afterFirstWord (trim next))).Fits eof next := by
  have chains (rest : Text) : (Plan.takes do
      let (link, start) ← openLink rest
      return (.stay (.link (current :: before) link start), vars)).Fits eof next :=
    .takes more (detachedBind (openLinkDetached rest) fun _ => detachedStateless (statelessPure _))
      fun s => yieldsBind (openLinkYields rest s) fun _ _ _ => yieldsPure trivial
  unfold elsePlan
  split
  · exact chains _
  · exact chains _
  · simp only
    split
    · exact returnFits more _
    · refine statementFits setting vars _ more fun token directive token? => ?_
      simp [inclusion?, found, directive, token?]

theorem recipeFits (setting : Setting) (vars : Variables) (header : RuleHeader) (directory : Text)
    (recipe : List Statement) (more : eof = false) (solid : ¬allBlank next = true) :
    (Plan.takes do
      let ((step, vars), directory) ← within directory
        (Recipe.readStep setting vars next (← Action.state).location)
      return (.stay (.rule header directory (recipe ++ [step])), vars)).Fits eof next := by
  have steps (s : LineStream) := @Recipe.readStepYields s.location setting vars next
    (by simpa using solid) directory
  refine .takes more (detachedLocated (fun s location located => ?_) fun s t location here there => ?_)
    fun s => yieldsState (yieldsBind (yieldsWithin (steps s)) fun _ _ _ => yieldsPure trivial)
  · exact detachedStateless (statelessBind (statelessWithin (Recipe.readStepQuiet _ _ _ _) _)
      fun _ => statelessPure _)
  · rw [here, there]

theorem planFits (setting : Setting) (vars : Variables) (block : Block)
    (ended : eof = true → next = []) : (block.plan setting vars eof next).Fits eof next := by
  cases block with
  | makefile statements =>
    simp only [Block.plan]
    split
    · exact .rests fun _ failed => by cases failed
    · rename_i more
      exact aheadFits setting vars _ (by simpa using more)
  | rule header directory recipe =>
    simp only [Block.plan]
    split
    · rename_i tab
      have more : eof = false := by
        rw [Bool.eq_false_iff]
        intro stop
        rw [ended stop] at tab
        cases tab
      split
      · exact returnFits more _
      · rename_i solid
        exact recipeFits setting vars header directory recipe more solid
    · exact .rests fun _ failed => by cases failed
  | link before current start =>
    simp only [Block.plan]
    split
    · refine .rests fun _ failed => ?_
      cases failed
      rfl
    · rename_i more
      have more : eof = false := by simpa using more
      split
      · exact returnFits more _
      · rename_i found
        exact elseFits setting vars before current start more found
      · exact aheadFits setting vars _ more
  | otherwise before current start statements =>
    simp only [Block.plan]
    split
    · refine .rests fun _ failed => ?_
      cases failed
      rfl
    · rename_i more
      have more : eof = false := by simpa using more
      split
      · exact returnFits more _
      · exact aheadFits setting vars _ more

end

end MakeTree
