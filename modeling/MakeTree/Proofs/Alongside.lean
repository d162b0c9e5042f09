import MakeTree.Proofs.Abreast
import MakeTree.Proofs.Endings
import MakeTree.Proofs.Replay

/-! Two runs alongside each other. Each step of a block on the first stream has its like on the second
until the first has ended; a makefile of the second run may have statements from before. -/
namespace MakeTree
open Text MakeTree.Action LineStream

inductive Block.Beside (lines : Nat) (earlier : List Statement) : Block → Block → Prop where
  | makefile {statements} : Beside lines earlier (.makefile statements)
      (.makefile (earlier ++ statements))
  | rule {header directory recipe} : Beside lines earlier (.rule header directory recipe)
      (.rule header directory recipe)
  | link {before current start other} (near : Shifted lines start other) :
      Beside lines earlier (.link before current start) (.link before current other)
  | otherwise {before current start other statements} (near : Shifted lines start other) :
      Beside lines earlier (.otherwise before current start statements)
        (.otherwise before current other statements)

inductive Begun.Beside (lines : Nat) (earlier : List Statement) : Begun → Begun → Prop where
  | nothing : Beside lines earlier .nothing .nothing
  | whole {statement} : Beside lines earlier (.whole statement) (.whole statement)
  | opened {block other} (beside : Block.Beside lines earlier block other) :
      Beside lines earlier (.opened block) (.opened other)

inductive Change.Beside (lines : Nat) (earlier : List Statement) : Change → Change → Prop where
  | stay {block other} (beside : Block.Beside lines earlier block other) :
      Beside lines earlier (.stay block) (.stay other)
  | nest {block other inner innerOther} (beside : Block.Beside lines earlier block other)
      (inside : Block.Beside lines earlier inner innerOther) :
      Beside lines earlier (.nest block inner) (.nest other innerOther)
  | close {statements} : Beside lines earlier (.close statements) (.close statements)

variable {setting : Setting} {lines : Nat} {more : List LogicalLine} {earlier : List Statement}
  {block other : Block} {s t : LineStream}

theorem addAllBeside (beside : block.Beside lines earlier other) (added : List Statement) :
    (block.addAll added).Beside lines earlier (other.addAll added) := by
  cases beside with
  | makefile =>
    simp only [Block.addAll, List.append_assoc]
    exact .makefile
  | rule => exact .rule
  | link near => exact .link near
  | otherwise near => exact .otherwise near

theorem withinBeside {begun likewise : Begun} (beside : block.Beside lines earlier other)
    (opens : begun.Beside lines earlier likewise) :
    (begun.within block).Beside lines earlier (likewise.within other) := by
  cases opens with
  | nothing => exact .stay beside
  | whole => exact .stay (addAllBeside beside _)
  | opened inside => exact .nest beside inside

namespace LineStream

theorem Taken.paired {deferred : Bool} (taken : Taken lines more deferred s t)
    (plain : deferred = false) : s.Paired lines more t := by
  cases plain
  exact taken.behind

end LineStream

theorem agreePeek {α : Type} {f g : Text → Action LineStream α}
    {post : α → α → LineStream → LineStream → Prop} (same : t.next = s.next)
    (rest : Agree lines (f s.next) (g s.next) s t post) :
    Agree lines (peek >>= f) (peek >>= g) s t post := by
  unfold Agree
  rw [bindPeek, bindPeek, same]
  exact agreesBehind rest rfl

theorem agreeAtEnd {α : Type} {f g : Bool → Action LineStream α}
    {post : α → α → LineStream → LineStream → Prop} (same : t.eof = s.eof)
    (rest : Agree lines (f s.eof) (g s.eof) s t post) :
    Agree lines (LineStream.atEnd >>= f) (LineStream.atEnd >>= g) s t post := by
  unfold Agree
  rw [bindAtEnd, bindAtEnd, same]
  exact agreesBehind rest rfl

theorem beginAgree (setting : Setting) (vars others : Variables) (earlier : List Statement)
    (line : Text) (taken : Taken lines more (isInclude line) s t) :
    Agree lines (beginStatement setting vars line) (beginStatement setting others line) s t
      fun a b u v => a.1.Beside lines earlier b.1 ∧ u.Paired lines more v := by
  have plain : LineKind.of (trim line) ≠ .inclusion → s.Paired lines more t := by
    intro kind
    exact taken.paired (by simpa [inclusionKind] using kind)
  unfold beginStatement
  refine agreeState ?_
  simp only
  split
  · rename_i kind
    exact agreePure ⟨.whole, plain (by simp [kind])⟩
  · rename_i kind
    refine agreeBind (readVariableAgree vars others _ taken.near s t) fun a b u v same => ?_
    obtain ⟨same, rfl, rfl⟩ := same
    obtain ⟨statement, after⟩ := a
    obtain ⟨_, later⟩ := b
    cases same
    exact agreePure ⟨.whole, plain (by simp [kind])⟩
  · rename_i kind
    refine agreeBind (assignAgree vars others _ _ s t) fun a b u v same => ?_
    obtain ⟨_, rfl, rfl⟩ := same
    exact agreePure ⟨.nothing, plain (by simp [kind])⟩
  · rename_i kind
    have waiting : Taken lines more true s t := (inclusionKind line).mp kind ▸ taken
    refine agreeBind (readInclusionAgree _ _ waiting) fun a b u v entered => ?_
    obtain ⟨rfl, paired⟩ := entered
    exact agreePure ⟨.whole, paired⟩
  · rename_i kind
    refine agreeBind (openLinkAgree _ taken.near) fun a b u v opened => ?_
    obtain ⟨link, start⟩ := a
    obtain ⟨link', start'⟩ := b
    obtain ⟨rfl, near, rfl, rfl⟩ := opened
    exact agreePure ⟨.opened (.link near), plain (by simp [kind])⟩
  · exact agreeFail ⟨rfl, taken.near⟩
  · rename_i kind
    refine agreeBind (openRuleAgree setting vars others _ taken.located taken.near)
      fun a b u v same => ?_
    obtain ⟨⟨header, directory, recipe, opened⟩, same, rfl, rfl⟩ := same
    obtain ⟨block, after⟩ := a
    obtain ⟨_, later⟩ := b
    cases same
    cases opened
    exact agreePure ⟨.opened .rule, plain (by simp [kind])⟩
  · rename_i kind
    exact agreeEmit rfl (agreePure ⟨.whole, plain (by simp [kind])⟩)

def StepsAlike (lines : Nat) (earlier : List Statement) (more : List LogicalLine)
    (a b : Change × Variables) (u v : LineStream) : Prop :=
  a.1.Beside lines earlier b.1 ∧ u.Paired lines more v

theorem readWithinAgree (setting : Setting) (vars others : Variables)
    (beside : block.Beside lines earlier other) (line : Text)
    (taken : Taken lines more (isInclude line) s t) :
    Agree lines (readWithin setting vars block line) (readWithin setting others other line) s t
      (StepsAlike lines earlier more) :=
  agreeBind (beginAgree setting vars others earlier line taken) fun _ _ _ _ begun =>
    agreePure ⟨withinBeside beside begun.1, begun.2⟩

theorem statementAgree (setting : Setting) (vars others : Variables)
    (beside : block.Beside lines earlier other) (abreast : s.Abreast lines more t) :
    Agree lines (takeLine >>= fun line => readWithin setting vars block line)
      (takeLine >>= fun line => readWithin setting others other line) s t
      (StepsAlike lines earlier more) := by
  refine agreeBind (takeLineAgree abreast) fun a b u v taken => ?_
  obtain ⟨rfl, rfl, taken⟩ := taken
  exact readWithinAgree setting vars others beside _ taken

theorem endAgree (vars others : Variables) (abreast : s.Abreast lines more t) {keyword : Keyword}
    (found : Keyword.ofLine? s.next = some keyword) (statements : List Statement) :
    Agree lines
      (do let _ ← takeLine; return (.close statements, vars))
      (do let _ ← takeLine; return (.close statements, others)) s t
      (StepsAlike lines earlier more) := by
  refine agreeBind (takeLineAgree abreast) fun a b u v taken => ?_
  exact agreePure ⟨.close, taken.2.2.paired (keywordPlain found)⟩

theorem elseAgree (setting : Setting) (vars others : Variables) (before : List Link) (current : Link)
    {start start' : Option Location} (near : Shifted lines start start') (rest : Text)
    (abreast : s.Abreast lines more t) :
    Agree lines (readElse setting vars before current start rest)
      (readElse setting others before current start' rest) s t (StepsAlike lines earlier more) := by
  unfold readElse
  refine agreeBind (takeAgree abreast _) fun a b u v taken => ?_
  obtain ⟨_, _, taken⟩ := taken
  split
  case h_1 found | h_2 found =>
    refine agreeBind (openLinkAgree rest taken.near) fun a b u v opened => ?_
    obtain ⟨link, place⟩ := a
    obtain ⟨link', place'⟩ := b
    obtain ⟨rfl, near, rfl, rfl⟩ := opened
    exact agreePure ⟨.stay (.link near), taken.paired (keywordPlain found)⟩
  case h_3 =>
    simp only
    refine agreeIte (fun bare => ?_) fun _ => ?_
    · refine agreePure ⟨.stay (.otherwise near), taken.paired ?_⟩
      rcases bare with rfl | comment
      · rfl
      · exact hashInclude comment
    · exact readWithinAgree setting vars others (.otherwise near) rest taken

theorem recipeAgree (setting : Setting) (vars others : Variables) (header : RuleHeader)
    (directory : Text) (recipe : List Statement) (abreast : s.Abreast lines more t) :
    Agree lines (takeStep setting vars header directory recipe)
      (takeStep setting others header directory recipe) s t (StepsAlike lines earlier more) := by
  unfold takeStep
  refine agreeBind (takeAgree abreast false) fun a b u v taken => ?_
  obtain ⟨rfl, rfl, taken⟩ := taken
  refine agreeIte (fun _ => agreePure ⟨.stay .rule, taken.paired rfl⟩) fun _ => agreeState ?_
  refine agreeBind (Recipe.readStepInside setting vars others _ taken.near _ u v)
    fun a b u v same => ?_
  obtain ⟨read, moved, rfl, rfl⟩ := same
  obtain ⟨⟨step, after⟩, next⟩ := a
  obtain ⟨⟨_, later⟩, _⟩ := b
  cases read
  cases moved
  exact agreePure ⟨.stay .rule, taken.paired rfl⟩

theorem stepAgree (setting : Setting) (vars others : Variables)
    (beside : block.Beside lines earlier other) (abreast : s.Abreast lines more t) :
    Agree lines (block.step setting vars) (other.step setting others) s t
      (StepsAlike lines earlier more) := by
  have eof : t.eof = s.eof := abreast.otherEof.trans abreast.eof.symm
  have here : ¬s.eof = true := by simp [abreast.eof]
  unfold Block.step
  cases beside with
  | makefile =>
    refine agreeAtEnd eof ?_
    rw [if_neg here, if_neg here]
    exact statementAgree setting vars others .makefile abreast
  | rule =>
    refine agreePeek abreast.next (agreeIte (fun _ => recipeAgree setting vars others _ _ _ abreast)
      fun _ => ?_)
    exact agreePure ⟨.close, .abreast abreast⟩
  | link near =>
    refine agreeAtEnd eof ?_
    rw [if_neg here, if_neg here]
    refine agreePeek abreast.next ?_
    simp only [keywordTrim]
    split
    · rename_i found
      exact endAgree vars others abreast found _
    · exact elseAgree setting vars others _ _ near _ abreast
    · exact statementAgree setting vars others (.link near) abreast
  | otherwise near =>
    refine agreeAtEnd eof ?_
    rw [if_neg here, if_neg here]
    refine agreePeek abreast.next ?_
    simp only [keywordTrim]
    split
    · rename_i found
      exact endAgree vars others abreast found _
    · exact statementAgree setting vars others (.otherwise near) abreast

namespace Stage

structure Beside (lines : Nat) (earlier : List Statement) (more : List LogicalLine)
    (stage other : Stage) : Prop where
  block : stage.block.Beside lines earlier other.block
  outer : List.Forall₂ (Block.Beside lines earlier) stage.outer other.outer
  streams : stage.stream.Paired lines more other.stream

inductive Leads (setting : Setting) : Stage → List Event → Stage → Prop where
  | here {stage} : Leads setting stage [] stage
  | on {stage events next later last} (step : stage.Goes setting events next)
      (onward : Leads setting next later last) : Leads setting stage (events ++ later) last

variable {stage next other : Stage} {events : List Event}
  {o : Outcome LineStream (List Statement × Variables)}

theorem leadsComes {last : Stage} (leads : stage.Leads setting events last)
    (comes : last.Comes setting o) : stage.Comes setting (o.behind events) := by
  induction leads with
  | here => exact comes
  | @on stage events next later last step onward ih =>
    rw [← Outcome.behindBehind]
    exact .goes step (ih comes)

theorem leadsLeads {middle last : Stage} {later : List Event}
    (leads : stage.Leads setting events middle) (onward : middle.Leads setting later last) :
    stage.Leads setting (events ++ later) last := by
  induction leads with
  | here => exact onward
  | on step _ ih =>
    rw [List.append_assoc]
    exact .on step (ih onward)

theorem goesBeside (beside : stage.Beside lines earlier more other)
    (abreast : stage.stream.Abreast lines more other.stream)
    (goes : stage.Goes setting events next) :
    ∃ told onward, other.Goes setting told onward ∧ deeds told = deeds events ∧
      next.Beside lines earlier more onward := by
  obtain ⟨u, change, after, steps, step⟩ := goes
  have agree := stepAgree setting stage.vars other.vars beside.block abreast
  unfold Agree at agree
  rw [steps] at agree
  generalize right : other.block.step setting other.vars none other.stream = p at agree
  cases agree with
  | @ok _ told _ v _ read same alike =>
    obtain ⟨likewise, later⟩ := read
    obtain ⟨changes, paired⟩ := alike
    have outer := beside.outer
    cases changes with
    | stay inside =>
      cases Option.some.inj step
      exact ⟨told, _, ⟨v, _, _, right, rfl⟩, same, ⟨inside, outer, paired⟩⟩
    | nest around inside =>
      cases Option.some.inj step
      exact ⟨told, _, ⟨v, _, _, right, rfl⟩, same, ⟨inside, .cons around outer, paired⟩⟩
    | @close statements =>
      obtain ⟨around, blocks, waiting, rfl⟩ := nextClosed step
      rw [waiting] at outer
      generalize waitingOther : other.outer = others at outer
      cases outer with
      | @cons _ around' _ blocks' here above =>
        refine ⟨told, ⟨around'.addAll statements, blocks', v, later⟩, ⟨v, _, _, right, ?_⟩, same,
          ⟨addAllBeside here statements, above, paired⟩⟩
        rw [next?, waitingOther]

theorem goesEnded (formed : stage.Formed) (ended : stage.stream.eof = true)
    (goes : stage.Goes setting events next) :
    events = [.peeked] ∧ ∃ header directory recipe around outer,
      stage = ⟨.rule header directory recipe, around :: outer, stage.stream, stage.vars⟩ ∧
      next = ⟨around.addAll [header.statement recipe], outer, stage.stream, stage.vars⟩ := by
  obtain ⟨u, change, after, steps, step⟩ := goes
  have tower := formed.tower
  rw [stepEnded ended (formed.ended ended)] at steps
  obtain ⟨block, outer, s, vars⟩ := stage
  obtain ⟨told, still, closed⟩ := Outcome.mk.inj steps
  cases still
  cases block with
  | makefile statements =>
    cases closed
    obtain ⟨around, blocks, waiting, rfl⟩ := nextClosed step
    cases waiting
    cases tower.1
  | rule header directory recipe =>
    cases closed
    obtain ⟨around, blocks, waiting, rfl⟩ := nextClosed step
    cases waiting
    exact ⟨told.symm, header, directory, recipe, around, blocks, rfl, rfl⟩
  | link | otherwise => cases closed

theorem endedFailure (comes : stage.Comes setting o) (formed : stage.Formed)
    (ended : stage.stream.eof = true) {failure : Failure} (failed : o.result = .error failure) :
    failure.cause = .unterminated := by
  induction comes with
  | @ends stage o last =>
    cases last with
    | closed => cases failed
    | failed steps =>
      cases failed
      rw [stepEnded ended (formed.ended ended)] at steps
      obtain ⟨_, _, fails⟩ := Outcome.mk.inj steps
      generalize stage.block = block at fails
      cases block with
      | makefile | rule => cases fails
      | link | otherwise => cases fails; rfl
  | goes step _ ih =>
    have formed' := goesFormed step formed
    obtain ⟨_, _, _, _, _, _, _, rfl⟩ := goesEnded formed ended step
    exact ih formed' ended failed

theorem endedLeads (comes : stage.Comes setting o) (formed : stage.Formed)
    (beside : stage.Beside lines earlier more other) (ended : stage.stream.eof = true)
    {statements : List Statement} {vars : Variables} (ok : o.result = .ok (statements, vars))
    (untabbed : startsWith ['\t'] other.stream.next = false) :
    deeds o.events = [] ∧ ∃ told, deeds told = [] ∧
      other.Leads setting told ⟨.makefile (earlier ++ statements), [], other.stream, other.vars⟩ := by
  induction comes generalizing other with
  | @ends stage o last =>
    cases last with
    | failed => cases ok
    | closed outermost steps =>
      cases ok
      have top := formed.tower
      have inside := beside.block
      have outer := beside.outer
      rw [outermost] at top outer
      rw [stepEnded ended (formed.ended ended)] at steps
      obtain ⟨rfl, _, closed⟩ := Outcome.mk.inj steps
      obtain ⟨block, blocks, s, before⟩ := stage
      obtain ⟨block', blocks', t, later⟩ := other
      cases outer
      cases inside with
      | makefile =>
        cases closed
        exact ⟨rfl, [], rfl, .here⟩
      | rule | link | otherwise => cases top
  | @goes stage events next o step onward ih =>
    have formed' := goesFormed step formed
    obtain ⟨rfl, header, directory, recipe, around, outer, here, rfl⟩ := goesEnded formed ended step
    obtain ⟨inside, above, streams⟩ := beside
    obtain ⟨block', blocks', t, later⟩ := other
    rw [here] at inside above
    cases inside
    cases above with
    | @cons _ around' _ outer' likewise above =>
      have passes : ¬startsWith ['\t'] t.next = true := by simpa using untabbed
      have goes : Goes setting ⟨.rule header directory recipe, around' :: outer', t, later⟩ [.peeked]
          ⟨around'.addAll [header.statement recipe], outer', t, later⟩ := by
        refine ⟨t, .close [header.statement recipe], later, ?_, rfl⟩
        rw [ruleStep, bindPeek, if_neg passes]
        rfl
      have alike : Beside lines earlier more
          ⟨around.addAll [header.statement recipe], outer, stage.stream, stage.vars⟩
          ⟨around'.addAll [header.statement recipe], outer', t, later⟩ :=
        ⟨addAllBeside likewise _, above, streams⟩
      obtain ⟨silent, told, quiet, leads⟩ := ih formed' alike ended ok untabbed
      exact ⟨silent, [.peeked] ++ told, quiet, .on goes leads⟩

inductive Accompanies (setting : Setting) (lines : Nat) (earlier : List Statement)
    (more : List LogicalLine) (other : Stage)
    (o : Outcome LineStream (List Statement × Variables)) : Prop where
  | fails {failure likewise : Failure} {p : Outcome LineStream (List Statement × Variables)}
      (failed : o.result = .error failure) (comes : other.Comes setting p)
      (also : p.result = .error likewise) (alike : failure.Shifted lines likewise) :
      Accompanies setting lines earlier more other o
  | ends {events told : List Event} {last further : Stage}
      {rest : Outcome LineStream (List Statement × Variables)} (leads : other.Leads setting told further)
      (same : deeds told = deeds events) (split : o = rest.behind events)
      (comes : last.Comes setting rest) (formed : last.Formed) (ended : last.stream.eof = true)
      (beside : last.Beside lines earlier more further) :
      Accompanies setting lines earlier more other o

theorem endsAbreast (ends : stage.Ends setting o) (formed : stage.Formed)
    (beside : stage.Beside lines earlier more other)
    (abreast : stage.stream.Abreast lines more other.stream) :
    other.Accompanies setting lines earlier more o := by
  have agree := stepAgree setting stage.vars other.vars beside.block abreast
  unfold Agree at agree
  cases ends with
  | failed steps =>
    rw [steps] at agree
    generalize right : other.block.step setting other.vars none other.stream = p at agree
    cases agree with
    | failed alike => exact .fails rfl (.ends (.failed right)) rfl alike
  | closed outermost steps =>
    have top := formed.tower
    rw [outermost] at top
    obtain ⟨ahead, shows⟩ := formed.shows
    obtain ⟨_, _, _, moves⟩ := stepMoves shows steps
    cases makefileEnds top moves
    cases abreast.eof.symm.trans shows.eof

theorem comesAlongside (comes : stage.Comes setting o) (formed : stage.Formed)
    (beside : stage.Beside lines earlier more other) :
    other.Accompanies setting lines earlier more o := by
  -- Along the steps of the first run, until its input ends in front of one of them.
  induction comes generalizing other with
  | @ends stage o last =>
    cases beside.streams with
    | abreast abreast => exact endsAbreast last formed beside abreast
    | ended eof => exact .ends .here rfl rfl (.ends last) formed eof beside
  | @goes stage events next o step onward ih =>
    cases beside.streams with
    | ended eof => exact .ends .here rfl rfl (.goes step onward) formed eof beside
    | abreast abreast =>
      obtain ⟨told, further, goes, same, beside⟩ := goesBeside beside abreast step
      cases ih (goesFormed step formed) beside with
      | fails failed comes also alike => exact .fails failed (.goes goes comes) also alike
      | @ends before after _ _ rest leads later split comes formed ended beside =>
        have matched : deeds (told ++ after) = deeds (events ++ before) := by
          rw [deedsAppend, deedsAppend, same, later]
        have whole : o.behind events = rest.behind (events ++ before) := by
          simp [split, Outcome.behind]
        exact .ends (.on goes leads) matched whole comes formed ended beside

theorem comesVars {statements : List Statement} {vars : Variables} (comes : stage.Comes setting o)
    (ok : o.result = .ok (statements, vars)) : vars = replay stage.vars (deeds o.events) := by
  obtain ⟨least, runs⟩ := comesRuns comes
  have same : stage.run setting (least + 0) = o.settled := runs 0
  have last := @runAccounts setting (least + 0) stage.vars stage.block stage.outer stage.stream
    statements vars (by rw [← Stage.run, same, Outcome.settledOk]; exact ok)
  rw [← Stage.run, same, replayDeeds] at last
  exact last

theorem leadsVars {last : Stage} (leads : stage.Leads setting events last) :
    last.vars = replay stage.vars (deeds events) := by
  induction leads with
  | here => rfl
  | on step _ ih => rw [ih, goesVars step, deedsAppend, replayAppend]

theorem leadsWorkDir {last : Stage} (leads : stage.Leads setting events last)
    (formed : stage.Formed) : last.stream.workDir = stage.stream.workDir := by
  induction leads with
  | here => rfl
  | on step _ ih => exact (ih (goesFormed step formed)).trans (goesWorkDir step formed)

theorem alongsideReturns (comes : stage.Comes setting o) (formed : stage.Formed)
    (beside : stage.Beside lines earlier more other) {statements : List Statement}
    {vars : Variables} (ok : o.result = .ok (statements, vars))
    (untabbed : ∀ line ∈ more.head?, startsWith ['\t'] line.text = false) :
    ∃ told t after, other.Leads setting told ⟨.makefile (earlier ++ statements), [], t, after⟩ ∧
      deeds told = deeds o.events ∧ t.Reaches more := by
  cases comesAlongside comes formed beside with
  | fails failed => cases failed.symm.trans ok
  | @ends events told last further rest leads same split onward formed ended beside =>
    cases beside.streams with
    | abreast abreast => cases ended.symm.trans abreast.eof
    | ended _ _ _ reaches =>
      have plain : startsWith ['\t'] further.stream.next = false := by
        rw [(reachesShows reaches).next]
        cases head : more.head? with
        | none => rfl
        | some line => exact untabbed line head
      rw [split] at ok ⊢
      obtain ⟨silent, _, quiet, back⟩ := endedLeads onward formed beside ended ok plain
      refine ⟨_, _, _, leadsLeads leads back, ?_, reaches⟩
      rw [deedsAppend, quiet, same, Outcome.behind, deedsAppend, silent]

theorem alongsideFails (comes : stage.Comes setting o) (formed : stage.Formed)
    (beside : stage.Beside lines earlier more other) {failure : Failure}
    (failed : o.result = .error failure) (early : failure.cause ≠ .unterminated) :
    ∃ p likewise, other.Comes setting p ∧ p.result = .error likewise ∧
      failure.Shifted lines likewise := by
  cases comesAlongside comes formed beside with
  | @fails _ likewise p fails comes also alike =>
    cases fails.symm.trans failed
    exact ⟨p, likewise, comes, also, alike⟩
  | ends _ _ split onward formed ended _ =>
    rw [split] at failed
    exact absurd (endedFailure onward formed ended failed) early

end Stage
end MakeTree
