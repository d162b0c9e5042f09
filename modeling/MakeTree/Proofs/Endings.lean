import MakeTree.Proofs.Termination

/-! What a step does where there is no line for the block: at the end of the input, and before a line
that ends a recipe. Every step is determined by the stage before it, so a run that has come to a stage
goes on from there as any other. -/
namespace MakeTree
open Text MakeTree.Action LineStream

def Block.takes (line : Text) : Block → Bool
  | .rule .. => startsWith ['\t'] line
  | .makefile _ | .link .. | .otherwise .. => true

def Block.atEnd : Block → Except Failure Change
  | .makefile statements => .ok (.close statements)
  | .rule header _ recipe => .ok (.close [header.statement recipe])
  | .link _ _ start | .otherwise _ _ start _ => .error (unterminated start)

variable {setting : Setting} {vars : Variables} {block : Block} {s : LineStream}

theorem bindAtEnd {α : Type} (f : Bool → Action LineStream α) :
    (LineStream.atEnd >>= f) none s = (f s.eof none s).behind [.peeked] := rfl

theorem bindPeek {α : Type} (f : Text → Action LineStream α) :
    (peek >>= f) none s = (f s.next none s).behind [.peeked] := rfl

theorem stepEnded (ended : s.eof = true) (empty : s.next = []) :
    block.step setting vars none s = ⟨[.peeked], s, block.atEnd.map (·, vars)⟩ := by
  unfold Block.step
  cases block with
  | makefile statements =>
    refine (bindAtEnd _).trans ?_
    rw [ended]
    rfl
  | rule header directory recipe =>
    refine (bindPeek _).trans ?_
    rw [empty]
    rfl
  | link before current start =>
    refine (bindAtEnd _).trans ?_
    rw [ended]
    rfl
  | otherwise before current start statements =>
    refine (bindAtEnd _).trans ?_
    rw [ended]
    rfl

theorem stepPassed (setting : Setting) (vars : Variables) (other : block.takes s.next = false) :
    ∃ statements,
      block.step setting vars none s = ⟨[.peeked], s, .ok (.close statements, vars)⟩ := by
  cases block with
  | makefile | link | otherwise => cases other
  | rule header directory recipe =>
    have plain : ¬startsWith ['\t'] s.next = true := by simpa [Block.takes] using other
    refine ⟨[header.statement recipe], ?_⟩
    rw [ruleStep, bindPeek, if_neg plain]
    rfl

def HandsOver {α : Type} (x : Action LineStream α) (s : LineStream) : Prop :=
  ∃ advanced, Event.took advanced ∈ (x none s).events

theorem handsBind {α β : Type} {x : Action LineStream α} (f : α → Action LineStream β)
    (hands : HandsOver x s) : HandsOver (x >>= f) s := by
  obtain ⟨advanced, member⟩ := hands
  refine ⟨advanced, ?_⟩
  cases outcome : x none s with
  | mk events t result =>
    rw [outcome] at member
    cases result with
    | error failure => rw [bindFailed outcome]; exact member
    | ok a => rw [bindReturned outcome]; exact List.mem_append_left _ member

theorem handsPeek {α : Type} {f : Text → Action LineStream α} (hands : HandsOver (f s.next) s) :
    HandsOver (peek >>= f) s := by
  obtain ⟨advanced, member⟩ := hands
  exact ⟨advanced, by rw [bindPeek]; exact List.mem_cons_of_mem _ member⟩

theorem handsAtEnd {α : Type} {f : Bool → Action LineStream α} (hands : HandsOver (f s.eof) s) :
    HandsOver (LineStream.atEnd >>= f) s := by
  obtain ⟨advanced, member⟩ := hands
  exact ⟨advanced, by rw [bindAtEnd]; exact List.mem_cons_of_mem _ member⟩

theorem takeHands (deferred : Bool) (s : LineStream) : HandsOver (take deferred) s := by
  cases deferred with
  | true => exact ⟨false, by rw [takeDeferred]; exact List.mem_cons_self ..⟩
  | false =>
    obtain ⟨told, _, events⟩ := takeEvents s
    exact ⟨true, by rw [events]; exact List.mem_cons_self ..⟩

theorem takeLineHands (s : LineStream) : HandsOver takeLine s := takeHands (isInclude s.next) s

theorem stepTakes (setting : Setting) (vars : Variables) (more : s.eof = false)
    (own : block.takes s.next = true) : HandsOver (block.step setting vars) s := by
  have here : ¬s.eof = true := by simp [more]
  unfold Block.step
  cases block with
  | makefile statements =>
    refine handsAtEnd ?_
    rw [if_neg here]
    exact handsBind _ (takeLineHands s)
  | rule header directory recipe =>
    have tab : startsWith ['\t'] s.next = true := own
    refine handsPeek ?_
    rw [if_pos tab]
    exact handsBind _ (takeHands false s)
  | link before current start =>
    refine handsAtEnd ?_
    rw [if_neg here]
    refine handsPeek ?_
    simp only
    split
    · exact handsBind _ (takeLineHands s)
    · exact handsBind _ (takeHands _ s)
    · exact handsBind _ (takeLineHands s)
  | otherwise before current start statements =>
    refine handsAtEnd ?_
    rw [if_neg here]
    refine handsPeek ?_
    split
    · exact handsBind _ (takeLineHands s)
    · exact handsBind _ (takeLineHands s)

namespace Stage
variable {stage : Stage} {o other : Outcome LineStream (List Statement × Variables)}

theorem goesUnique {first second : List Event} {next further : Stage}
    (left : stage.Goes setting first next) (right : stage.Goes setting second further) :
    second = first ∧ further = next := by
  obtain ⟨t, change, after, steps, step⟩ := left
  obtain ⟨u, again, later, steps', step'⟩ := right
  cases steps.symm.trans steps'
  exact ⟨rfl, Option.some.inj (step'.symm.trans step)⟩

theorem endsStay {events : List Event} {next : Stage} (ends : stage.Ends setting o)
    (goes : stage.Goes setting events next) : False := by
  obtain ⟨t, change, after, steps, step⟩ := goes
  cases ends with
  | failed fails => cases steps.symm.trans fails
  | closed outermost closes =>
    cases steps.symm.trans closes
    rw [next?, outermost] at step
    cases step

theorem comesUnique (left : stage.Comes setting o) (right : stage.Comes setting other) :
    other = o := by
  induction left generalizing other with
  | @ends stage o last =>
    cases right with
    | ends again =>
      cases last with
      | failed steps =>
        cases again with
        | failed steps' => cases steps.symm.trans steps'; rfl
        | closed _ steps' => cases steps.symm.trans steps'
      | closed _ steps =>
        cases again with
        | failed steps' => cases steps.symm.trans steps'
        | closed _ steps' => cases steps.symm.trans steps'; rfl
    | goes step _ => exact (endsStay last step).elim
  | goes step _ ih =>
    cases right with
    | ends again => exact (endsStay again step).elim
    | goes step' onward =>
      obtain ⟨rfl, rfl⟩ := goesUnique step step'
      rw [ih onward]

theorem comesClosed {statements : List Statement} {vars : Variables} (comes : stage.Comes setting o)
    (ok : o.result = .ok (statements, vars)) :
    ∃ last events t, Relation.ReflTransGen (Before setting) stage last ∧ last.outer = [] ∧
      last.block.step setting last.vars none last.stream =
        ⟨events, t, .ok (.close statements, vars)⟩ := by
  induction comes with
  | @ends stage o last =>
    cases last with
    | failed steps => cases ok
    | closed outermost steps =>
      cases ok
      exact ⟨stage, _, _, .refl, outermost, steps⟩
  | goes step onward ih =>
    obtain ⟨last, events, t, reached, outermost, steps⟩ := ih ok
    exact ⟨last, events, t, .head ⟨_, step⟩ reached, outermost, steps⟩

theorem comesBehind {first : Stage}
    (reached : Relation.ReflTransGen (Before setting) first stage) (comes : stage.Comes setting o) :
    ∃ events, first.Comes setting (o.behind events) := by
  induction reached using Relation.ReflTransGen.head_induction_on with
  | refl => exact ⟨[], comes⟩
  | head step _ ih =>
    obtain ⟨events, goes⟩ := step
    obtain ⟨later, onward⟩ := ih
    exact ⟨events ++ later, Outcome.behindBehind o events later ▸ .goes goes onward⟩

end Stage

namespace Origin
variable {files : FileTree} {workDir? : Option Text} {origin : Origin} {stage : Stage}

theorem startUnique {before events : List Event} {first : Stage}
    (starts : origin.Starts files workDir? before stage)
    (starts' : origin.Starts files workDir? events first) : events = before ∧ first = stage := by
  obtain ⟨s, begun, rfl⟩ := starts
  obtain ⟨t, begun', rfl⟩ := starts'
  cases begun.symm.trans begun'
  exact ⟨rfl, rfl⟩

theorem comesUnique {o other : Outcome LineStream Makefile} (left : origin.Comes files workDir? o)
    (right : origin.Comes files workDir? other) : other = o := by
  cases left with
  | unopened fails =>
    cases right with
    | unopened fails' => cases fails.symm.trans fails'; rfl
    | read starts _ =>
      obtain ⟨_, begun, _⟩ := starts
      cases fails.symm.trans begun
  | read starts comes =>
    cases right with
    | unopened fails =>
      obtain ⟨_, begun, _⟩ := starts
      cases fails.symm.trans begun
    | read starts' comes' =>
      obtain ⟨rfl, rfl⟩ := startUnique starts starts'
      rw [Stage.comesUnique comes comes']

theorem passFailure (passes : origin.Passes files workDir? stage)
    {o : Outcome LineStream (List Statement × Variables)}
    (comes : stage.Comes (origin.setting files) o)
    {failure : Failure} (failed : o.result = .error failure) :
    ∃ whole, origin.Comes files workDir? whole ∧ whole.result = .error failure := by
  obtain ⟨before, first, starts, reached⟩ := passes
  obtain ⟨events, whole⟩ := Stage.comesBehind reached comes
  exact ⟨_, .read starts whole, wholeFailed.mpr failed⟩

theorem comesMakefile {o : Outcome LineStream Makefile} {makefile : Makefile}
    (comes : origin.Comes files workDir? o) (ok : o.result = .ok makefile) :
    ∃ stage events t, origin.Passes files workDir? stage ∧ stage.outer = [] ∧
      stage.block.step (origin.setting files) stage.vars none stage.stream =
        ⟨events, t, .ok (.close makefile.statements, makefile.vars)⟩ := by
  cases comes with
  | unopened fails => cases ok
  | @read before stage o starts comes =>
    obtain ⟨⟨statements, vars⟩, result, rfl⟩ := mapOk ok
    obtain ⟨last, events, t, reached, outermost, steps⟩ := Stage.comesClosed comes result
    exact ⟨last, events, t, ⟨before, stage, starts, reached⟩, outermost, steps⟩

end Origin
end MakeTree
