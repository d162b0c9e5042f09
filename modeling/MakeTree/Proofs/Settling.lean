import MakeTree.Proofs.Stages

/-! Runs that are given a number of steps and runs that are not. Where the steps suffice, a run comes to
what finitely many stages lead to, and further steps change nothing; where they do not, all of them have
been made, and a run that is given more begins in the same way. -/
namespace MakeTree
open Text MakeTree.Action LineStream

def Outcome.settled {σ α : Type} (o : Outcome σ α) : Outcome σ (Option α) :=
  { o with result := o.result.map some }

theorem Outcome.settledOk {σ α : Type} {o : Outcome σ α} {a : α} :
    o.settled.result = .ok (some a) ↔ o.result = .ok a := by
  unfold settled
  cases o.result <;> simp [Except.map]

theorem Outcome.settledError {σ α : Type} {o : Outcome σ α} {failure : Failure} :
    o.settled.result = .error failure ↔ o.result = .error failure := by
  unfold settled
  cases o.result <;> simp [Except.map]

namespace Stage

inductive Makes (setting : Setting) : Nat → Stage → List Event → Stage → Prop where
  | none {stage} : Makes setting 0 stage [] stage
  | more {steps stage events next later last} (step : stage.Goes setting events next)
      (onward : Makes setting steps next later last) :
      Makes setting (steps + 1) stage (events ++ later) last

variable {setting : Setting} {stage next : Stage} {events : List Event}

theorem endsRun {o : Outcome LineStream (List Statement × Variables)} (last : stage.Ends setting o)
    (fuel : Nat) : stage.run setting (fuel + 1) = o.settled := by
  unfold run
  rw [Block.run]
  cases last with
  | failed steps =>
    rw [bindFailed steps]
    rfl
  | closed outermost steps =>
    rw [bindReturned steps, outermost]
    simp [Outcome.settled, Except.map]

theorem goesRun (goes : stage.Goes setting events next) (fuel : Nat) :
    stage.run setting (fuel + 1) = (next.run setting fuel).behind events := by
  obtain ⟨t, change, after, steps, step⟩ := goes
  unfold run
  rw [Block.run, bindReturned steps]
  cases change with
  | stay block => cases Option.some.inj step; rfl
  | nest block inner => cases Option.some.inj step; rfl
  | close statements =>
    obtain ⟨around, outer, waiting, rfl⟩ := nextClosed step
    rw [waiting]

theorem runStep (setting : Setting) (stage : Stage) :
    (∃ o, stage.Ends setting o) ∨ ∃ events next, stage.Goes setting events next := by
  cases outcome : stage.block.step setting stage.vars none stage.stream with
  | mk events t result =>
    cases result with
    | error failure => exact .inl ⟨_, .failed outcome⟩
    | ok read =>
      obtain ⟨change, after⟩ := read
      cases change with
      | stay block => exact .inr ⟨events, _, t, _, _, outcome, rfl⟩
      | nest block inner => exact .inr ⟨events, _, t, _, _, outcome, rfl⟩
      | close statements =>
        cases around : stage.outer with
        | nil => exact .inl ⟨_, .closed around outcome⟩
        | cons block outer =>
          exact .inr ⟨events, _, t, _, _, outcome, by rw [next?, around]⟩

theorem runSettles (setting : Setting) (fuel : Nat) (stage : Stage) :
    (∃ o, stage.Comes setting o ∧ ∀ more, stage.run setting (fuel + more) = o.settled) ∨
    ∃ events last, stage.Makes setting fuel events last ∧
      ∀ more, stage.run setting (fuel + more) = (last.run setting more).behind events := by
  induction fuel generalizing stage with
  | zero => exact .inr ⟨[], stage, .none, fun more => by rw [Nat.zero_add]; rfl⟩
  | succ fuel ih =>
    have shift : ∀ more, fuel + 1 + more = fuel + more + 1 := fun more => by omega
    simp only [shift]
    rcases runStep setting stage with ⟨o, last⟩ | ⟨events, next, goes⟩
    · exact .inl ⟨o, .ends last, fun more => endsRun last _⟩
    · rcases ih next with ⟨o, comes, runs⟩ | ⟨later, last, makes, runs⟩
      · refine .inl ⟨_, .goes goes comes, fun more => ?_⟩
        rw [goesRun goes, runs]
        rfl
      · refine .inr ⟨events ++ later, last, .more goes makes, fun more => ?_⟩
        rw [goesRun goes, runs]
        simp [Outcome.behind]

theorem comesRuns {o : Outcome LineStream (List Statement × Variables)}
    (comes : stage.Comes setting o) :
    ∃ least, ∀ more, stage.run setting (least + more) = o.settled := by
  induction comes with
  | ends last => exact ⟨1, fun more => by rw [Nat.add_comm]; exact endsRun last more⟩
  | goes step onward ih =>
    obtain ⟨least, runs⟩ := ih
    refine ⟨least + 1, fun more => ?_⟩
    rw [show least + 1 + more = least + more + 1 by omega, goesRun step, runs]
    rfl

end Stage

namespace Origin

def whole (files : FileTree) (origin : Origin)
    (o : Outcome LineStream (List Statement × Variables)) : Outcome LineStream Makefile :=
  { o with result := o.result.map (origin.makefile files) }

theorem wholeFailed {files : FileTree} {origin : Origin}
    {o : Outcome LineStream (List Statement × Variables)} {failure : Failure} :
    (origin.whole files o).result = .error failure ↔ o.result = .error failure := by
  unfold whole
  cases o.result <;> simp [Except.map]

/-- What comes of reading, by finitely many steps. -/
inductive Comes (files : FileTree) (workDir? : Option Text) (origin : Origin) :
    Outcome LineStream Makefile → Prop where
  | unopened {events t failure}
      (fails : (origin.resolved files).start files workDir? none (.empty []) =
        ⟨events, t, .error failure⟩) :
      Comes files workDir? origin ⟨events, t, .error failure⟩
  | read {events stage o} (starts : origin.Starts files workDir? events stage)
      (comes : stage.Comes (origin.setting files) o) :
      Comes files workDir? origin (origin.whole files (o.behind events))

structure Halfway (files : FileTree) (workDir? : Option Text) (origin : Origin) (fuel : Nat)
    (last : Stage) : Prop where
  made : ∃ before events first, origin.Starts files workDir? before first ∧
    first.Makes (origin.setting files) fuel events last ∧
    origin.read files workDir? fuel = ⟨before ++ events, last.stream, .ok none⟩
  onward : ∀ more, (origin.read files workDir? fuel).events <+:
    (origin.read files workDir? (fuel + more)).events

variable {files : FileTree} {workDir? : Option Text} {fuel : Nat} {origin : Origin}

theorem startRead {before : List Event} {stage : Stage}
    (starts : origin.Starts files workDir? before stage) (fuel : Nat) :
    let run := stage.run (origin.setting files) fuel
    origin.read files workDir? fuel =
      ⟨before ++ run.events, run.state, run.result.map (Option.map (origin.makefile files))⟩ := by
  obtain ⟨s, begun, rfl⟩ := starts
  exact readStarted begun

theorem settledRead {before : List Event} {stage : Stage}
    {o : Outcome LineStream (List Statement × Variables)}
    (starts : origin.Starts files workDir? before stage)
    (runs : stage.run (origin.setting files) fuel = o.settled) :
    origin.read files workDir? fuel = (origin.whole files (o.behind before)).settled := by
  rw [startRead starts, runs]
  unfold Outcome.settled whole Outcome.behind
  cases o.result <;> rfl

theorem readSettles (files : FileTree) (workDir? : Option Text) (fuel : Nat) (origin : Origin) :
    (∃ o, origin.Comes files workDir? o ∧
      ∀ more, origin.read files workDir? (fuel + more) = o.settled) ∨
    ∃ last, origin.Halfway files workDir? fuel last := by
  cases begun : (origin.resolved files).start files workDir? none (.empty []) with
  | mk before s result =>
    cases result with
    | error failure => exact .inl ⟨_, .unopened begun, fun more => readRefused begun⟩
    | ok _ =>
      have starts : origin.Starts files workDir? before ⟨.makefile [], [], s, .empty⟩ :=
        ⟨s, begun, rfl⟩
      rcases Stage.runSettles (origin.setting files) fuel ⟨.makefile [], [], s, .empty⟩ with
        ⟨o, comes, runs⟩ | ⟨events, last, makes, runs⟩
      · exact .inl ⟨_, .read starts comes, fun more => settledRead starts (runs more)⟩
      · have here : origin.read files workDir? fuel = ⟨before ++ events, last.stream, .ok none⟩ := by
          rw [startRead starts, show Stage.run _ fuel _ = _ from runs 0]
          simp [Outcome.behind, Stage.run, Block.run, Except.map]
        refine .inr ⟨last, ⟨before, events, _, starts, makes, here⟩, fun more => ?_⟩
        rw [here, startRead starts, runs more]
        exact ⟨_, List.append_assoc ..⟩

theorem comesRead {o : Outcome LineStream Makefile} (comes : origin.Comes files workDir? o) :
    ∃ least, ∀ more, origin.read files workDir? (least + more) = o.settled := by
  cases comes with
  | unopened fails => exact ⟨0, fun more => readRefused fails⟩
  | read starts comes =>
    obtain ⟨least, runs⟩ := Stage.comesRuns comes
    exact ⟨least, fun more => settledRead starts (runs more)⟩

theorem readReached (reached : (origin.read files workDir? fuel).result ≠ .ok none) :
    ∃ o, origin.Comes files workDir? o ∧
      ∀ more, origin.read files workDir? (fuel + more) = o.settled := by
  rcases readSettles files workDir? fuel origin with ended | ⟨last, halfway⟩
  · exact ended
  · obtain ⟨_, _, _, _, _, same⟩ := halfway.made
    rw [same] at reached
    exact absurd rfl reached

theorem readComes {makefile : Makefile}
    (ok : (origin.read files workDir? fuel).result = .ok (some makefile)) :
    ∃ o, origin.Comes files workDir? o ∧ o.result = .ok makefile ∧
      origin.read files workDir? fuel = o.settled := by
  obtain ⟨o, comes, same⟩ := readReached (by rw [ok]; simp)
  refine ⟨o, comes, Outcome.settledOk.mp ?_, same 0⟩
  rw [← same 0]
  exact ok

theorem readFails {failure : Failure}
    (failed : (origin.read files workDir? fuel).result = .error failure) :
    ∃ o, origin.Comes files workDir? o ∧ o.result = .error failure ∧
      origin.read files workDir? fuel = o.settled := by
  obtain ⟨o, comes, same⟩ := readReached (by rw [failed]; simp)
  refine ⟨o, comes, Outcome.settledError.mp ?_, same 0⟩
  rw [← same 0]
  exact failed

end Origin
end MakeTree
