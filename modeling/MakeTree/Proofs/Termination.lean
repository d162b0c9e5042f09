import MakeTree.Proofs.OpenSources

/-! A run comes to an end by itself unless a file leads back to itself: each step leaves less to read, so
that some number of steps suffices. -/
namespace MakeTree
open Text MakeTree.Action LineStream

variable {files : FileTree} {workDir? : Option Text} {origin : Origin} {stage next : Stage}

theorem comesFailed {setting : Setting} {o : Outcome LineStream (List Statement × Variables)}
    {failure : Failure} (comes : stage.Comes setting o) (failed : o.result = .error failure) :
    ∃ last events t, Relation.ReflTransGen (Stage.Before setting) stage last ∧
      last.block.step setting last.vars none last.stream = ⟨events, t, .error failure⟩ := by
  induction comes with
  | @ends stage o last =>
    cases last with
    | failed steps =>
      cases failed
      exact ⟨stage, _, _, .refl, steps⟩
    | closed outermost steps => cases failed
  | goes step onward ih =>
    obtain ⟨last, events, t, reached, steps⟩ := ih failed
    exact ⟨last, events, t, .head ⟨_, step⟩ reached, steps⟩

theorem continuationFuel {fuel more : Nat} {source : Source} (enough : source.lines.length < fuel)
    (also : source.lines.length < more) :
    Source.continuation fuel none source = Source.continuation more none source := by
  induction fuel generalizing source more with
  | zero => omega
  | succ fuel ih =>
    obtain ⟨more, rfl⟩ := Nat.exists_eq_succ_of_ne_zero (Nat.ne_zero_of_lt also)
    rw [Source.continuation, Source.continuation]
    cases lines : source.lines with
    | nil =>
      rcases Source.readLineNil lines with ⟨_, outcome⟩ | ⟨_, _, _, _, outcome⟩
      · rw [bindSilent outcome, bindSilent outcome]
      · rw [bindFailed outcome, bindFailed outcome]
    | cons line rest =>
      have shorter : (source.past 1).lines = rest := by simp [lines]
      have onward : Source.continuation fuel none (source.past 1) =
          Source.continuation more none (source.past 1) := by
        simp only [lines, List.length_cons] at enough also
        exact ih (by rw [shorter]; omega) (by rw [shorter]; omega)
      rw [bindSilent (Source.readLineCons lines), bindSilent (Source.readLineCons lines)]
      simp only
      split
      · rfl
      · split
        · rw [bindSilent (stateApply none _), bindSilent (stateApply none _),
            bindReturned (emitApply _ none _), bindReturned (emitApply _ none _), onward]
        · split
          · rw [bindApply, bindApply, onward]
          · rfl

theorem goesLess
    (acyclic : ∀ place, ¬ Relation.TransGen (origin.Includes files workDir?) place place)
    (passes : origin.Passes files workDir? stage)
    (step : stage.Before (origin.setting files) next) : next.measure files < stage.measure files := by
  obtain ⟨_, goes⟩ := step
  exact Stage.goesMeasure goes (Origin.passFormed passes) (passShallow acyclic passes)

theorem onwardMeasure
    (acyclic : ∀ place, ¬ Relation.TransGen (origin.Includes files workDir?) place place)
    (passes : origin.Passes files workDir? stage)
    (onward : Relation.TransGen (Stage.Before (origin.setting files)) stage next) :
    next.measure files < stage.measure files := by
  induction onward with
  | single step => exact goesLess acyclic passes step
  | tail before step ih =>
    exact (goesLess acyclic (Origin.passOnward passes before.to_reflTransGen) step).trans ih

theorem makesMeasure
    (acyclic : ∀ place, ¬ Relation.TransGen (origin.Includes files workDir?) place place)
    {steps : Nat} {events : List Event} (passes : origin.Passes files workDir? stage)
    (makes : stage.Makes (origin.setting files) steps events next) :
    next.measure files + steps ≤ stage.measure files := by
  induction makes with
  | none => exact Nat.le_refl _
  | more step _ ih =>
    have less := goesLess acyclic passes ⟨_, step⟩
    have onward := ih (Origin.passOnward passes (.single ⟨_, step⟩))
    omega

theorem readEnds
    (acyclic : ∀ place, ¬ Relation.TransGen (origin.Includes files workDir?) place place) :
    ∃ o, origin.Comes files workDir? o := by
  rcases Origin.readSettles files workDir? 0 origin with ⟨o, comes, _⟩ | ⟨first, halfway⟩
  · exact ⟨o, comes⟩
  obtain ⟨before, _, first, starts, _⟩ := halfway.made
  have begins : ∀ {before stage}, origin.Starts files workDir? before stage → stage = first := by
    intro before stage starts'
    obtain ⟨s, begun, rfl⟩ := starts
    obtain ⟨t, begun', rfl⟩ := starts'
    cases begun.symm.trans begun'
    rfl
  have passes : origin.Passes files workDir? first := ⟨before, first, starts, .refl⟩
  rcases Origin.readSettles files workDir? (first.measure files + 1) origin with
    ⟨o, comes, _⟩ | ⟨last, halfway⟩
  · exact ⟨o, comes⟩
  · obtain ⟨_, events, stage, starts', makes, _⟩ := halfway.made
    cases begins starts'
    have fewer := makesMeasure acyclic passes makes
    omega

/-- Reading comes to an end, and there is less to read after each step, after each round of a block and
wherever a block or a branch is opened. -/
structure Terminates (files : FileTree) (workDir? : Option Text) (origin : Origin) : Prop where
  comes : ∃ o, origin.Comes files workDir? o ∧
    ∃ least, ∀ more, origin.read files workDir? (least + more) = o.settled
  steps : ∀ stage events next, origin.Passes files workDir? stage →
    stage.Goes (origin.setting files) events next → next.measure files < stage.measure files
  rounds : ∀ stage next, origin.Passes files workDir? stage →
    Relation.TransGen (Stage.Before (origin.setting files)) stage next →
    stage.outer.length ≤ next.outer.length →
    next.stream.burden files < stage.stream.burden files
  recursion : WellFounded fun next stage =>
    origin.Passes files workDir? stage ∧ stage.Before (origin.setting files) next
  joins : ∀ fuel more source, source.lines.length < fuel → source.lines.length < more →
    Source.continuation fuel none source = Source.continuation more none source

theorem readTerminates (files : FileTree) (workDir? : Option Text) (origin : Origin)
    (acyclic : ∀ place, ¬ Relation.TransGen (origin.Includes files workDir?) place place) :
    Terminates files workDir? origin where
  comes := (readEnds acyclic).imp fun _ comes => ⟨comes, Origin.comesRead comes⟩
  steps := fun _ _ _ passes goes => goesLess acyclic passes ⟨_, goes⟩
  rounds := by
    intro stage next passes onward deeper
    have less := onwardMeasure acyclic passes onward
    unfold Stage.measure at less
    omega
  recursion := by
    refine Subrelation.wf (r := InvImage (· < ·) (Stage.measure files)) ?_
      (InvImage.wf (Stage.measure files) Nat.lt_wfRel.wf)
    rintro next stage ⟨passes, step⟩
    exact goesLess acyclic passes step
  joins := fun _ _ _ => continuationFuel

theorem risingApart {leads : Place → Place → Prop} (rank : Place → Nat)
    (climbs : ∀ here there, leads here there → rank here < rank there) (place : Place) :
    ¬ Relation.TransGen leads place place := by
  intro loop
  have higher : ∀ there, Relation.TransGen leads place there → rank place < rank there := by
    intro there onward
    induction onward with
    | single step => exact climbs _ _ step
    | tail _ step ih => exact ih.trans (climbs _ _ step)
  exact Nat.lt_irrefl _ (higher place loop)

theorem risingAcyclic (rank : Place → Nat)
    (rises : ∀ entry ∈ files.entries,
      ∀ there ∈ files.named ((origin.resolved files).workDir files workDir?) entry.1,
        rank entry.1 < rank there) :
    ∀ place, ¬ Relation.TransGen (origin.Includes files workDir?) place place := by
  refine risingApart rank fun here there includes => ?_
  have named := includesNamed includes
  obtain ⟨bytes, entry⟩ := namedEntry named
  exact rises _ entry there named

def branchedIncludes : FileTree where
  workingDirectory := ['/']
  entries := [
    (["Makefile".toList], .file (encodeUtf8 "ifeq x\nelse include a\nendif\ninclude b".toList)),
    (["a".toList], .file (encodeUtf8 "c = 1 \\\n 2\n\ninclude b".toList)),
    (["b".toList], .file (encodeUtf8 "t: u\n\tcargo build\n".toList))]

theorem branchedIncludes.terminates :
    (∀ place, ¬ Relation.TransGen
      ((Origin.file "Makefile".toList).Includes branchedIncludes none) place place) ∧
    Terminates branchedIncludes none (.file "Makefile".toList) := by
  have acyclic : ∀ place, ¬ Relation.TransGen
      ((Origin.file "Makefile".toList).Includes branchedIncludes none) place place := by
    refine risingAcyclic (fun place => (branchedIncludes.entries.map Prod.fst).idxOf place) ?_
    decide +kernel
  exact ⟨acyclic, readTerminates branchedIncludes none (.file "Makefile".toList) acyclic⟩

end MakeTree
