import MakeTree.Proofs.BareSources
import MakeTree.Proofs.Sites

/-! A text that stands in for the file at its path. -/
namespace MakeTree
open Text MakeTree.Action LineStream

section
variable {files others : FileTree} {root : Text}

theorem changeDirectoryAlike (same : ∀ path, others.isDirectory path = files.isDirectory path)
    (target : Text) (location : Option Location) :
    Recipe.changeDirectory others target location = Recipe.changeDirectory files target location := by
  unfold Recipe.changeDirectory
  simp only [same]

theorem readStepAlike (same : ∀ path, others.isDirectory path = files.isDirectory path) :
    Recipe.readStep ⟨others, root⟩ = Recipe.readStep ⟨files, root⟩ := by
  funext vars line location
  unfold Recipe.readStep
  simp only [changeDirectoryAlike same]

theorem beginAlike (same : ∀ path, others.isDirectory path = files.isDirectory path)
    (vars : Variables) {line : Text} (plain : ¬isInclude line = true) :
    beginStatement ⟨others, root⟩ vars line = beginStatement ⟨files, root⟩ vars line := by
  unfold beginStatement openRule
  simp only [readStepAlike same]
  cases kind : LineKind.of (trim line) with
  | inclusion => exact absurd ((inclusionKind line).mp kind) plain
  | _ => rfl

theorem statementPlanAlike (same : ∀ path, others.isDirectory path = files.isDirectory path)
    (vars : Variables) (block : Block) (line : Text) :
    statementPlan ⟨others, root⟩ vars block line = statementPlan ⟨files, root⟩ vars block line := by
  unfold statementPlan readWithin
  split
  · rfl
  · rename_i plain
    rw [beginAlike same vars plain]

theorem planAlike (same : ∀ path, others.isDirectory path = files.isDirectory path)
    (vars : Variables) (block : Block) (eof : Bool) (next : Text) :
    block.plan ⟨others, root⟩ vars eof next = block.plan ⟨files, root⟩ vars eof next := by
  cases block <;>
    simp only [Block.plan, elsePlan, statementPlanAlike same, readStepAlike same]

end

inductive Outcome.Tallies {α : Type} (files others : FileTree) :
    Outcome LineStream α → Outcome LineStream α → Prop where
  | same {events s t result} (alike : t.bare = s.bare) :
      Tallies files others ⟨events, s, result⟩ ⟨events, t, result⟩
  | barred {events s t path location} (inside : files.openFile path = .error .notDirectory)
      (missing : others.openFile path = .error .missing) :
      Tallies files others ⟨events, s, .error ⟨.cannotOpen path .notDirectory, location⟩⟩
        ⟨events, t, .error ⟨.cannotOpen path .missing, location⟩⟩

section
variable {files others : FileTree} {α β : Type} {s t : LineStream}

theorem talliesOnto {o p : Outcome LineStream α} (alike : p.onto bare = o.onto bare) :
    o.Tallies files others p := by
  obtain ⟨events, s, result⟩ := o
  obtain ⟨told, t, last⟩ := p
  simp only [Outcome.onto, Outcome.mk.injEq] at alike
  obtain ⟨rfl, bared, rfl⟩ := alike
  exact .same bared

theorem talliesBehind {o p : Outcome LineStream α} (tallies : o.Tallies files others p)
    (before : List Event) : (o.behind before).Tallies files others (p.behind before) := by
  cases tallies with
  | same alike => exact .same alike
  | barred inside missing => exact .barred inside missing

theorem talliesBind {x y : Action LineStream α} {f g : α → Action LineStream β}
    (first : (x none s).Tallies files others (y none t))
    (rest : ∀ events a u v, x none s = ⟨events, u, .ok a⟩ → v.bare = u.bare →
      (f a none u).Tallies files others (g a none v)) :
    ((x >>= f) none s).Tallies files others ((y >>= g) none t) := by
  generalize left : x none s = o at first
  generalize right : y none t = p at first
  cases first with
  | @same events u v result alike =>
    cases result with
    | error failure =>
      rw [bindFailed left, bindFailed right]
      exact .same alike
    | ok a =>
      rw [bindReturned left, bindReturned right]
      exact talliesBehind (rest events a u v left alike) events
  | barred inside missing =>
    rw [bindFailed left, bindFailed right]
    exact .barred inside missing

theorem bindEvent {x : Action LineStream α} {f : α → Action LineStream β} {event : Event}
    (member : event ∈ (x none s).events) : event ∈ ((x >>= f) none s).events := by
  cases outcome : x none s with
  | mk events u result =>
    rw [outcome] at member
    cases result with
    | error failure =>
      rw [bindFailed outcome]
      exact member
    | ok a =>
      rw [bindReturned outcome]
      exact List.mem_append_left _ member

theorem talliesReturn {u v : LineStream} (alike : v.bare = u.bare) (a : α) :
    ((pure a : Action LineStream α) none u).Tallies files others ((pure a : Action LineStream α) none v) :=
  .same alike

theorem mirroredAlike {x : Action LineStream α} (mirrors : Mirrors bare x x) (alike : t.bare = s.bare) :
    (x none s).Tallies files others (x none t) :=
  talliesOnto (by rw [← mirrors s, ← mirrors t, alike])

theorem findLineAlike {sources more : List Source}
    (same : more.map Source.bare = sources.map Source.bare) (alike : t.bare = s.bare) :
    (findLine sources none s).Tallies files others (findLine more none t) :=
  talliesOnto (findLineSame same alike)

theorem bareParts (alike : t.bare = s.bare) : t.workDir = s.workDir ∧
    t.sources.map Source.bare = s.sources.map Source.bare ∧ t.eof = s.eof ∧ t.next = s.next ∧
    t.nextLocation = s.nextLocation ∧ t.location = s.location := by
  simpa [bare] using alike

theorem detachedAlike {x : Action LineStream α} (detached : x.Detached) {location : Location}
    (located : s.location = some location) (alike : t.bare = s.bare) :
    (x none s).Tallies files others (x none t) := by
  obtain ⟨y, stateless, same⟩ := detached location
  obtain ⟨-, -, -, -, -, here⟩ := bareParts alike
  have there : t.location = some location := here.trans located
  rw [same s located, same t there, stateless.same t s]
  have here := stateless.state s
  generalize y none s = o at here
  obtain ⟨events, u, result⟩ := o
  cases here
  exact .same alike

def OpensAlike (files others : FileTree) (path : Text) : Prop :=
  others.openFile path = files.openFile path ∨
  files.openFile path = .error .notDirectory ∧ others.openFile path = .error .missing

theorem goIntoAlike {path : Text} (opens : OpensAlike files others path) (alike : t.bare = s.bare) :
    (goInto files path none s).Tallies files others (goInto others path none t) := by
  obtain ⟨-, sources, -, -, -, located⟩ := bareParts alike
  rcases opens with same | ⟨inside, missing⟩
  · cases opened : files.openFile path with
    | error reason =>
      rw [goIntoClosed opened, goIntoClosed (same.trans opened), located]
      exact .same alike
    | ok file =>
      obtain ⟨place, bytes⟩ := file
      rw [goIntoOpened opened, goIntoOpened (same.trans opened)]
      have stacked (source : Source) : (source :: t.sources).map Source.bare =
          (source :: s.sources).map Source.bare :=
        congrArg (source.bare :: ·) sources
      refine talliesBehind (findLineAlike (stacked _) ?_) _
      simp only [bare, LineStream.mk.injEq] at alike ⊢
      exact ⟨alike.1, stacked _, alike.2.2⟩
  · rw [goIntoClosed inside, goIntoClosed missing, located]
    exact .barred inside missing

theorem readInclusionAlike {directive : Text}
    (opens : ∀ path, .included path ∈ (readInclusion files directive none s).events →
      OpensAlike files others path) (alike : t.bare = s.bare) :
    (readInclusion files directive none s).Tallies files others
      (readInclusion others directive none t) := by
  obtain ⟨workDir, -, -, -, -, located⟩ := bareParts alike
  have target (token : Text) : t.target token = s.target token :=
    congrArg (Path.normalJoin · token) workDir
  cases split : words directive with
  | nil =>
    have none : (words directive)[1]? = none := by rw [split]; rfl
    rw [readInclusionBare none, readInclusionBare none, located]
    exact .same alike
  | cons first rest =>
    cases rest with
    | nil =>
      have none : (words directive)[1]? = none := by rw [split]; rfl
      rw [readInclusionBare none, readInclusionBare none, located]
      exact .same alike
    | cons token extra =>
      have asked : OpensAlike files others (s.target token) := by
        refine opens _ ?_
        rw [readInclusionNamed split]
        refine List.mem_append_right _ (bindEvent ?_)
        obtain ⟨told, -, events⟩ := enterEvents s files token
        rw [events]
        exact List.mem_cons_self ..
      rw [readInclusionNamed split, readInclusionNamed split, located]
      refine talliesBehind (talliesBind ?_ fun _ _ _ _ _ alike => talliesReturn alike _) _
      rw [enterApply, enterApply, target]
      exact talliesBehind (goIntoAlike asked alike) _

theorem actAlike {plan : Plan} (fits : plan.Fits s.eof s.next)
    (located : s.eof = false → ∃ location, s.nextLocation = some location)
    (opens : ∀ path, .included path ∈ (plan.act files none s).events → OpensAlike files others path)
    (alike : t.bare = s.bare) :
    (plan.act files none s).Tallies files others (plan.act others none t) := by
  cases fits with
  | rests mild => exact .same alike
  | takes more detached blamed =>
    obtain ⟨location, ahead⟩ := located more
    refine talliesBind (mirroredAlike (takeBare false) alike) fun events line u v ok same => ?_
    obtain ⟨-, rfl⟩ := takeReturned ok
    exact detachedAlike detached (((foundKeeps s.atNext s.sources).2).trans ahead) same
  | @enters directive made more named =>
    have taken (files : FileTree) (s : LineStream) : Plan.act files (.enters directive made) none s =
        ((readInclusion files directive >>= fun statement => pure (made statement)) none
          s.atNext).behind [.took false] := bindReturned (takeDeferred s)
    rw [taken] at opens ⊢
    rw [taken]
    obtain ⟨workDir, sources, eof, next, nextLocation, -⟩ := bareParts alike
    have handed : t.atNext.bare = s.atNext.bare := by
      simp [atNext, bare, workDir, sources, eof, next, nextLocation]
    have included : (readInclusion files directive none s.atNext).Tallies files others
        (readInclusion others directive none t.atNext) := readInclusionAlike
      (fun path member => opens path (List.mem_append_right _ (bindEvent member))) handed
    exact talliesBehind (talliesBind included fun _ _ _ _ _ alike => talliesReturn alike _) _

theorem stepAlike {root : Text} (same : ∀ path, others.isDirectory path = files.isDirectory path)
    (vars : Variables) (block : Block) {lines : List LogicalLine} (shows : s.Shows lines)
    (opens : ∀ path, .included path ∈ (block.step ⟨files, root⟩ vars none s).events →
      OpensAlike files others path) (alike : t.bare = s.bare) :
    (block.step ⟨files, root⟩ vars none s).Tallies files others
      (block.step ⟨others, root⟩ vars none t) := by
  obtain ⟨-, -, eof, next, -, -⟩ := bareParts alike
  rw [stepPlan] at opens ⊢
  rw [stepPlan, eof, next, planAlike same]
  exact talliesBehind (actAlike (planFits _ vars block shows.ended) shows.located
    (fun path member => opens path (List.mem_append_right _ member)) alike) _

end

end MakeTree
