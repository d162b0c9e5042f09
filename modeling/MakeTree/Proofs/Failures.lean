import MakeTree.Proofs.Faults
import MakeTree.Proofs.Headers

/-! The kinds of failure there are. No reader of words is handed a line without any, and the place of
a line is known whenever it is read. -/
namespace MakeTree
open Text MakeTree.Action LineStream

inductive FailureKind where
  | directive
  | target
  | exporting
  | including
  | unterminated
  | access
  | encoding
  deriving DecidableEq, Repr

def Cause.kind? : Cause → Option FailureKind
  | .unmatched _ | .noCondition => some .directive
  | .noTarget => some .target
  | .noVariable _ | .noAssignment => some .exporting
  | .noIncludePath => some .including
  | .unterminated => some .unterminated
  | .cannotOpen .. => some .access
  | .undecodable _ => some .encoding
  | .noWords | .nullPath => none

theorem findingKind {cause : Cause} (finding : cause.isFinding = true) :
    ∃ kind, cause.kind? = some kind := by
  cases cause with
  | noWords | nullPath => cases finding
  | _ => exact ⟨_, rfl⟩

theorem trimNone {line : Text} (blank : allBlank line = true) : trim line = [] := by
  have left : trimLeft line = [] := List.dropWhile_eq_nil_iff.mpr (List.all_eq_true.mp blank)
  rw [trim, left]
  rfl

theorem readStepWords (setting : Setting) (vars : Variables) (line : Text)
    (location : Option Location) (directory : Text) :
    (Recipe.readStep setting vars line location none directory).result = .error ⟨.noWords, none⟩ ↔
      allBlank line = true := by
  constructor
  · intro failed
    by_contra solid
    have yields := @Recipe.readStepYields location setting vars line (by simpa using solid) directory
    cases (yieldsFailed yields failed).1
  · intro blank
    unfold Recipe.readStep
    rw [trimNone blank]
    rfl

theorem readVariableWords {σ : Type} (vars : Variables) (line : Text) (location : Option Location)
    (s : σ) :
    (readVariable vars line location none s).result = .error ⟨.noWords, none⟩ ↔
      allBlank line = true := by
  constructor
  · intro failed
    by_contra solid
    have yields := @readVariableYields σ location vars line (by simpa using solid) s
    cases (yieldsFailed yields failed).1
  · intro blank
    unfold readVariable
    rw [if_pos ((firstWordBlank line).mpr blank)]
    rfl

structure Stage.Located (setting : Setting) (stage : Stage) : Prop where
  taken : stage.stream.eof = false → ∃ location, stage.stream.nextLocation = some location ∧
    ∀ deferred events t line, take deferred none stage.stream = ⟨events, t, .ok line⟩ →
      t.location = some location
  headed : ∀ events t block header directory recipe vars,
    stage.block.step setting stage.vars none stage.stream =
        ⟨events, t, .ok (.nest block (.rule header directory recipe), vars)⟩ →
      ∃ location, stage.stream.nextLocation = some location ∧ header.definedIn = some location.path

theorem stageLocated (setting : Setting) {stage : Stage} (formed : stage.Formed) :
    stage.Located setting := by
  obtain ⟨lines, shows⟩ := formed.shows
  constructor
  · intro more
    cases lines with
    | nil => rw [shows.eof] at more; cases more
    | cons line rest =>
      refine ⟨line.location, shows.nextLocation, fun deferred events t text ok => ?_⟩
      cases deferred with
      | true =>
        rw [takeDeferred] at ok
        cases ok
        exact shows.nextLocation
      | false =>
        rw [(takeReturned ok).2]
        exact (foundKeeps _ _).2.trans shows.nextLocation
  · intro events t block header directory recipe vars steps
    obtain ⟨_, rest, _, moves⟩ := stepMoves shows steps
    obtain ⟨line, head, path⟩ := movesRule moves
    exact ⟨line.location, by rw [shows.nextLocation, head]; rfl, path⟩

def Failure.IsKnown (failure : Failure) (events : List Event) : Prop :=
  (∃ kind, failure.cause.kind? = some kind) ∨ failure = ⟨.nullPath, none⟩ ∧ AskedNull events

structure FailsProperly (files : FileTree) (workDir? : Option Text) (origin : Origin) : Prop where
  ends : ∃ o, origin.Comes files workDir? o ∧
    (∃ least, ∀ more, origin.read files workDir? (least + more) = o.settled) ∧
    ((∃ makefile, o.result = .ok makefile) ∨
      ∃ failure, o.result = .error failure ∧ failure.IsKnown o.events)
  kinds : ∀ fuel failure, (origin.read files workDir? fuel).result = .error failure →
    failure.IsKnown (origin.read files workDir? fuel).events
  steps : ∀ setting vars line location directory,
    (Recipe.readStep setting vars line location none directory).result = .error ⟨.noWords, none⟩ ↔
      allBlank line = true
  directives : ∀ vars line location (s : LineStream),
    (readVariable vars line location none s).result = .error ⟨.noWords, none⟩ ↔
      allBlank line = true
  located : ∀ stage, origin.Passes files workDir? stage → stage.Located (origin.setting files)

theorem readKnown {files : FileTree} {workDir? : Option Text} {fuel : Nat} {origin : Origin}
    {failure : Failure} (failed : (origin.read files workDir? fuel).result = .error failure) :
    failure.IsKnown (origin.read files workDir? fuel).events := by
  rw [Origin.readApply] at failed ⊢
  exact (yieldsFailed (readAllYields fuel files _ workDir? _ _) failed).imp_left findingKind

/-- A makefile is read, or the failure is one that a makefile or a file can be blamed for. -/
theorem failuresKnown (files : FileTree) (workDir? : Option Text) (origin : Origin)
    (acyclic : ∀ place, ¬ Relation.TransGen (origin.Includes files workDir?) place place) :
    FailsProperly files workDir? origin where
  ends := by
    obtain ⟨o, comes⟩ := readEnds acyclic
    obtain ⟨least, same⟩ := Origin.comesRead comes
    refine ⟨o, comes, ⟨least, same⟩, ?_⟩
    cases result : o.result with
    | ok makefile => exact .inl ⟨makefile, rfl⟩
    | error failure =>
      have known : failure.IsKnown (origin.read files workDir? (least + 0)).events := by
        refine readKnown ?_
        rw [same 0, Outcome.settledError]
        exact result
      rw [same 0] at known
      exact .inr ⟨failure, rfl, known⟩
  kinds := fun _ _ => readKnown
  steps := readStepWords
  directives := readVariableWords
  located := fun _ passes => stageLocated _ (Origin.passFormed passes)

def hollowSteps : FileTree where
  workingDirectory := ['/']
  entries := [
    (["Makefile".toList], .file (encodeUtf8 "ifeq x\nelse include a\nendif\n".toList)),
    (["a".toList], .file (encodeUtf8 "\\\n\nt: u ; \\\n\n\t\\\n\n\texport\n".toList))]

theorem hollowSteps.failures :
    (∀ place, ¬ Relation.TransGen
      ((Origin.file "Makefile".toList).Includes hollowSteps none) place place) ∧
    (((Origin.file "Makefile".toList).read hollowSteps none 20).result =
      .error ⟨.noVariable "export".toList, some ⟨"/a".toList, 7⟩⟩) ∧
    FailsProperly hollowSteps none (.file "Makefile".toList) := by
  have acyclic : ∀ place, ¬ Relation.TransGen
      ((Origin.file "Makefile".toList).Includes hollowSteps none) place place := by
    refine risingAcyclic (fun place => (hollowSteps.entries.map Prod.fst).idxOf place) ?_
    decide +kernel
  exact ⟨acyclic, by decide +kernel,
    failuresKnown hollowSteps none (.file "Makefile".toList) acyclic⟩

end MakeTree
