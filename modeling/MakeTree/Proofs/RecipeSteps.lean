import MakeTree.Proofs.Deeds
import MakeTree.Proofs.PathNames

/-! Steps of recipes. Only directives change variables there. Where a step runs is decided by the `cd`
steps before it in the same recipe, and the manifest of a cargo step is named by the first flag among
its words. -/
namespace MakeTree
open Text MakeTree.Action LineStream

variable {setting : Setting} {vars : Variables}

namespace Recipe

def manifestOf : List Text → Option Text
  | [] => none
  | word :: rest =>
    if word = manifestFlag then rest.head?
    else if startsWith (manifestFlag ++ ['=']) word then some (word.drop (manifestFlag.length + 1))
    else manifestOf rest

def moved (files : FileTree) (directory : Text) : Statement → Text
  | .command text => match words text with
    | word :: target :: _ =>
      if word = cdWord ∧ files.isDirectory (Path.normalJoin directory target) = true then
        Path.normalJoin directory target
      else directory
    | _ => directory
  | _ => directory

def cursor (files : FileTree) (directory : Text) (steps : List Statement) : Text :=
  steps.foldl (moved files) directory

def directoryOf (root directory command : Text) : Option Text :=
  (manifestOf (words command)).bind fun manifest =>
    (Path.relativeTo? (Path.normalJoin directory manifest) root).map Path.seenDirectory

def Names (root directory : Text) (step : Statement) : Prop :=
  ∀ subcommand seen command, step = .cargo subcommand seen command →
    seen = directoryOf root directory command

def NameAll (setting : Setting) : Text → List Statement → Prop
  | _, [] => True
  | directory, step :: rest =>
    Names setting.root directory step ∧ NameAll setting (moved setting.files directory step) rest

theorem nameAllAppend {directory : Text} (first second : List Statement) :
    NameAll setting directory (first ++ second) ↔ NameAll setting directory first ∧
      NameAll setting (cursor setting.files directory first) second := by
  induction first generalizing directory with
  | nil => simp [NameAll, cursor]
  | cons step rest ih =>
    simp only [List.cons_append, NameAll, ih, cursor, List.foldl_cons, and_assoc]

theorem cursorConcat (files : FileTree) (directory : Text) (steps : List Statement)
    (step : Statement) :
    cursor files directory (steps ++ [step]) = moved files (cursor files directory steps) step := by
  simp [cursor]

theorem changeDirectoryLeaves (files : FileTree) {line target : Text} {rest : List Text}
    (location : Option Location) (directory : Text) (cd : words line = cdWord :: target :: rest) :
    (changeDirectory files target location).Leaves directory fun done _ next =>
      done = [] ∧ next = moved files directory (.command line) := by
  unfold changeDirectory moved
  simp only [cd, true_and]
  refine leavesState (leavesTell rfl (leavesIte (fun there => leavesTell rfl ?_) fun missing => ?_))
  · exact ⟨rfl, (if_pos there).symm⟩
  · exact ⟨rfl, (if_neg missing).symm⟩

theorem findManifestLeaves {σ : Type} (location : Option Location) (words : List Text) (s : σ) :
    (findManifest location words).Leaves s fun done found t =>
      done = [] ∧ found = manifestOf words ∧ t = s := by
  induction words with
  | nil => exact leavesPure ⟨rfl, rfl, rfl⟩
  | cons word rest ih =>
    unfold findManifest manifestOf
    split
    · cases rest with
      | nil => exact leavesTell rfl (leavesPure ⟨rfl, rfl, rfl⟩)
      | cons path rest => exact leavesPure ⟨rfl, rfl, rfl⟩
    · split
      · exact leavesPure ⟨rfl, rfl, rfl⟩
      · exact ih

theorem manifestDirectoryLeaves (root manifest : Text) (location : Option Location)
    (directory : Text) :
    (manifestDirectory root manifest location).Leaves directory fun done seen t =>
      done = [] ∧ t = directory ∧
      seen = (Path.relativeTo? (Path.normalJoin directory manifest) root).map Path.seenDirectory := by
  unfold manifestDirectory
  refine leavesState ?_
  simp only
  split
  · rename_i outside
    exact leavesTell rfl (leavesPure ⟨rfl, rfl, by rw [outside]; rfl⟩)
  · rename_i relative inside
    exact leavesPure ⟨rfl, rfl, by rw [inside]; rfl⟩

theorem commandMoves {files : FileTree} {line : Text} (directory : Text)
    (other : ∀ target rest, words line ≠ cdWord :: target :: rest) :
    moved files directory (.command line) = directory := by
  unfold moved
  simp only
  split
  · rename_i word target rest split
    have apart : word ≠ cdWord := fun same => other target rest (same ▸ split)
    simp [apart]
  · rfl

def Took (setting : Setting) (directory : Text) (step : Statement) (next : Text) : Prop :=
  Names setting.root directory step ∧ next = moved setting.files directory step

theorem commandTook {line directory : Text}
    (other : ∀ target rest, words line ≠ cdWord :: target :: rest) :
    Took setting directory (.command line) directory :=
  ⟨fun _ _ _ same => (by cases same), (commandMoves directory other).symm⟩

theorem readCargoLeaves {line : Text} (location : Option Location) (directory : Text)
    (cargo : (words line).head? = some cargoWord) :
    (readCargo setting.root line location).Leaves directory fun done step next =>
      done = [] ∧ Took setting directory step next := by
  have other : ∀ target rest, words line ≠ cdWord :: target :: rest := by
    intro target rest cd
    rw [cd] at cargo
    have apart : cdWord ≠ cargoWord := by decide +kernel
    exact apart (Option.some.inj cargo)
  have named : ∀ {subcommand seen}, seen = directoryOf setting.root directory line →
      Took setting directory (.cargo subcommand seen line) directory := by
    rintro subcommand seen rfl
    refine ⟨fun _ _ _ same => ?_, rfl⟩
    cases same
    rfl
  unfold readCargo
  split
  · exact leavesTell rfl (leavesPure ⟨rfl, commandTook other⟩)
  · refine leavesBind (findManifestLeaves location _ _) fun _ manifest t found => ?_
    obtain ⟨rfl, rfl, rfl⟩ := found
    split
    · rename_i none
      exact leavesPure ⟨rfl, named (by simp [directoryOf, none])⟩
    · rename_i manifest some
      refine leavesBind (manifestDirectoryLeaves _ manifest location _) fun _ seen t sees => ?_
      obtain ⟨rfl, rfl, rfl⟩ := sees
      exact leavesPure ⟨rfl, named (by simp [directoryOf, some])⟩

theorem variableTook {directory : Text} {step : Statement}
    (directive : (∃ name value, step = .exported name value) ∨ ∃ name, step = .unexported name) :
    Took setting directory step directory := by
  obtain ⟨name, value, rfl⟩ | ⟨name, rfl⟩ := directive
  · exact ⟨fun _ _ _ same => (by cases same), rfl⟩
  · exact ⟨fun _ _ _ same => (by cases same), rfl⟩

theorem readStepLeaves (line : Text) (location : Option Location) (directory : Text) :
    (readStep setting vars line location).Leaves directory fun done read next =>
      done = (stepChange line).toList ∧ Took setting directory read.1 next := by
  have changes : ∀ keyword, (keyword = .exported ∨ keyword = .unexported) →
      Keyword.ofLine? line = some keyword →
      (readVariable vars (trim line) location).Leaves directory fun done read next =>
        done = (stepChange line).toList ∧ Took setting directory read.1 next := by
    intro keyword either found
    refine leavesWeaken (readVariableLeaves _ _ _ _) fun done step next read => ?_
    obtain ⟨changed, rfl, directive⟩ := read
    refine ⟨?_, variableTook directive⟩
    rcases either with rfl | rfl
    · rw [changed, stepChange, found]
    · rw [changed, stepChange, found]
  unfold readStep
  simp only [keywordTrim]
  split
  · rename_i comment
    have none := hashKeyword comment
    rw [keywordTrim] at none
    have unchanged : stepChange line = Option.none :=
      stepChangeNone (by simp [none]) (by simp [none])
    exact leavesPure ⟨by rw [unchanged]; rfl, fun _ _ _ same => (by cases same), rfl⟩
  split
  · rename_i keyword
    exact changes _ (.inl rfl) keyword
  · rename_i keyword
    exact changes _ (.inr rfl) keyword
  · rename_i noExport noUnexport
    rw [stepChangeNone noExport noUnexport]
    split
    · exact leavesFail
    · rename_i word rest split
      have first : (words (trim line)).head? = some word := by rw [split]; rfl
      refine leavesIte (fun cargo => ?_) fun _ => ?_
      · refine leavesBind (readCargoLeaves _ _ (cargo ▸ first)) fun _ step next took => ?_
        obtain ⟨rfl, took⟩ := took
        exact leavesPure ⟨rfl, took⟩
      refine leavesIte (fun cd => ?_) fun other => leavesPure ⟨rfl, commandTook fun _ _ cd => ?_⟩
      · cases rest with
        | nil =>
          refine leavesTell rfl (leavesPure ⟨rfl, commandTook fun _ _ cd => ?_⟩)
          simp [split] at cd
        | cons target rest =>
          refine leavesBind (changeDirectoryLeaves _ _ _ (cd ▸ split)) fun _ _ next moves => ?_
          obtain ⟨rfl, moves⟩ := moves
          exact leavesPure ⟨rfl, fun _ _ _ same => (by cases same), moves⟩
      · rw [split] at cd
        exact other (List.cons.inj cd).1

theorem stepWithin (setting : Setting) (vars : Variables) (line directory : Text)
    (location : Option Location) (s : LineStream) :
    (within directory (readStep setting vars line location)).Leaves s fun done read t =>
      done = (stepChange line).toList ∧ t = s ∧ Took setting directory read.1.1 read.2 :=
  leavesWithin (leavesWeaken (readStepLeaves line location directory)
    fun _ _ _ read => ⟨read.1, rfl, read.2⟩)

end Recipe

theorem openRuleLeaves (setting : Setting) (vars : Variables) (line : Text) (s : LineStream) :
    (openRule setting vars line).Leaves s fun done read t =>
      done = (stepChange (inlineStep (trim line))).toList ∧ t = s ∧
      ∃ header directory recipe, read.1 = .rule header directory recipe ∧
        Recipe.NameAll setting setting.root recipe ∧
        directory = Recipe.cursor setting.files setting.root recipe := by
  unfold openRule inlineStep
  refine leavesState ?_
  cases cutAt ':' (trim line) with
  | mk name rest? =>
    cases rest? with
    | none => exact leavesFail
    | some rest =>
      simp only
      refine leavesIte (fun _ => leavesFail) fun _ => ?_
      refine leavesIte (fun blank => ?_) fun _ => ?_
      · rw [stepChangeBlank blank]
        exact leavesPure ⟨rfl, rfl, _, _, _, rfl, trivial, rfl⟩
      · refine leavesBind (Recipe.stepWithin setting _ _ _ _ s) fun done read t took => ?_
        obtain ⟨rfl, rfl, named, next⟩ := took
        exact leavesPure ⟨List.append_nil _, rfl, _, _, _, rfl, ⟨named, trivial⟩, next⟩

end MakeTree
