import MakeTree.Proofs.Faults
import MakeTree.Proofs.PathJoins

/-! The directory that recipe steps run in, from step to step. Only a `cd` step whose directory exists
moves it, whatever else the steps are and whether they fail. The directory is normalized at every such
step; normalizing once, behind the last of them, gives the same. -/
namespace MakeTree
open Text MakeTree.Action

namespace Text

theorem firstWordBehind {c : Char} (blank : isBlank c = true) (rest : Text) :
    firstWord (c :: rest) = firstWord rest := by
  rw [firstWord, firstWord, trimLeft, List.dropWhile_cons_of_pos blank]
  rfl

theorem wordsPast {c : Char} (blank : isBlank c = true) (rest : Text) :
    words (c :: rest) = words rest := by
  rw [words.eq_def]
  exact if_pos blank

theorem wordsApart {c d : Char} (solid : ¬isBlank c = true) (blank : isBlank d = true)
    (rest : Text) : words (c :: d :: rest) = [c] :: words (d :: rest) := by
  rw [words.eq_def]
  simp [solid, blank]

theorem wordsTogether {c d : Char} {rest word : Text} {others : List Text}
    (solid : ¬isBlank c = true) (more : ¬isBlank d = true)
    (found : words (d :: rest) = word :: others) :
    words (c :: d :: rest) = (c :: word) :: others := by
  rw [words.eq_def]
  simp [solid, more, found]

theorem wordsFirst {t word : Text} {others : List Text} (split : words t = word :: others) :
    firstWord t = word := by
  fun_induction words t generalizing word others with
  | case1 => cases split
  | case2 c rest blank ih =>
    rw [firstWordBehind blank]
    exact ih split
  | case3 c solid =>
    cases split
    simp [firstWord, trimLeft, solid]
  | case4 c solid d rest blank ih =>
    cases split
    simp [firstWord, trimLeft, solid, blank]
  | case5 c solid d rest more none ih =>
    rw [wordsBlank] at none
    exact absurd (List.all_eq_true.mp none d (List.mem_cons_self ..)) more
  | case6 c solid d rest more first later found ih =>
    rw [found] at split
    cases split
    have onward := ih found
    simp only [firstWord, trimLeft, List.dropWhile_cons_of_neg solid,
      List.dropWhile_cons_of_neg more] at onward ⊢
    rw [← onward]
    exact List.takeWhile_cons_of_pos (by simp [solid])

theorem wordsLeft (t : Text) : words (trimLeft t) = words t := by
  induction t with
  | nil => rfl
  | cons c rest ih =>
    by_cases blank : isBlank c = true
    · rw [trimLeft, List.dropWhile_cons_of_pos blank, wordsPast blank]
      exact ih
    · rw [trimLeft, List.dropWhile_cons_of_neg blank]

theorem wordsRight (t : Text) {gap : Text} (blank : allBlank gap = true) :
    words (t ++ gap) = words t := by
  have none : words gap = [] := (wordsBlank gap).mpr blank
  fun_induction words t with
  | case1 => exact none
  | case2 c rest before ih => rwa [List.cons_append, wordsPast before]
  | case3 c solid =>
    cases gap with
    | nil => simp [words, solid]
    | cons d gap =>
      have first : isBlank d = true := List.all_eq_true.mp blank d (List.mem_cons_self ..)
      rw [List.singleton_append, wordsApart solid first, none]
  | case4 c solid d rest before ih =>
    rw [List.cons_append, List.cons_append, wordsApart solid before]
    exact congrArg _ ih
  | case5 c solid d rest more nothing ih =>
    rw [wordsBlank] at nothing
    exact absurd (List.all_eq_true.mp nothing d (List.mem_cons_self ..)) more
  | case6 c solid d rest more word others found ih =>
    rw [found] at ih ⊢
    exact wordsTogether solid more ih

theorem wordsTrim (t : Text) : words (trim t) = words t := by
  obtain ⟨behind, blank, split⟩ := trimSplit t
  rw [← wordsLeft t, split, wordsRight _ blank]

end Text

namespace Action
variable {σ α β : Type} {x y : Action σ α} {s t : σ}

def Arrives (x : Action σ α) (s t : σ) : Prop := (x none s).state = t

theorem arrivesPure (a : α) : (pure a : Action σ α).Arrives s s := rfl

theorem arrivesFail (failure : Failure) : (fail failure : Action σ α).Arrives s s := rfl

theorem arrivesBind {f : α → Action σ β} (first : x.Arrives s t)
    (rest : ∀ a, (f a).Arrives t t) : (x >>= f).Arrives s t := by
  unfold Arrives at first ⊢
  cases outcome : x none s with
  | mk events u result =>
    rw [outcome] at first
    cases first
    cases result with
    | error failure => rw [bindFailed outcome]
    | ok a =>
      rw [bindReturned outcome]
      exact rest a

theorem arrivesState {f : σ → Action σ α} (rest : (f s).Arrives s t) :
    (state >>= f).Arrives s t := by
  rw [Arrives, bindSilent (stateApply none s)]
  exact rest

theorem arrivesTell {event : Event} (rest : x.Arrives s t) :
    (emit event >>= fun _ => x).Arrives s t := by
  rw [Arrives, bindReturned (emitApply event none s)]
  exact rest

theorem arrivesIte {c : Prop} [Decidable c] (yes : c → x.Arrives s t) (no : ¬c → y.Arrives s t) :
    (if c then x else y).Arrives s t := by
  split
  · exact yes ‹_›
  · exact no ‹_›

end Action

namespace Recipe
open MakeTree.Path

theorem findManifestArrives {σ : Type} (location : Option Location) (words : List Text) (s : σ) :
    (findManifest location words).Arrives s s := by
  induction words with
  | nil => exact arrivesPure none
  | cons word rest ih =>
    unfold findManifest
    refine arrivesIte (fun _ => ?_) fun _ => arrivesIte (fun _ => arrivesPure _) fun _ => ih
    split
    · exact arrivesPure _
    · exact arrivesTell (arrivesPure _)

theorem manifestDirectoryArrives (root manifest : Text) (location : Option Location)
    (directory : Text) :
    (manifestDirectory root manifest location).Arrives directory directory := by
  refine arrivesState ?_
  simp only
  split
  · exact arrivesTell (arrivesPure _)
  · exact arrivesPure _

theorem readCargoArrives (root line : Text) (location : Option Location) (directory : Text) :
    (readCargo root line location).Arrives directory directory := by
  unfold readCargo
  split
  · exact arrivesTell (arrivesPure _)
  · refine arrivesBind (findManifestArrives location _ _) fun manifest => ?_
    split
    · exact arrivesPure _
    · exact arrivesBind (manifestDirectoryArrives root _ location _) fun _ => arrivesPure _

def cdTarget? (line : Text) : Option Text :=
  match words line with
  | word :: target :: _ => if word = cdWord then some target else none
  | _ => none

def stepFrom (files : FileTree) (directory line : Text) : Text :=
  match cdTarget? line with
  | some target =>
    if files.isDirectory (normalJoin directory target) then normalJoin directory target
    else directory
  | none => directory

theorem stepElsewhere {files : FileTree} {line : Text} (none : cdTarget? line = none)
    (directory : Text) : stepFrom files directory line = directory := by
  simp [stepFrom, none]

theorem targetMissing {line : Text} (other : firstWord line ≠ cdWord) : cdTarget? line = none := by
  unfold cdTarget?
  split
  · rename_i word target rest split
    exact if_neg fun cd => other ((wordsFirst split).trans cd)
  · rfl

theorem stepOther {line : Text} (other : firstWord line ≠ cdWord) (files : FileTree)
    (directory : Text) : stepFrom files directory line = directory :=
  stepElsewhere (targetMissing other) directory

theorem commentOther {line : Text} (comment : startsWith ['#'] (trim line) = true) :
    firstWord line ≠ cdWord := by
  obtain ⟨more, split⟩ := List.isPrefixOf_iff_prefix.mp comment
  have first : (firstWord (['#'] ++ more)).head? = some '#' := rfl
  rw [split, firstWordTrim] at first
  intro cd
  rw [cd] at first
  cases first

theorem directiveOther {line : Text} {keyword : Keyword}
    (found : Keyword.ofLine? (trim line) = some keyword) : firstWord line ≠ cdWord := by
  intro cd
  rw [Keyword.ofLine?, firstWordTrim, cd, show Keyword.ofText? cdWord = none by decide +kernel] at found
  cases found

theorem changeDirectoryArrives {files : FileTree} {line target : Text} {rest : List Text}
    (cd : words line = cdWord :: target :: rest) (location : Option Location) (directory : Text) :
    (changeDirectory files target location).Arrives directory (stepFrom files directory line) := by
  have named : cdTarget? line = some target := by simp [cdTarget?, cd]
  simp only [stepFrom, named]
  refine arrivesState (arrivesTell (arrivesIte (fun there => arrivesTell ?_) fun missing => ?_))
  · exact (if_pos there).symm
  · exact (if_neg missing).symm

theorem readStepArrives (setting : Setting) (vars : Variables) (line : Text)
    (location : Option Location) (directory : Text) :
    (readStep setting vars line location).Arrives directory
      (stepFrom setting.files directory line) := by
  unfold readStep
  simp only
  split
  · rename_i comment
    rw [stepOther (commentOther comment)]
    exact arrivesPure _
  split
  · rename_i found
    rw [stepOther (directiveOther found)]
    exact (readVariableStateless _ _ _).state _
  · rename_i found
    rw [stepOther (directiveOther found)]
    exact (readVariableStateless _ _ _).state _
  · split
    · rename_i blank
      rw [wordsTrim] at blank
      rw [stepElsewhere (by simp [cdTarget?, blank])]
      exact arrivesFail _
    · rename_i word rest split
      rw [wordsTrim] at split
      have first := wordsFirst split
      refine arrivesIte (fun cargo => ?_) fun _ => arrivesIte (fun cd => ?_) fun other => ?_
      · rw [stepOther (by rw [first, cargo]; decide +kernel)]
        exact arrivesBind (readCargoArrives _ _ _ _) fun _ => arrivesPure _
      · subst cd
        cases rest with
        | nil =>
          rw [stepElsewhere (by simp [cdTarget?, split])]
          exact arrivesTell (arrivesPure _)
        | cons target rest =>
          exact arrivesBind (changeDirectoryArrives split _ _) fun _ => arrivesPure _
      · rw [stepOther (by rwa [first])]
        exact arrivesPure _

def walk (setting : Setting) (directory : Text) (steps : List (Text × Option Location × Variables)) :
    Text :=
  steps.foldl (fun here (line, location, vars) =>
    (readStep setting vars line location none here).state) directory

def cdTargets (files : FileTree) (here : Text) : List Text → List Text
  | [] => []
  | line :: rest =>
    match cdTarget? line with
    | some target =>
      if files.isDirectory (normalJoin here target) then
        target :: cdTargets files (normalJoin here target) rest
      else cdTargets files here rest
    | none => cdTargets files here rest

theorem walkCons (setting : Setting) (directory line : Text) (read : Option Location × Variables)
    (rest : List (Text × Option Location × Variables)) :
    walk setting directory ((line, read) :: rest) =
      walk setting (stepFrom setting.files directory line) rest :=
  congrArg (walk setting · rest) (readStepArrives setting read.2 line read.1 directory)

theorem walkJoined (setting : Setting) (path : Text)
    (steps : List (Text × Option Location × Variables)) :
    walk setting (normalize path) steps =
      normalize ((cdTargets setting.files (normalize path) (steps.map (·.1))).foldl join path) := by
  induction steps generalizing path with
  | nil => rfl
  | cons step rest ih =>
    obtain ⟨line, read⟩ := step
    rw [walkCons]
    simp only [List.map_cons, cdTargets, stepFrom]
    split
    · rename_i target named
      rw [joinNormal, normalJoin]
      split
      · exact ih _
      · exact ih _
    · exact ih _

theorem walkReal (setting : Setting) (directory : Text)
    (steps : List (Text × Option Location × Variables)) :
    walk setting directory steps = directory ∨
      setting.files.isDirectory (walk setting directory steps) = true := by
  induction steps generalizing directory with
  | nil => exact .inl rfl
  | cons step rest ih =>
    obtain ⟨line, read⟩ := step
    rw [walkCons]
    have here : stepFrom setting.files directory line = directory ∨
        setting.files.isDirectory (stepFrom setting.files directory line) = true := by
      unfold stepFrom
      split
      · split
        · exact .inr ‹_›
        · exact .inl rfl
      · exact .inl rfl
    rcases ih (stepFrom setting.files directory line) with same | real
    · rw [same]
      exact here
    · exact .inr real

theorem joinAllAbsolute {path : Text} (absolute : isAbsolute path = true) (targets : List Text) :
    isAbsolute (targets.foldl join path) = true := by
  induction targets generalizing path with
  | nil => exact absolute
  | cons target rest ih => exact ih (joinAbsolute absolute target)

theorem normalizeAbsolute {path : Text} (absolute : isAbsolute path = true) :
    isAbsolute (normalize path) = true := by
  obtain ⟨slashes, these, rooted, same⟩ := normalizeRooted absolute
  rw [same]
  exact renderAbsolute rooted

structure Walks (files : FileTree) (start : Text) (lines : List Text) (last : Text) : Prop where
  joined : last = normalize ((cdTargets files start lines).foldl join start)
  afresh : ∀ before target after, cdTargets files start lines = before ++ target :: after →
    isAbsolute target = true → last = normalize (after.foldl join target)
  absolute : isAbsolute last = true
  normal : normalize last = last
  real : last = start ∨ files.isDirectory last = true

theorem stepsWalk (setting : Setting) (start : Text)
    (steps : List (Text × Option Location × Variables)) :
    (∀ path second third,
      normalJoin (normalJoin path second) third = normalJoin path (join second third)) ∧
    (isAbsolute start = true → normalize start = start →
      Walks setting.files start (steps.map (·.1)) (walk setting start steps)) := by
  refine ⟨normalJoinJoin, fun absolute normal => ?_⟩
  have joined := walkJoined setting start steps
  rw [normal] at joined
  refine ⟨joined, fun before target after split rooted => ?_, ?_, ?_, walkReal setting start steps⟩
  · rw [joined, split, List.foldl_append, List.foldl_cons, joinAbsolutely rooted]
  · rw [joined]
    exact normalizeAbsolute (joinAllAbsolute absolute _)
  · rw [joined, normalizeTwice]

def nestedDirectories : FileTree where
  workingDirectory := ['/']
  entries := [(["r".toList], .directory), (["r".toList, "a".toList], .directory),
    (["r".toList, "a".toList, "b".toList], .directory), (["s".toList], .directory)]

def nestedSteps : List (Text × Option Location × Variables) :=
  ["cd a", "cd c", "", "export", "cd ./b && make", "cd", "cd /s/../r//a/", "\tcd b/.. # up"].map
    fun line => (line.toList, none, .empty)

theorem nestedWalk :
    isAbsolute "/r".toList = true ∧ normalize "/r".toList = "/r".toList ∧
    cdTargets nestedDirectories "/r".toList (nestedSteps.map (·.1)) =
      ["a", "./b", "/s/../r//a/", "b/.."].map String.toList ∧
    Walks nestedDirectories "/r".toList (nestedSteps.map (·.1)) "/r/a".toList := by
  have absolute : isAbsolute "/r".toList = true := by decide +kernel
  have normal : normalize "/r".toList = "/r".toList := by decide +kernel
  have walks := (stepsWalk ⟨nestedDirectories, "/r".toList⟩ "/r".toList nestedSteps).2 absolute normal
  have last : walk ⟨nestedDirectories, "/r".toList⟩ "/r".toList nestedSteps = "/r/a".toList := by
    decide +kernel
  rw [last] at walks
  exact ⟨absolute, normal, by decide +kernel, walks⟩

end Recipe
end MakeTree
