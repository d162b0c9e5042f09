import MakeTree.Proofs.Manifests

/-! Where the manifests of cargo steps are seen from the makefile. The directory of a step is a path
that leads down from the directory of the makefile to that of the manifest, and there is none exactly
if no manifest is named or it lies outside. -/
namespace MakeTree
open Text

namespace Path
variable {slashes other : Nat} {root these : List Text}

structure SeenFrom (root path seen : Text) : Prop where
  normal : normalize seen = seen
  relative : isAbsolute seen = false
  down : ['.', '.'] ∉ components seen
  here : path = root → seen = ['.']
  below : path ≠ root → normalJoin root seen = parent path

theorem rootedParent (rooted : IsRooted slashes these) :
    ∃ before, IsRooted slashes before ∧ parent (render slashes these) = render slashes before := by
  rcases List.eq_nil_or_concat these with rfl | ⟨before, last, rfl⟩
  · exact ⟨[], rooted, parentRoot rooted.lead⟩
  · rw [List.concat_eq_append] at rooted ⊢
    exact ⟨before, rooted.front, parentRender rooted⟩

theorem normalJoinAbsolute {path : Text} (absolute : isAbsolute path = true) (suffix : Text) :
    isAbsolute (normalJoin path suffix) = true := by
  obtain ⟨slashes, these, rooted, same⟩ := normalizeRooted (joinAbsolute absolute suffix)
  rw [normalJoin, same]
  exact renderAbsolute rooted

theorem insideSeen {rest : List Text} (rooted : IsRooted slashes (root ++ rest)) :
    SeenFrom (render slashes root) (render slashes (root ++ rest))
      (seenDirectory (render 0 rest)) := by
  rcases List.eq_nil_or_concat rest with rfl | ⟨before, last, rfl⟩
  · have dot : seenDirectory (render 0 []) = ['.'] := rfl
    rw [dot, List.append_nil]
    obtain ⟨normal, relative, down⟩ := normalizeSeen rooted.behind
    exact ⟨normal, relative, down, fun _ => rfl, fun apart => absurd rfl apart⟩
  · rw [List.concat_eq_append] at rooted ⊢
    have front : IsRooted slashes (root ++ before) := by
      rw [← List.append_assoc] at rooted
      exact rooted.front
    rw [seenRender rooted.behind]
    obtain ⟨normal, relative, down⟩ := normalizeSeen front.behind
    refine ⟨normal, relative, down, fun same => ?_, fun _ => ?_⟩
    · have names := congrArg names same
      rw [renderNames rooted, renderNames rooted.front] at names
      simp at names
    · rw [normalJoinRender front, ← List.append_assoc, parentRender]
      rwa [List.append_assoc]

theorem relativeSeen (rooted : IsRooted slashes these) (base : IsRooted other root)
    (deep : render other root ≠ ['/']) :
    (relativeTo? (render slashes these) (render other root) = none ↔
      ¬ Within (render other root) (render slashes these)) ∧
    ∀ relative, relativeTo? (render slashes these) (render other root) = some relative →
      SeenFrom (render other root) (render slashes these) (seenDirectory relative) := by
  by_cases inside : Within (render other root) (render slashes these)
  · obtain ⟨lead, names⟩ := id inside
    rw [renderSlashes rooted, renderSlashes base] at lead
    rw [renderNames rooted, renderNames base] at names
    obtain ⟨rest, rfl⟩ := names
    subst lead
    rw [relativeInside rooted]
    refine ⟨⟨fun none => (by cases none), fun outside => absurd inside outside⟩, ?_⟩
    rintro relative ⟨⟩
    exact insideSeen rooted
  · rw [relativeOutside rooted base deep inside]
    exact ⟨⟨fun _ => inside, fun _ => rfl⟩, fun _ some => by cases some⟩

end Path
namespace Recipe
open MakeTree.Path

structure SeesManifest (files : FileTree) (root : Text) (before : List Statement)
    (directory : Option Text) (command : Text) : Prop where
  nowhere : directory = none ↔ ∀ manifest, manifestOf (words command) = some manifest →
    ¬ Within root (normalJoin (cursor files root before) manifest)
  seen : ∀ manifest seen, manifestOf (words command) = some manifest → directory = some seen →
    SeenFrom root (normalJoin (cursor files root before) manifest) seen

theorem cursorAbsolute {files : FileTree} {directory : Text} (steps : List Statement)
    (absolute : isAbsolute directory = true) : isAbsolute (cursor files directory steps) = true := by
  induction steps generalizing directory with
  | nil => exact absolute
  | cons step rest ih =>
    refine ih ?_
    unfold moved
    split
    · split
      · split
        · exact normalJoinAbsolute absolute _
        · exact absolute
      · exact absolute
    · exact absolute

theorem directorySeen {files : FileTree} {slashes : Nat} {root : List Text}
    (base : IsRooted slashes root) (deep : render slashes root ≠ ['/']) (before : List Statement)
    (command : Text) :
    SeesManifest files (render slashes root) before
      (directoryOf (render slashes root) (cursor files (render slashes root) before) command)
      command := by
  unfold directoryOf
  cases named : manifestOf (words command) with
  | none => exact ⟨by simp [named], fun _ _ some => by simp [named] at some⟩
  | some manifest =>
    have absolute := @cursorAbsolute files _ before (renderAbsolute base)
    obtain ⟨lead, these, rooted, same⟩ := normalizeRooted (joinAbsolute absolute manifest)
    rw [← normalJoin] at same
    obtain ⟨nowhere, seen⟩ := relativeSeen rooted base deep
    rw [← same] at nowhere seen
    refine ⟨by simpa [named] using nowhere, fun word directory flag found => ?_⟩
    cases Option.some.inj (named.symm.trans flag)
    obtain ⟨relative, relates, rfl⟩ := Option.map_eq_some_iff.mp found
    exact seen relative relates

theorem nameAllSees {files : FileTree} {slashes : Nat} {root : List Text}
    (base : IsRooted slashes root) (deep : render slashes root ≠ ['/'])
    {before after : List Statement} {subcommand : Subcommand} {directory : Option Text}
    {command : Text}
    (placed : Placed ⟨files, render slashes root⟩
      (before ++ .cargo subcommand directory command :: after)) :
    SeesManifest files (render slashes root) before directory command := by
  obtain ⟨_, named, _⟩ := (nameAllAppend _ _).mp placed
  cases named subcommand directory command rfl
  exact directorySeen base deep before command

end Recipe

theorem readRoot {files : FileTree} {workDir? : Option Text} {fuel : Nat} {origin : Origin}
    {makefile : Makefile} (ok : (origin.read files workDir? fuel).result = .ok (some makefile)) :
    origin.setting files = ⟨files, makefile.root⟩ := by
  obtain ⟨events, t, begun, _⟩ := Origin.readReturned ok
  rw [Origin.readStarted begun] at ok
  obtain ⟨read, _, same⟩ := mapOk ok
  obtain ⟨out, _, rfl⟩ := Option.map_eq_some_iff.mp same
  rfl

theorem settingRooted {files : FileTree} (origin : Origin)
    (absolute : Path.isAbsolute files.workingDirectory = true) :
    ∃ slashes root, Path.IsRooted slashes root ∧
      (origin.setting files).root = Path.render slashes root := by
  have full : ∀ path, Path.isAbsolute (if Path.isAbsolute path then path
      else Path.join files.workingDirectory path) = true := by
    intro path
    split
    · assumption
    · exact Path.joinAbsolute absolute path
  obtain ⟨slashes, these, rooted, same⟩ := Path.normalizeRooted (full (origin.resolved files).path)
  obtain ⟨before, base, parent⟩ := Path.rootedParent rooted
  exact ⟨slashes, before, base, by rw [← parent, ← same]; rfl⟩

theorem manifestsSeen (files : FileTree) (workDir? : Option Text) (fuel : Nat) (origin : Origin)
    (absolute : Path.isAbsolute files.workingDirectory = true) (makefile : Makefile)
    (ok : (origin.read files workDir? fuel).result = .ok (some makefile)) (deep : makefile.root ≠ ['/']) :
    Path.isAbsolute makefile.root = true ∧ Path.normalize makefile.root = makefile.root ∧
    ∀ recipe ∈ recipesIn makefile.statements, ∀ before subcommand directory command after,
      recipe = before ++ .cargo subcommand directory command :: after →
      Recipe.SeesManifest files makefile.root before directory command := by
  obtain ⟨slashes, root, base, same⟩ := settingRooted origin absolute
  have placed := readPlaced ok
  rw [readRoot ok] at placed same
  simp only at same
  rw [same] at deep placed ⊢
  refine ⟨Path.renderAbsolute base, Path.normalizeRender base, ?_⟩
  rintro recipe member before subcommand directory command after rfl
  exact Recipe.nameAllSees base deep (placed _ member)

def cargoCrates : FileTree where
  workingDirectory := "/r".toList
  entries := [(["r".toList], .directory), (["r".toList, "a".toList], .directory),
    (["r2".toList], .directory)]

namespace cargoCrates

def origin : Origin := .text "Makefile".toList (joinWith ['\n'] (List.map String.toList
  ["t: ; cd a",
   "\tcargo build --manifest-path b/Cargo.toml",
   "\tcd b",
   "\tcargo run --manifest-path=..",
   "ifeq x",
   "u:",
   "\tcargo clean --manifest-path Cargo.toml",
   "\tcd ../r2",
   "\tcargo update --manifest-path Cargo.toml",
   "endif"]))

def recipes : List (List Statement) :=
  [[.command "cd a".toList,
    .cargo .build (some "a/b".toList) "cargo build --manifest-path b/Cargo.toml".toList,
    .command "cd b".toList,
    .cargo .run (some ['.']) "cargo run --manifest-path=..".toList],
   [.cargo .clean (some ['.']) "cargo clean --manifest-path Cargo.toml".toList,
    .command "cd ../r2".toList,
    .cargo .update none "cargo update --manifest-path Cargo.toml".toList]]

theorem directories :
    Path.isAbsolute cargoCrates.workingDirectory = true ∧
    ∃ makefile, (origin.read cargoCrates none 16).result = .ok (some makefile) ∧ makefile.root ≠ ['/'] ∧
      recipesIn makefile.statements = recipes ∧
      Path.isAbsolute makefile.root = true ∧ Path.normalize makefile.root = makefile.root ∧
      ∀ recipe ∈ recipesIn makefile.statements, ∀ before subcommand directory command after,
        recipe = before ++ .cargo subcommand directory command :: after →
        Recipe.SeesManifest cargoCrates makefile.root before directory command := by
  have reads : (origin.read cargoCrates none 16).result.map
      (Option.map fun makefile => (makefile.root, recipesIn makefile.statements)) =
        .ok (some ("/r".toList, recipes)) := by decide +kernel
  obtain ⟨read, ok, same⟩ := mapOk reads
  obtain ⟨makefile, rfl, pair⟩ := Option.map_eq_some_iff.mp same
  obtain ⟨root, steps⟩ := Prod.mk.inj pair
  have absolute : Path.isAbsolute cargoCrates.workingDirectory = true := by decide +kernel
  have deep : makefile.root ≠ ['/'] := by
    rw [root]
    decide +kernel
  exact ⟨absolute, makefile, ok, deep, steps,
    manifestsSeen cargoCrates none 16 origin absolute makefile ok deep⟩

end cargoCrates
end MakeTree
