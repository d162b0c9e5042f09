import MakeTree.Proofs.StandInRuns

/-! A makefile by its text and by its file, whatever ends its lines. -/
namespace MakeTree
open Text MakeTree.Action LineStream Origin

variable {files : FileTree} {workDir? : Option Text} {path content other : Text} {place : Place}
  {bytes : List UInt8}

theorem siteSource (site : files.Site (files.absolute path) place) (bytes : List UInt8) :
    ((Origin.file path).resolved (files.insert place (.file bytes))).source?
      (files.insert place (.file bytes)) =
        some (.ofFile (files.absolute path) place bytes []) := by
  have opened : (files.insert place (.file bytes)).openFile
      ((files.insert place (.file bytes)).absolute path) = .ok (place, bytes) := site.opens bytes
  simp only [resolved, source?, FileTree.source?, opened]
  rfl

theorem insertFits (site : files.Site (files.absolute path) place)
    (acyclic : (Origin.file path).Acyclic (files.insert place (.file bytes)) workDir?) :
    (Origin.file path).Fits (files.insert place (.file bytes)) files workDir? where
  directories path := (FileTree.isDirectorySeen site.plain bytes path).symm
  opens := by
    intro stage passes target entered
    rcases FileTree.openSeen site.plain bytes target with same | here | ⟨-, inside, missing⟩
    · exact .inl same.symm
    · exact absurd here (rootUnasked acyclic (siteSource site bytes) rfl passes entered bytes)
    · exact .inr ⟨inside, missing⟩

theorem openingUnheard (path : Text) (events : List Event) :
    messagesFrom .info ([.lookedUp path, .told (opening path)] ++ events) =
      messagesFrom .info events := rfl

theorem startBeside {filled : FileTree} (workDir? : Option Text)
    (based : filled.workingDirectory = files.workingDirectory)
    (opened : filled.openFile path = .ok (place, bytes))
    (bare : (Source.ofFile path place bytes []).bare = .ofText path content) :
    ∃ told s t, (Origin.file path).start filled workDir? none (.empty []) =
        ⟨[.lookedUp path, .told (opening path)] ++ told, s, .ok ()⟩ ∧
      (Origin.text path content).start files workDir? none (.empty []) = ⟨told, t, .ok ()⟩ ∧
      t.bare = s.bare := by
  have workDir : workDirFor files path workDir? = workDirFor filled path workDir? := by
    simp only [workDirFor, FileTree.absolute, based]
  have finished : (Source.ofFile path place bytes []).ending = .finished :=
    congrArg Source.ending bare
  have sound : ∀ source ∈ [Source.ofFile path place bytes []], source.ending = .finished := by
    simpa using finished
  obtain ⟨told, found⟩ := findLineSound
    (s := { empty (workDirFor filled path workDir?) with sources := [.ofFile path place bytes []] })
    sound
  have stacked : [Source.ofText path content].map Source.bare =
      [Source.ofFile path place bytes []].map Source.bare := by
    simp only [List.map_cons, List.map_nil, bare]
    rfl
  have alike : ({ empty (workDirFor files path workDir?) with
      sources := [.ofText path content] } : LineStream).bare =
        ({ empty (workDirFor filled path workDir?) with
          sources := [.ofFile path place bytes []] } : LineStream).bare := by
    simp only [LineStream.bare, workDir, stacked]
  have beside := findLineSame stacked alike
  rw [found] at beside
  cases begun : findLine [.ofText path content] none { empty (workDirFor files path workDir?) with
      sources := [.ofText path content] } with
  | mk events t result =>
    rw [begun] at beside
    simp only [Outcome.onto, Outcome.mk.injEq] at beside
    obtain ⟨rfl, same, rfl⟩ := beside
    refine ⟨events, _, t, ?_, begun, same⟩
    have going := goIntoOpened (s := empty (workDirFor filled path workDir?)) opened
    rw [show (empty (workDirFor filled path workDir?)).sources = [] from rfl, found] at going
    exact going

theorem readMatches {filled : FileTree} (based : filled.workingDirectory = files.workingDirectory)
    (opened : filled.openFile (files.absolute path) = .ok (place, bytes))
    (bare : (Source.ofFile (files.absolute path) place bytes []).bare =
      .ofText (files.absolute path) content)
    (fits : (Origin.file path).Fits filled files workDir?) (fuel : Nat) :
    Outcome.Matches filled files ((Origin.file path).read filled workDir? fuel)
      ((Origin.text (files.absolute path) content).read files workDir? fuel) := by
  have absolute (path : Text) : filled.absolute path = files.absolute path := by
    simp only [FileTree.absolute, based]
  obtain ⟨told, s, t, left, right, alike⟩ := startBeside workDir? based opened bare
  have resolved : (Origin.file path).resolved filled = .file (files.absolute path) :=
    congrArg Origin.file (absolute path)
  have setting : (⟨files, ((Origin.file path).setting filled).root⟩ : Setting) =
      (Origin.text (files.absolute path) content).setting files := by
    simp only [Origin.setting, resolved, absolute]
    rfl
  have made : (Origin.file path).makefile filled =
      (Origin.text (files.absolute path) content).makefile files := by
    funext read
    simp only [Origin.makefile, Origin.setting, resolved, absolute]
    rfl
  have begins : (Origin.file path).Starts filled workDir?
      ([.lookedUp (files.absolute path), .told (opening (files.absolute path))] ++ told)
      ⟨.makefile [], [], s, .empty⟩ := ⟨s, by rw [resolved]; exact left, rfl⟩
  have starts : (Origin.text (files.absolute path) content).Starts files workDir? told
      ⟨.makefile [], [], t, .empty⟩ := ⟨t, right, rfl⟩
  have tallies := runAlike fits fuel ⟨_, _, begins, .refl⟩ alike
  rw [setting] at tallies
  rw [startRead begins, startRead starts]
  generalize Stage.run _ fuel _ = o at tallies ⊢
  generalize Stage.run _ fuel _ = p at tallies ⊢
  cases tallies with
  | @same events u v result _ =>
    refine .same ?_
    simp only [Outcome.report, List.append_assoc, openingUnheard, made]
  | barred inside missing =>
    refine .barred inside missing rfl rfl ?_
    simp only [Outcome.report, List.append_assoc, openingUnheard]

theorem standsIn (clean : '\r' ∉ content) (ending : other ∈ endings content)
    (site : files.Site (files.absolute path) place)
    (acyclic : (Origin.file path).Acyclic (files.insert place (.file (encodeUtf8 other))) workDir?)
    (fuel : Nat) :
    Outcome.Matches (files.insert place (.file (encodeUtf8 other))) files
      ((Origin.file path).read (files.insert place (.file (encodeUtf8 other))) workDir? fuel)
      ((Origin.text (files.absolute path) content).read files workDir? fuel) :=
  have based : (files.insert place (.file (encodeUtf8 other))).workingDirectory =
      files.workingDirectory := rfl
  readMatches based (site.opens _) (Source.ofFileBare clean ending _ _) (insertFits site acyclic) fuel

theorem standsInPlace (clean : '\r' ∉ content) (ending : other ∈ endings content)
    (site : files.Site (files.absolute path) place)
    (acyclic : (Origin.file path).Acyclic (files.insert place (.file (encodeUtf8 other))) workDir?)
    (stands : files.contentAt place ≠ none) (fuel : Nat) :
    ((Origin.file path).read (files.insert place (.file (encodeUtf8 other))) workDir? fuel).report =
      ((Origin.text (files.absolute path) content).read files workDir? fuel).report := by
  cases standsIn clean ending site acyclic fuel with
  | same report => exact report
  | @barred path _ inside missing =>
    rcases FileTree.openSeen site.plain (encodeUtf8 other) path with same | here | ⟨nothing, -, -⟩
    · cases inside.symm.trans (same.trans missing)
    · cases inside.symm.trans here
    · exact absurd nothing stands

/-- The lines of `content` come to the same however they are read under the name `path`: from a text or
from a file at `place`, and with any line endings. -/
structure ReadsAlike (files : FileTree) (workDir? : Option Text) (path content : Text)
    (place : Place) : Prop where
  crlf : ∀ fuel, (Origin.text (files.absolute path) (withCrlf content)).read files workDir? fuel =
    (Origin.text (files.absolute path) content).read files workDir? fuel
  -- While nothing stands at `place`, a path behind it is missing; behind the file it is refused.
  beside : ∀ other ∈ endings content, ∀ fuel,
    Outcome.Matches (files.insert place (.file (encodeUtf8 other))) files
      ((Origin.file path).read (files.insert place (.file (encodeUtf8 other))) workDir? fuel)
      ((Origin.text (files.absolute path) content).read files workDir? fuel)
  replaced : files.contentAt place ≠ none → ∀ other ∈ endings content, ∀ fuel,
    ((Origin.file path).read (files.insert place (.file (encodeUtf8 other))) workDir? fuel).report =
      ((Origin.text (files.absolute path) content).read files workDir? fuel).report
  spelled : ∀ first ∈ endings content, ∀ second ∈ endings content, ∀ fuel,
    ((Origin.file path).read (files.insert place (.file (encodeUtf8 first))) workDir? fuel).report =
      ((Origin.file path).read (files.insert place (.file (encodeUtf8 second))) workDir? fuel).report
  ends : ∀ other ∈ endings content, ∃ o, ∃ least, ∀ more,
    (Origin.file path).read (files.insert place (.file (encodeUtf8 other))) workDir? (least + more) =
      Outcome.settled o

theorem spellingsAgree (clean : '\r' ∉ content) (site : files.Site (files.absolute path) place)
    (acyclic : ∀ other ∈ endings content,
      (Origin.file path).Acyclic (files.insert place (.file (encodeUtf8 other))) workDir?) :
    ReadsAlike files workDir? path content place where
  crlf _ := by
    simp only [Origin.read, Makefile.ofText, Makefile.readText, startText, Source.ofTextCrlf clean]
  beside other ending := standsIn clean ending site (acyclic other ending)
  replaced stands other ending := standsInPlace clean ending site (acyclic other ending) stands
  spelled first one second two fuel := by
    -- The text is read where the first file stands; the second file takes its place.
    have stands : (files.insert place (.file (encodeUtf8 first))).contentAt place ≠ none := by
      rw [FileTree.contentInserted (FileTree.plainRooted site.plain)]
      exact Option.some_ne_none _
    have against {other : Text} (ending : other ∈ endings content) :
        ((Origin.file path).read (files.insert place (.file (encodeUtf8 other))) workDir? fuel).report =
          ((Origin.text (files.absolute path) content).read
            (files.insert place (.file (encodeUtf8 first))) workDir? fuel).report := by
      have again : (files.insert place (.file (encodeUtf8 first))).Site
          ((files.insert place (.file (encodeUtf8 first))).absolute path) place :=
        FileTree.siteAgain site _
      have refilled := FileTree.insertTwice files place (.file (encodeUtf8 first))
        (.file (encodeUtf8 other))
      have read := standsInPlace clean ending again (by rw [refilled]; exact acyclic other ending) stands
        fuel
      rwa [refilled] at read
    exact (against one).trans (against two).symm
  ends other ending := by
    obtain ⟨o, comes⟩ := readEnds (acyclicIncludes (acyclic other ending))
    exact ⟨o, comesRead comes⟩

def sharedRules : FileTree where
  workingDirectory := ['/']
  entries := [(["rules".toList], .file (encodeUtf8 "é: u\n\tcargo build".toList)),
    (["sub".toList], .directory)]

def sharingText : Text := "a = 1 \\\n 2\ninclude rules\nt:\n\tcd sub && \\\n\tcargo run".toList

theorem sharedRules.alike :
    '\r' ∉ sharingText ∧
    sharedRules.Site (sharedRules.absolute "Makefile".toList) ["Makefile".toList] ∧
    (∀ other ∈ endings sharingText, (Origin.file "Makefile".toList).Acyclic
      (sharedRules.insert ["Makefile".toList] (.file (encodeUtf8 other))) none) ∧
    ReadsAlike sharedRules none "Makefile".toList sharingText ["Makefile".toList] := by
  have clean : '\r' ∉ sharingText := by decide +kernel
  have site : sharedRules.Site (sharedRules.absolute "Makefile".toList) ["Makefile".toList] :=
    ⟨fun _ => rfl, by decide +kernel⟩
  have acyclic : ∀ other ∈ endings sharingText, (Origin.file "Makefile".toList).Acyclic
      (sharedRules.insert ["Makefile".toList] (.file (encodeUtf8 other))) none := by
    intro other ending
    refine risingAsks (fun place => [["Makefile".toList], ["rules".toList]].idxOf place) ?_
    revert ending other
    decide +kernel
  exact ⟨clean, site, acyclic, spellingsAgree clean site acyclic⟩

def behindText : Text := "include Makefile/x\n".toList

def emptyRoot : FileTree := ⟨['/'], []⟩

theorem behindText.refused :
    '\r' ∉ behindText ∧ emptyRoot.Site (emptyRoot.absolute "Makefile".toList) ["Makefile".toList] ∧
    (Origin.file "Makefile".toList).Acyclic
      (emptyRoot.insert ["Makefile".toList] (.file (encodeUtf8 behindText))) none ∧
    ((Origin.file "Makefile".toList).read
      (emptyRoot.insert ["Makefile".toList] (.file (encodeUtf8 behindText))) none 4).result =
        .error ⟨.cannotOpen "/Makefile/x".toList .notDirectory, some ⟨"/Makefile".toList, 1⟩⟩ ∧
    ((Origin.text "/Makefile".toList behindText).read emptyRoot none 4).result =
      .error ⟨.cannotOpen "/Makefile/x".toList .missing, some ⟨"/Makefile".toList, 1⟩⟩ := by
  refine ⟨by decide +kernel, ⟨fun _ => rfl, by decide +kernel⟩, ?_, by decide +kernel,
    by decide +kernel⟩
  refine risingAsks (fun _ => 0) ?_
  decide +kernel

end MakeTree
