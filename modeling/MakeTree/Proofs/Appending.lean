import MakeTree.Proofs.Alongside

/-! A text put behind another one, with a blank line in between. Its lines come after those of the first
text, and nothing of the first is read differently for them; so a makefile that ends is read on with the
second text, and a failure stays what it was. -/
namespace MakeTree
open Text MakeTree.Action LineStream

theorem splitLinesFeed (first second : Text) : ∃ gap : List Text, (gap = [] ∨ gap = [[]]) ∧
    splitLines (first ++ '\n' :: second) = splitLines first ++ gap ++ splitLines second := by
  induction first with
  | nil => exact ⟨[[]], .inr rfl, rfl⟩
  | cons c rest ih =>
    obtain ⟨gap, blank, split⟩ := ih
    by_cases feed : c = '\n'
    · exact ⟨gap, blank, by simp [splitLines, feed, split]⟩
    · cases lines : splitLines rest with
      | cons line others =>
        exact ⟨gap, blank, by simp [splitLines, feed, split, lines]⟩
      | nil =>
        have none : rest = [] := by
          cases rest with
          | nil => rfl
          | cons d rest =>
            exfalso
            unfold splitLines at lines
            split at lines
            · cases lines
            · split at lines <;> cases lines
        subst none
        exact ⟨[], .inl rfl, by simp [splitLines, feed]⟩

theorem textLinesAppend (first second : Text) : ∃ gap : List Text, (gap = [] ∨ gap = [[]]) ∧
    Source.textLines (first ++ "\n\n".toList ++ second) =
      Source.textLines first ++ gap ++ [] :: Source.textLines second := by
  have whole : first ++ "\n\n".toList ++ second = first ++ '\n' :: '\n' :: second := by simp
  obtain ⟨gap, blank, split⟩ := splitLinesFeed first ('\n' :: second)
  refine ⟨gap, blank, ?_⟩
  have kept : gap.map Source.withoutReturn = gap := by
    rcases blank with rfl | rfl <;> rfl
  rw [whole, Source.textLines, split, List.map_append, List.map_append, kept]
  rfl

theorem continuedGap (lines rest : List Text) :
    (continued (lines ++ [] :: rest)).text = (continued lines).text ∧
    ((continued (lines ++ [] :: rest)).length = (continued lines).length ∨
      (continued lines).length = lines.length ∧
      (continued (lines ++ [] :: rest)).length = lines.length + 1) := by
  induction lines with
  | nil => exact ⟨rfl, .inr ⟨rfl, rfl⟩⟩
  | cons line others ih =>
    obtain ⟨text, length⟩ := ih
    simp only [List.cons_append, continued, List.length_cons]
    split
    · exact ⟨rfl, .inl rfl⟩
    · split
      · exact ⟨text, by simpa using length⟩
      · split
        · exact ⟨by rw [text], by simpa using length⟩
        · exact ⟨rfl, .inl rfl⟩

theorem joinedGap (line : Text) (lines rest : List Text) :
    (joined line (lines ++ [] :: rest)).text = (joined line lines).text ∧
    ((joined line (lines ++ [] :: rest)).length = (joined line lines).length ∨
      (joined line lines).length = lines.length ∧
      (joined line (lines ++ [] :: rest)).length = lines.length + 1) := by
  unfold joined
  split
  · exact ⟨rfl, .inl rfl⟩
  · obtain ⟨text, length⟩ := continuedGap lines rest
    exact ⟨by rw [text], length⟩

theorem logicalLinesPast (path : Text) (number taken : Nat) (lines : List Text)
    (past : lines.length ≤ taken) : logicalLines path number taken lines = [] := by
  induction lines generalizing number taken with
  | nil => rfl
  | cons line rest ih =>
    cases taken with
    | zero => cases past
    | succ taken => exact ih _ _ (Nat.le_of_succ_le_succ past)

theorem logicalLinesGap (path : Text) (number taken : Nat) (lines rest : List Text)
    (inside : taken ≤ lines.length + 1) :
    logicalLines path number taken (lines ++ [] :: rest) =
      logicalLines path number taken lines ++
        logicalLines path (number + lines.length + 1) 0 rest := by
  induction lines generalizing number taken with
  | nil =>
    cases taken with
    | zero => rfl
    | succ taken =>
      cases Nat.le_zero.mp (Nat.le_of_succ_le_succ inside)
      rfl
  | cons line others ih =>
    have behind : number + 1 + others.length + 1 = number + (line :: others).length + 1 := by
      simp only [List.length_cons]
      omega
    cases taken with
    | succ taken =>
      have onward := ih (number + 1) taken (Nat.le_of_succ_le_succ inside)
      rw [behind] at onward
      exact onward
    | zero =>
      simp only [List.cons_append, logicalLines]
      split
      · rw [ih (number + 1) 0 (Nat.zero_le _), behind]
      · obtain ⟨text, length⟩ := joinedGap line others rest
        have taken : (joined line (others ++ [] :: rest)).length ≤ others.length + 1 := by
          have fits := joinedLength line others
          omega
        have same : logicalLines path (number + 1) (joined line (others ++ [] :: rest)).length others =
            logicalLines path (number + 1) (joined line others).length others := by
          rcases length with same | ⟨all, more⟩
          · rw [same]
          · rw [logicalLinesPast _ _ _ _ (by omega), logicalLinesPast _ _ _ _ (by omega)]
        rw [ih (number + 1) _ taken, behind, text, same]
        rfl

theorem logicalLinesDown (path : Text) (number taken lines : Nat) (texts : List Text) :
    logicalLines path (number + lines) taken texts =
      (logicalLines path number taken texts).map (LogicalLine.down lines) := by
  induction texts generalizing number taken with
  | nil => rfl
  | cons text rest ih =>
    have next : number + lines + 1 = number + 1 + lines := Nat.add_right_comm ..
    cases taken with
    | succ taken =>
      simp only [logicalLines]
      rw [next, ih]
    | zero =>
      simp only [logicalLines]
      split
      · rw [next, ih]
      · rw [next, ih, List.map_cons]
        congr 1
        simp only [LogicalLine.down, Location.down, LogicalLine.mk.injEq, Location.mk.injEq, true_and]
        push_cast
        omega

theorem remainingAppend (path first second : Text) : ∃ lines,
    (Source.ofText path (first ++ "\n\n".toList ++ second)).remaining =
      (Source.ofText path first).remaining ++
        (Source.ofText path second).remaining.map (LogicalLine.down lines) := by
  obtain ⟨gap, blank, split⟩ := textLinesAppend first second
  have first' : logicalLines path 0 0 (Source.textLines first ++ gap) =
      logicalLines path 0 0 (Source.textLines first) := by
    rcases blank with rfl | rfl
    · rw [List.append_nil]
    · rw [logicalLinesGap _ _ _ _ _ (Nat.zero_le _)]
      exact List.append_nil _
  refine ⟨(Source.textLines first ++ gap).length + 1, ?_⟩
  unfold Source.remaining Source.ofText
  simp only [split]
  rw [logicalLinesGap _ _ _ _ _ (Nat.zero_le _), first', Nat.add_assoc, logicalLinesDown]

def textStage (files : FileTree) (workDir? : Option Text) (path content : Text) : Stage :=
  ⟨.makefile [], [], (LineStream.empty (workDirFor files path workDir?)).found
    [.ofText path content], .empty⟩

variable {files : FileTree} {workDir? : Option Text} {path first second : Text} {lines : Nat}
  {fuel : Nat} {setting : Setting} {statements further : List Statement} {vars after : Variables}

theorem textFormed (files : FileTree) (workDir? : Option Text) (path content : Text) :
    (textStage files workDir? path content).Formed := ⟨⟨_, foundShows _ _⟩, rfl⟩

theorem textStarts (files : FileTree) (workDir? : Option Text) (path content : Text) :
    ∃ before, (Origin.text path content).Starts files workDir? before
      (textStage files workDir? path content) := by
  have starts : ∃ events, (Origin.text path content).start files workDir? none (.empty []) =
      ⟨events, (textStage files workDir? path content).stream, .ok ()⟩ :=
    Origin.startSound rfl rfl workDir? _
  exact starts.imp fun _ begun => ⟨_, begun, rfl⟩

theorem textComes {content : Text} {o : Outcome LineStream Makefile}
    (comes : (Origin.text path content).Comes files workDir? o) :
    ∃ before run, deeds before = [] ∧
      (textStage files workDir? path content).Comes ((Origin.text path content).setting files) run ∧
      o = (Origin.text path content).whole files (run.behind before) := by
  obtain ⟨before, starts⟩ := textStarts files workDir? path content
  cases comes with
  | unopened fails =>
    obtain ⟨_, begun, _⟩ := starts
    cases begun.symm.trans fails
  | read starts' comes =>
    obtain ⟨rfl, rfl⟩ := Origin.startUnique starts starts'
    exact ⟨_, _, Origin.startSilent starts, comes, rfl⟩

theorem textRead {content other : Text} {run : Outcome LineStream (List Statement × Variables)}
    (comes : (textStage files workDir? path content).Comes ((Origin.text path other).setting files)
      run) :
    ∃ least before, ∀ more, (Origin.text path content).read files workDir? (least + more) =
      ((Origin.text path content).whole files (run.behind before)).settled := by
  obtain ⟨before, starts⟩ := textStarts files workDir? path content
  -- The setting is made of the files and the path alone.
  have reads : (Origin.text path content).Comes files workDir? _ := .read starts comes
  obtain ⟨least, read⟩ := Origin.comesRead reads
  exact ⟨least, before, read⟩

theorem wholeBeside (files : FileTree) (workDir? : Option Text)
    (remaining : (Source.ofText path (first ++ "\n\n".toList ++ second)).remaining =
      (Source.ofText path first).remaining ++
        (Source.ofText path second).remaining.map (LogicalLine.down lines)) :
    (textStage files workDir? path first).Beside 0 []
      ((Source.ofText path second).remaining.map (LogicalLine.down lines))
      (textStage files workDir? path (first ++ "\n\n".toList ++ second)) where
  block := .makefile
  outer := .nil
  streams := by
    have same : (Source.ofText path first).remaining.map (LogicalLine.down 0) =
        (Source.ofText path first).remaining :=
      List.map_id'' (fun line => congrArg (LogicalLine.mk line.text) (downZero line.location)) _
    exact foundPaired (.bottom ⟨rfl, rfl, by rw [same, remaining]⟩) rfl

theorem furtherComes {s : LineStream} {o : Outcome LineStream (List Statement × Variables)}
    (comes : (textStage files workDir? path second).Comes setting o)
    (ok : o.result = .ok (further, after)) (workDir : s.workDir = workDirFor files path workDir?)
    (reaches : s.Reaches ((Source.ofText path second).remaining.map (LogicalLine.down lines))) :
    ∃ p, Stage.Comes setting ⟨.makefile statements, [], s, vars⟩ p ∧
      p.result = .ok (statements ++ further, replay vars (deeds o.events)) := by
  obtain ⟨before, source, rfl, sound, remaining⟩ := reaches
  have goesOn : (Source.ofText path second).GoesOn lines [] source :=
    ⟨rfl, sound, by rw [remaining, List.append_nil]⟩
  have streams := foundPaired (s := .empty (workDirFor files path workDir?)) (.bottom goesOn)
    ((foundKeeps before [source]).1.symm.trans workDir)
  have beside : (textStage files workDir? path second).Beside lines statements []
      ⟨.makefile (statements ++ []), [], before.found [source], vars⟩ := ⟨.makefile, .nil, streams⟩
  rw [List.append_nil] at beside
  obtain ⟨told, t, last, leads, same, reaches⟩ := Stage.alongsideReturns comes
    (textFormed files workDir? path second) beside ok (by simp)
  have shows := reachesShows reaches
  have ends : Stage.Comes setting ⟨.makefile (statements ++ further), [], t, last⟩
      ⟨[.peeked], t, .ok (statements ++ further, last)⟩ :=
    .ends (.closed rfl (stepEnded shows.eof shows.next))
  have vars : last = replay vars (deeds told) := Stage.leadsVars leads
  exact ⟨_, Stage.leadsComes leads ends, by rw [← same, ← vars]; rfl⟩

theorem wholeComes {o p : Outcome LineStream (List Statement × Variables)}
    (comes : (textStage files workDir? path first).Comes setting o)
    (ok : o.result = .ok (statements, vars))
    (comes' : (textStage files workDir? path second).Comes setting p)
    (also : p.result = .ok (further, after))
    (untabbed : ∀ line ∈ (Source.ofText path second).remaining.head?,
      startsWith ['\t'] line.text = false) :
    ∃ q, (textStage files workDir? path (first ++ "\n\n".toList ++ second)).Comes setting q ∧
      q.result = .ok (statements ++ further, replay vars (deeds p.events)) := by
  obtain ⟨lines, remaining⟩ := remainingAppend path first second
  have plain : ∀ line ∈
      ((Source.ofText path second).remaining.map (LogicalLine.down lines)).head?,
      startsWith ['\t'] line.text = false := by
    intro line head
    rw [List.head?_map] at head
    obtain ⟨first, member, rfl⟩ := Option.mem_map.mp head
    exact untabbed first member
  obtain ⟨told, t, last, leads, same, reaches⟩ := Stage.alongsideReturns comes
    (textFormed files workDir? path first) (wholeBeside files workDir? remaining) ok plain
  have handed : last = vars := by
    rw [Stage.comesVars comes ok, ← same]
    exact Stage.leadsVars leads
  have kept : t.workDir = _ :=
    Stage.leadsWorkDir leads (textFormed files workDir? path (first ++ "\n\n".toList ++ second))
  have workDir : t.workDir = workDirFor files path workDir? := kept.trans (foundKeeps _ _).1
  obtain ⟨q, onward, result⟩ := furtherComes comes' also workDir reaches
  exact ⟨_, Stage.leadsComes leads (handed ▸ onward), result⟩

def Origin.Settles (files : FileTree) (workDir? : Option Text) (origin : Origin)
    (result : Except Failure Makefile) : Prop :=
  ∃ least, ∀ more, (origin.read files workDir? (least + more)).result = result.map some

theorem returnsAppended {enough : Nat} {makefile more : Makefile}
    (ok : ((Origin.text path first).read files workDir? fuel).result = .ok (some makefile))
    (also : ((Origin.text path second).read files workDir? enough).result = .ok (some more))
    (untabbed : ∀ line ∈ ((Origin.text path second).pending files).head?,
      startsWith ['\t'] line.text = false) :
    (Origin.text path (first ++ "\n\n".toList ++ second)).Settles files workDir? (.ok
      { makefile with
        statements := makefile.statements ++ more.statements
        vars := replay makefile.vars
          ((Origin.text path second).read files workDir? enough).events }) := by
  obtain ⟨_, reads, ok, -⟩ := Origin.readComes ok
  obtain ⟨_, reads', also, read⟩ := Origin.readComes also
  obtain ⟨before, o, -, comes, rfl⟩ := textComes reads
  obtain ⟨before', p, silent, comes', rfl⟩ := textComes reads'
  obtain ⟨⟨statements, vars⟩, result, rfl⟩ := mapOk ok
  obtain ⟨⟨further, after⟩, result', rfl⟩ := mapOk also
  obtain ⟨q, whole, returned⟩ := wholeComes comes result comes' result' untabbed
  obtain ⟨least, told, same⟩ := textRead whole
  have calls : deeds (before' ++ p.events) = deeds p.events := by rw [deedsAppend, silent]; rfl
  refine ⟨least, fun more => ?_⟩
  rw [same, read, Outcome.settled, Origin.whole, Outcome.behindResult, returned]
  simp only [Outcome.settled, Origin.whole, Outcome.behind, replayDeeds vars (before' ++ p.events),
    calls, Except.map, Origin.makefile]
  rfl

theorem failsAppended {failure : Failure}
    (failed : ((Origin.text path first).read files workDir? fuel).result = .error failure)
    (early : failure.cause ≠ .unterminated) (second : Text) :
    (Origin.text path (first ++ "\n\n".toList ++ second)).Settles files workDir?
      (.error failure) := by
  obtain ⟨_, reads, failed, -⟩ := Origin.readFails failed
  obtain ⟨before, o, -, comes, rfl⟩ := textComes reads
  obtain ⟨lines, remaining⟩ := remainingAppend path first second
  have ends : (o.behind before).result = .error failure := Origin.wholeFailed.mp failed
  obtain ⟨q, likewise, whole, also, alike⟩ := Stage.alongsideFails comes
    (textFormed files workDir? path first) (wholeBeside files workDir? remaining) ends early
  cases failureShiftedZero alike
  obtain ⟨least, told, same⟩ := textRead whole
  refine ⟨least, fun more => ?_⟩
  rw [same, Except.map, Outcome.settledError, Origin.wholeFailed]
  exact also

/-- A text that can be read is read on with what follows, if that does not look like a step of its last
recipe: the statements come one after the other, and the variables change as they do in the second text.
A text that fails before its end fails in the same way whatever follows. -/
theorem readAppended (files : FileTree) (workDir? : Option Text) (path first second : Text) :
    (∀ fuel enough makefile further,
      ((Origin.text path first).read files workDir? fuel).result = .ok (some makefile) →
      ((Origin.text path second).read files workDir? enough).result = .ok (some further) →
      (∀ line ∈ ((Origin.text path second).pending files).head?,
        startsWith ['\t'] line.text = false) →
      (Origin.text path (first ++ "\n\n".toList ++ second)).Settles files workDir? (.ok
        { makefile with
          statements := makefile.statements ++ further.statements
          vars := replay makefile.vars
            ((Origin.text path second).read files workDir? enough).events })) ∧
    ∀ fuel failure, ((Origin.text path first).read files workDir? fuel).result = .error failure →
      failure.cause ≠ .unterminated →
      (Origin.text path (first ++ "\n\n".toList ++ second)).Settles files workDir?
        (.error failure) :=
  ⟨fun _ _ _ _ ok also untabbed => returnsAppended ok also untabbed,
    fun _ _ failed early => failsAppended failed early second⟩

def appendedTexts : FileTree where
  workingDirectory := ['/']
  entries := [(["i".toList], .file (encodeUtf8 "t: d\n\texport C=4\n".toList))]

namespace appendedTexts

def unfinished : Text := "A = 1\nt: u ; export B=2\n\tcargo build\n\techo \\".toList

def behind : Text := "include i\nA += 3\nunexport B\n".toList

def broken : Text := "ifeq x\nelse\nelse y\n".toList

theorem readOn :
    (∃ makefile further,
      ((Origin.text ['m'] unfinished).read appendedTexts none 16).result = .ok (some makefile) ∧
      ((Origin.text ['m'] behind).read appendedTexts none 16).result = .ok (some further) ∧
      (∀ line ∈ ((Origin.text ['m'] behind).pending appendedTexts).head?,
        startsWith ['\t'] line.text = false) ∧
      (Origin.text ['m'] (unfinished ++ "\n\n".toList ++ behind)).Settles appendedTexts none (.ok
        { makefile with
          statements := makefile.statements ++ further.statements
          vars := replay makefile.vars
            ((Origin.text ['m'] behind).read appendedTexts none 16).events })) ∧
    ((Origin.text ['m'] broken).read appendedTexts none 16).result =
      .error ⟨.unmatched .otherwise, some ⟨['m'], 3⟩⟩ ∧
    (Origin.text ['m'] (broken ++ "\n\n".toList ++ behind)).Settles appendedTexts none
      (.error ⟨.unmatched .otherwise, some ⟨['m'], 3⟩⟩) := by
  have vars : ((Origin.text ['m'] unfinished).read appendedTexts none 16).result.map
      (Option.map Makefile.vars) = .ok (some ⟨[(['A'], ['1']), (['B'], ['2'])], [], []⟩) := by
    decide +kernel
  have also : ((Origin.text ['m'] behind).read appendedTexts none 16).result.map
      (Option.map Makefile.vars) = .ok (some ⟨[(['A'], ['3']), (['C'], ['4'])], [], []⟩) := by
    decide +kernel
  have failed : ((Origin.text ['m'] broken).read appendedTexts none 16).result =
      .error ⟨.unmatched .otherwise, some ⟨['m'], 3⟩⟩ := by decide +kernel
  have untabbed : ∀ line ∈ ((Origin.text ['m'] behind).pending appendedTexts).head?,
      startsWith ['\t'] line.text = false := by decide +kernel
  obtain ⟨read, ok, found⟩ := mapOk vars
  obtain ⟨makefile, rfl, _⟩ := Option.map_eq_some_iff.mp found
  obtain ⟨read', ok', found'⟩ := mapOk also
  obtain ⟨further, rfl, _⟩ := Option.map_eq_some_iff.mp found'
  have appended := readAppended appendedTexts none ['m'] unfinished behind
  have stopped := readAppended appendedTexts none ['m'] broken behind
  exact ⟨⟨makefile, further, ok, ok', untabbed, appended.1 16 16 makefile further ok ok' untabbed⟩,
    failed, stopped.2 16 _ failed (by decide)⟩

end appendedTexts
end MakeTree
