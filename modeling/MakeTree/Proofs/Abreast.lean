import MakeTree.Proofs.Agreement

/-! Two streams abreast: the same sources are open in both, but for the outermost one, which in the
second goes on behind the lines of the first. Until the first stream ends, a step of a block does the
same on both. -/
namespace MakeTree
open Text MakeTree.Action LineStream

def LogicalLine.down (lines : Nat) (line : LogicalLine) : LogicalLine :=
  { line with location := line.location.down lines }

structure Source.GoesOn (lines : Nat) (more : List LogicalLine) (source longer : Source) : Prop where
  sound : source.ending = .finished
  longerSound : longer.ending = .finished
  remaining : longer.remaining = source.remaining.map (LogicalLine.down lines) ++ more

inductive Stacked (lines : Nat) (more : List LogicalLine) : List Source → List Source → Prop where
  | bottom {source longer} (goesOn : source.GoesOn lines more longer) :
      Stacked lines more [source] [longer]
  | above {source sources others} (rest : Stacked lines more sources others) :
      Stacked lines more (source :: sources) (source :: others)

namespace LineStream

structure Abreast (lines : Nat) (more : List LogicalLine) (s t : LineStream) : Prop where
  workDir : t.workDir = s.workDir
  eof : s.eof = false
  otherEof : t.eof = false
  next : t.next = s.next
  located : ∃ place, s.nextLocation = some place
  near : Shifted lines s.nextLocation t.nextLocation
  sources : Stacked lines more s.sources t.sources

def Reaches (more : List LogicalLine) (t : LineStream) : Prop :=
  ∃ (before : LineStream) (source : Source), t = before.found [source] ∧
    source.ending = .finished ∧ source.remaining = more

inductive Paired (lines : Nat) (more : List LogicalLine) (s t : LineStream) : Prop where
  | abreast (abreast : s.Abreast lines more t) : Paired lines more s t
  | ended (eof : s.eof = true) (empty : s.next = []) (workDir : t.workDir = s.workDir)
      (reaches : t.Reaches more) : Paired lines more s t

structure Taken (lines : Nat) (more : List LogicalLine) (deferred : Bool) (s t : LineStream) :
    Prop where
  located : ∃ place, s.location = some place
  near : Shifted lines s.location t.location
  behind : if deferred then t.workDir = s.workDir ∧ Stacked lines more s.sources t.sources
    else s.Paired lines more t

end LineStream

variable {lines : Nat} {more : List LogicalLine} {s t : LineStream} {sources others : List Source}

theorem reachesShows (reaches : t.Reaches more) : t.Shows more := by
  obtain ⟨before, source, rfl, _, rfl⟩ := reaches
  have shows := foundShows before [source]
  rwa [LineStream.pending, List.flatMap_cons, List.flatMap_nil, List.append_nil] at shows

theorem foundLast {source : Source} {line : LogicalLine} {rest : List LogicalLine}
    (sound : source.ending = .finished) (remaining : source.remaining = line :: rest)
    (s : LineStream) : ∃ last, (s.found [source]).sources = [last] ∧ last.ending = .finished ∧
      last.remaining = rest := by
  cases lines : source.atSolid.lines with
  | nil => rw [Source.remainingNil lines] at remaining; cases remaining
  | cons first others =>
    rw [Source.remainingCons lines] at remaining
    exact ⟨(source.atSolid.past 1).past (joined first others).length, by simp [found, lines], sound,
      (List.cons.inj remaining).2⟩

theorem goesOnFound {source longer : Source} (goesOn : source.GoesOn lines more longer)
    (workDir : t.workDir = s.workDir) :
    (s.found [source]).Paired lines more (t.found [longer]) := by
  have shows := foundShows s [source]
  have also := foundShows t [longer]
  simp only [LineStream.pending, List.flatMap_cons, List.flatMap_nil, List.append_nil] at shows also
  have kept : (t.found [longer]).workDir = (s.found [source]).workDir := by
    rw [(foundKeeps t _).1, (foundKeeps s _).1, workDir]
  cases left : source.remaining with
  | nil =>
    rw [left] at shows
    refine .ended shows.eof shows.next kept ⟨t, longer, rfl, goesOn.longerSound, ?_⟩
    rw [goesOn.remaining, left, List.map_nil, List.nil_append]
  | cons line rest =>
    have right := goesOn.remaining
    rw [left, List.map_cons, List.cons_append] at right
    rw [left] at shows
    rw [right] at also
    obtain ⟨last, single, sound, remaining⟩ := foundLast goesOn.sound left s
    obtain ⟨longerLast, longerSingle, longerSound, longerRemaining⟩ :=
      foundLast goesOn.longerSound right t
    refine .abreast ⟨kept, shows.eof, also.eof, also.next.trans shows.next.symm,
      ⟨_, shows.nextLocation⟩, .inr ?_, ?_⟩
    · rw [also.nextLocation, shows.nextLocation]
      rfl
    · rw [single, longerSingle]
      exact .bottom ⟨sound, longerSound, by rw [longerRemaining, remaining]⟩

theorem foundPaired (stacked : Stacked lines more sources others)
    (workDir : t.workDir = s.workDir) :
    (s.found sources).Paired lines more (t.found others) := by
  induction stacked with
  | bottom goesOn => exact goesOnFound goesOn workDir
  | @above source sources others rest ih =>
    cases solid : source.atSolid.lines with
    | nil =>
      simp only [found, solid]
      exact ih
    | cons line behind =>
      simp only [found, solid]
      exact .abreast ⟨workDir, rfl, rfl, rfl, ⟨_, rfl⟩, .inl rfl, .above rest⟩

theorem findLineResult (stacked : Stacked lines more sources others) (s t : LineStream) :
    (findLine others none t).result = (findLine sources none s).result := by
  -- A source that has run out is put away before the one below is asked, so the streams change.
  induction stacked generalizing s t with
  | @bottom source longer goesOn =>
    have sound : ∀ other ∈ [source], other.ending = .finished := by simpa using goesOn.sound
    have also : ∀ other ∈ [longer], other.ending = .finished := by simpa using goesOn.longerSound
    obtain ⟨_, left⟩ := findLineSound (s := s) sound
    obtain ⟨_, right⟩ := findLineSound (s := t) also
    rw [left, right]
  | @above source sources others rest ih =>
    rw [findLineCons, findLineCons]
    cases first : firstLine none source with
    | mk events after result =>
      have opened : ∀ below (u : LineStream), onSource source below firstLine none u =
          ⟨events, { u with sources := after :: below }, result⟩ := by
        intro below u
        rw [onSourceApply, first]
      cases result with
      | error failure => rw [bindFailed (opened _ t), bindFailed (opened _ s)]
      | ok found =>
        obtain ⟨line?, source⟩ := found
        rw [bindReturned (opened _ t), bindReturned (opened _ s)]
        simp only [Outcome.behindResult]
        cases line? with
        | none => exact ih _ _
        | some line =>
          simp only [withFirst, bindApply, Outcome.andThen, onSourceApply, Log.record,
            Option.map_none, stateApply, setStateApply]
          generalize Source.join line none source = o
          obtain ⟨told, last, result⟩ := o
          cases result <;> rfl

theorem findLineAgree (stacked : Stacked lines more sources others) (s t : LineStream) :
    Agree lines (findLine sources) (findLine others) s t
      fun _ _ u v => u = s.found sources ∧ v = t.found others := by
  have same := findLineResult stacked s t
  have told := findLineTells s sources
  have also := findLineTells t others
  unfold Agree
  cases left : findLine sources none s with
  | mk events u result =>
    cases right : findLine others none t with
    | mk after v other =>
      rw [left] at told same
      rw [right] at also same
      cases (same : other = result)
      cases result with
      | error failure => exact .failed ⟨rfl, .inl rfl⟩
      | ok _ =>
        refine .ok ?_ ⟨findLineReturned left, findLineReturned right⟩
        rw [deedsOnlyTold told, deedsOnlyTold also]

theorem takeAgree (abreast : s.Abreast lines more t) (deferred : Bool) :
    Agree lines (take deferred) (take deferred) s t fun a b u v =>
      a = s.next ∧ b = s.next ∧ Taken lines more deferred u v := by
  unfold take
  have noted : Agree lines (setState s.atNext) (setState t.atNext) s t fun _ _ u v =>
      u = s.atNext ∧ v = t.atNext := .ok rfl ⟨rfl, rfl⟩
  refine agreeEmit rfl (agreeState (agreeBind noted fun _ _ u v same => ?_))
  obtain ⟨rfl, rfl⟩ := same
  cases deferred with
  | true =>
    exact agreePure ⟨rfl, abreast.next, abreast.located, abreast.near, abreast.workDir,
      abreast.sources⟩
  | false =>
    have onward : Agree lines advance advance s.atNext t.atNext fun _ _ u v =>
        u = s.atNext.found s.sources ∧ v = t.atNext.found t.sources :=
      agreeState (findLineAgree abreast.sources _ _)
    refine agreeBind onward fun _ _ u v same => ?_
    obtain ⟨rfl, rfl⟩ := same
    have location := (foundKeeps s.atNext s.sources).2
    have other := (foundKeeps t.atNext t.sources).2
    refine agreePure ⟨rfl, abreast.next, ?_, ?_, foundPaired abreast.sources abreast.workDir⟩
    · rw [location]
      exact abreast.located
    · rw [location, other]
      exact abreast.near

theorem takeLineAgree (abreast : s.Abreast lines more t) :
    Agree lines takeLine takeLine s t fun a b u v =>
      a = s.next ∧ b = s.next ∧ Taken lines more (isInclude s.next) u v := by
  refine agreeState ?_
  rw [abreast.next]
  exact takeAgree abreast _

theorem pushAgree (files : FileTree) (path : Text) (near : Shifted lines s.location t.location) :
    Agree lines (push files path) (push files path) s t fun _ _ u v => ∃ source,
      u = { s with sources := source :: s.sources } ∧
      v = { t with sources := source :: t.sources } := by
  unfold Agree
  cases opened : files.openFile path with
  | error reason =>
    rw [pushClosed opened, pushClosed opened]
    exact .failed (ofAccessShifted near path reason)
  | ok file =>
    obtain ⟨place, bytes⟩ := file
    rw [pushOpened opened, pushOpened opened]
    exact .ok rfl ⟨_, rfl, rfl⟩

theorem enterAgree (files : FileTree) (path : Text) (taken : Taken lines more true s t) :
    Agree lines (enter files path) (enter files path) s t fun _ _ u v => u.Paired lines more v := by
  obtain ⟨workDir, stacked⟩ := taken.behind
  unfold enter
  refine agreeState ?_
  simp only [workDir]
  refine agreeEmit rfl (agreeBind (pushAgree files _ taken.near) fun _ _ u v pushed => ?_)
  obtain ⟨source, rfl, rfl⟩ := pushed
  refine agreeState (agreeWeaken (findLineAgree (.above stacked) _ _) fun _ _ u v same => ?_)
  obtain ⟨rfl, rfl⟩ := same
  exact foundPaired (.above stacked) workDir

theorem readInclusionAgree (files : FileTree) (line : Text) (taken : Taken lines more true s t) :
    Agree lines (readInclusion files line) (readInclusion files line) s t fun a b u v =>
      b = a ∧ u.Paired lines more v := by
  unfold readInclusion
  refine agreeState ?_
  simp only
  generalize words line = tokens
  match tokens with
  | [] | [_] => exact agreeFail ⟨rfl, taken.near⟩
  | first :: path :: extra =>
    have entering : Agree lines
        (do enter files path; return .inclusion path : Action LineStream Statement)
        (do enter files path; return .inclusion path)
        s t fun a b u v => b = a ∧ u.Paired lines more v :=
      agreeBind (enterAgree files path taken) fun _ _ u v paired => agreePure ⟨rfl, paired⟩
    exact agreeIte (fun _ => agreeEmit rfl entering) fun _ => entering

theorem openLinkAgree (line : Text) (near : Shifted lines s.location t.location) :
    Agree lines (openLink line) (openLink line) s t fun a b u v =>
      b.1 = a.1 ∧ Shifted lines a.2 b.2 ∧ u = s ∧ v = t := by
  unfold openLink
  refine agreeState ?_
  exact agreeIte (fun _ => agreeFail ⟨rfl, near⟩) fun _ => agreePure ⟨rfl, near, rfl, rfl⟩

theorem openRuleAgree (setting : Setting) (vars others : Variables) (line : Text)
    (located : ∃ place, s.location = some place) (near : Shifted lines s.location t.location) :
    Agree lines (openRule setting vars line) (openRule setting others line) s t fun a b u v =>
      (∃ header directory recipe, a.1 = .rule header directory recipe) ∧ Unmoved s t a b u v := by
  obtain ⟨place, here⟩ := located
  have near' := here ▸ near
  obtain ⟨there, other, path⟩ := shiftedPath near'
  rw [other] at near'
  unfold openRule
  refine agreeState ?_
  simp only [here, other, path]
  generalize cutAt ':' (trim line) = parts
  obtain ⟨name, _ | rest⟩ := parts
  · exact agreeFail ⟨rfl, near'⟩
  · refine agreeIte (fun _ => agreeFail ⟨rfl, near'⟩) fun _ => ?_
    refine agreeIte (fun _ => agreePure ⟨⟨_, _, _, rfl⟩, rfl, rfl, rfl⟩) fun _ => ?_
    refine agreeBind (Recipe.readStepInside setting vars others _ near' _ s t) fun a b u v same => ?_
    obtain ⟨read, moved, rfl, rfl⟩ := same
    obtain ⟨⟨step, after⟩, directory⟩ := a
    obtain ⟨⟨_, later⟩, _⟩ := b
    cases read
    cases moved
    exact agreePure ⟨⟨_, _, _, rfl⟩, rfl, rfl, rfl⟩

end MakeTree
