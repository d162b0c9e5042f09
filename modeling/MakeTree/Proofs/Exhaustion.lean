import MakeTree.Proofs.Encoding
import MakeTree.Proofs.Turns

/-! Success means that everything has been read. The books of a run say which sources it has opened and
which it has put away; they balance, so when no source is left open each one has been read to its end,
and nothing undecodable can have stood behind any line of it. -/
namespace MakeTree
open Text MakeTree.Action LineStream Origin

def Source.atEnd (s : Source) : Source := s.past s.lines.length

structure Frame where
  source : Source
  count : Nat
  within : count ≤ source.lines.length

namespace Frame

def now (frame : Frame) : Source := frame.source.past frame.count

def fresh (source : Source) : Frame := ⟨source, 0, Nat.zero_le _⟩

theorem freshNow (source : Source) : (fresh source).now = source := by simp [now, fresh, Source.past]

def solid (frame : Frame) : Nat := frame.count + (frame.now.lines.takeWhile allBlank).length

theorem solidNow (frame : Frame) : frame.now.atSolid = frame.source.past frame.solid :=
  Source.pastPast _ _ _

theorem solidWithin (frame : Frame) : frame.solid ≤ frame.source.lines.length := by
  have blank : (frame.now.lines.takeWhile allBlank).length ≤ frame.now.lines.length :=
    (List.takeWhile_prefix allBlank).length_le
  have here := frame.within
  simp only [now, Source.pastLines, List.length_drop] at blank
  simp only [solid, now, Source.pastLines]
  omega

theorem spentNow {frame : Frame} (spent : frame.now.atSolid.lines = []) :
    frame.now.atSolid = frame.source.atEnd := by
  have here := frame.solidWithin
  rw [solidNow] at spent ⊢
  rw [Source.pastLines, List.drop_eq_nil_iff] at spent
  rw [Source.atEnd, Nat.le_antisymm here spent]

end Frame

theorem foundEnded (s : LineStream) (sources : List Source) (ended : (s.found sources).eof = true) :
    (s.found sources).sources = [] := by
  induction sources with
  | nil => rfl
  | cons source below ih =>
    unfold found at ended ⊢
    split at ended
    · exact ih ended
    · cases ended

theorem foundFrames (frames : List Frame) (s : LineStream) :
    ∃ (spent : List Source) (left : List Frame), frames.map Frame.source = spent ++ left.map Frame.source ∧
      putAway (frames.map Frame.now) = spent.map Source.atEnd ∧
      (s.found (frames.map Frame.now)).sources = left.map Frame.now := by
  induction frames with
  | nil => exact ⟨[], [], rfl, rfl, rfl⟩
  | cons frame below ih =>
    cases lines : frame.now.atSolid.lines with
    | nil =>
      obtain ⟨spent, left, split, away, sources⟩ := ih
      refine ⟨frame.source :: spent, left, ?_, ?_, ?_⟩
      · rw [List.map_cons, split]
        rfl
      · rw [List.map_cons, putAway, if_pos lines, away, Frame.spentNow lines]
        rfl
      · rw [List.map_cons, ← sources]
        simp [found, lines]
    | cons line rest =>
      have solid := Frame.solidNow frame
      rw [solid] at lines
      have room : frame.solid + 1 + (joined line rest).length ≤ frame.source.lines.length := by
        have length := congrArg List.length lines
        have inside := joinedLength line rest
        simp only [Source.pastLines, List.length_drop, List.length_cons] at length
        omega
      refine ⟨[], ⟨frame.source, _, room⟩ :: below, rfl, ?_, ?_⟩
      · rw [List.map_cons, putAway, if_neg (by rw [solid, lines]; exact List.cons_ne_nil _ _)]
        rfl
      · simp only [List.map_cons, found, solid, lines]
        rw [Source.pastPast, Source.pastPast, ← Nat.add_assoc]
        rfl

def openings (files : FileTree) (events : List Event) : List Source :=
  (includedPaths events).filterMap files.source?

theorem opensOpenings {files : FileTree} {s : LineStream} {events : List Event}
    {entered : List Source} (opens : s.Opens files events entered) :
    openings files events = entered ∧
      (includedPaths events).map files.source? = entered.map some := by
  cases opens with
  | none paths => simp [openings, paths]
  | one named paths opened => simp [openings, paths, opened]

inductive Origin.Books (files : FileTree) (workDir? : Option Text) (origin : Origin) :
    Stage → List Event → List Source → List Source → Prop where
  | starts {stage events source} (starts : origin.Starts files workDir? events stage)
      (opened : (origin.resolved files).source? files = some source) :
      Books files workDir? origin stage events [source] (putAway [source])
  | looks {stage next before events opened closed}
      (books : Books files workDir? origin stage before opened closed)
      (goes : stage.Goes (origin.setting files) events next) (still : ¬Took events) :
      Books files workDir? origin next (before ++ events) opened closed
  | turns {stage next before events opened closed}
      (books : Books files workDir? origin stage before opened closed)
      (goes : stage.Goes (origin.setting files) events next) (took : Took events) :
      Books files workDir? origin next (before ++ events) (opened ++ openings files events)
        (closed ++ putAway (openings files events ++ stage.stream.sources))

structure Balanced (s : LineStream) (opened closed spent : List Source) (frames : List Frame) : Prop where
  opened : opened.Perm (spent ++ frames.map Frame.source)
  closed : closed = spent.map Source.atEnd
  finished : ∀ source ∈ spent, source.ending = .finished
  sources : s.sources = frames.map Frame.now
  ended : s.eof = true → s.sources = []

theorem balancedFound {s t : LineStream} {opened closed spent : List Source}
    {frames : List Frame} (entered : List Source) (balanced : Balanced s opened closed spent frames)
    (sound : ∀ source ∈ putAway (entered ++ s.sources), source.ending = .finished)
    (same : t = s.atNext.found (entered ++ s.sources)) :
    ∃ spent frames, Balanced t (opened ++ entered) (closed ++ putAway (entered ++ s.sources)) spent
      frames := by
  have stacked : entered ++ s.sources = (entered.map Frame.fresh ++ frames).map Frame.now := by
    have now : Frame.now ∘ Frame.fresh = id := funext Frame.freshNow
    rw [balanced.sources, List.map_append, List.map_map, now, List.map_id]
  obtain ⟨gone, left, split, away, sources⟩ :=
    foundFrames (entered.map Frame.fresh ++ frames) s.atNext
  rw [← stacked] at away sources
  have fresh : Frame.source ∘ Frame.fresh = id := rfl
  rw [List.map_append, List.map_map, fresh, List.map_id] at split
  refine ⟨spent ++ gone, left, ?_, ?_, ?_, ?_, ?_⟩
  · calc (opened ++ entered).Perm (spent ++ frames.map Frame.source ++ entered) :=
          balanced.opened.append_right entered
      _ |>.Perm (spent ++ (entered ++ frames.map Frame.source)) := by
          rw [List.append_assoc]
          exact List.perm_append_comm.append_left spent
      _ |>.Perm (spent ++ gone ++ left.map Frame.source) := by rw [split, List.append_assoc]
  · rw [balanced.closed, away, List.map_append]
  · intro source member
    rcases List.mem_append.mp member with early | late
    · exact balanced.finished source early
    · have put : source.atEnd ∈ putAway (entered ++ s.sources) := away ▸ List.mem_map_of_mem late
      have finished : source.atEnd.ending = .finished := sound _ put
      exact finished
  · rw [same, sources]
  · rw [same]
    exact foundEnded _ _

variable {files : FileTree} {workDir? : Option Text} {origin : Origin} {stage : Stage}

theorem startSpent {s t : LineStream} {source : Source} {events : List Event}
    (opened : origin.source? files = some source)
    (ok : origin.start files workDir? none s = ⟨events, t, .ok ()⟩) :
    ∀ other ∈ putAway [source], other.ending = .finished := by
  cases origin with
  | file path =>
    obtain ⟨place, bytes, file, rfl⟩ := sourcePlace opened
    change goInto files path none (empty (workDirFor files path workDir?)) = _ at ok
    rw [goIntoOpened file] at ok
    cases find : findLine [.ofFile path place bytes []] none { empty (workDirFor files path workDir?)
        with sources := [.ofFile path place bytes []] } with
    | mk told u result =>
      rw [show ((empty (workDirFor files path workDir?)).sources) = [] from rfl, find] at ok
      cases ok
      exact findLineSpent find
  | text path content =>
    cases Option.some.inj opened
    exact findLineSpent ok

theorem goesTurns {events : List Event} {next : Stage} (formed : stage.Formed)
    (goes : stage.Goes (origin.setting files) events next) :
    (¬Took events ∧ includedPaths events = [] ∧ next.stream = stage.stream) ∨
    Took events ∧ ∃ entered, stage.stream.Opens files events entered ∧
      (∀ source ∈ putAway (entered ++ stage.stream.sources), source.ending = .finished) ∧
      next.stream = stage.stream.atNext.found (entered ++ stage.stream.sources) := by
  obtain ⟨t, change, after, steps, step⟩ := goes
  obtain ⟨lines, shows⟩ := formed.shows
  have turns : stage.stream.Turns files _ :=
    stepTurns (origin.setting files) stage.vars stage.block shows
  rw [steps] at turns
  rw [Stage.nextStream step]
  cases turns with
  | rests none still legible => exact .inl ⟨still, none, rfl⟩
  | finds took opens spent legible => exact .inr ⟨took, _, opens, spent, rfl⟩

structure Origin.Audited (files : FileTree) (workDir? : Option Text) (origin : Origin)
    (stage : Stage) (events : List Event) (opened closed : List Source) : Prop where
  passes : origin.Passes files workDir? stage
  sources : opened.map some =
    (origin.resolved files).source? files :: (includedPaths events).map files.source?
  balanced : ∃ spent frames, Balanced stage.stream opened closed spent frames

theorem booksAudited {events : List Event} {opened closed : List Source}
    (books : origin.Books files workDir? stage events opened closed) :
    origin.Audited files workDir? stage events opened closed := by
  induction books with
  | @starts stage events source starts opened =>
    obtain ⟨same, here, -, stream⟩ := startSource starts
    cases Option.some.inj (opened.symm.trans here)
    have begun := starts
    obtain ⟨s, ok, rfl⟩ := begun
    have silent : includedPaths events = [] := by
      refine includedNone fun path member => ?_
      have never := startEnters files workDir? (origin.resolved files) (.empty []) path
      rw [ok] at never
      exact never member
    refine ⟨⟨events, _, starts, .refl⟩, by rw [silent, opened]; rfl, ?_⟩
    have none : Balanced (empty ((origin.resolved files).workDir files workDir?)) [] [] [] [] :=
      ⟨.refl _, rfl, by simp, rfl, by simp [empty]⟩
    exact balancedFound [source] none (startSpent opened ok) stream
  | @looks stage next before events opened closed books goes still ih =>
    refine ⟨passOnward ih.passes (.single ⟨events, goes⟩), ?_, ?_⟩
    all_goals rcases goesTurns (passFormed ih.passes) goes with ⟨-, none, same⟩ | ⟨took, -⟩
    · rw [ih.sources, includedAppend, none, List.append_nil]
    · exact absurd took still
    · rw [same]
      exact ih.balanced
    · exact absurd took still
  | @turns stage next before events opened closed books goes took ih =>
    rcases goesTurns (passFormed ih.passes) goes with ⟨still, -⟩ | ⟨-, entered, opens, spent, same⟩
    · exact absurd took still
    · obtain ⟨openings, paths⟩ := opensOpenings opens
      obtain ⟨_, _, balanced⟩ := ih.balanced
      refine ⟨passOnward ih.passes (.single ⟨events, goes⟩), ?_, ?_⟩
      · rw [List.map_append, ih.sources, includedAppend, List.map_append, paths, openings]
        rfl
      · rw [openings]
        exact balancedFound _ balanced spent same

theorem booksGoes {before events : List Event} {opened closed : List Source} {next : Stage}
    (books : origin.Books files workDir? stage before opened closed)
    (goes : stage.Goes (origin.setting files) events next) :
    ∃ more away, origin.Books files workDir? next (before ++ events) more away := by
  by_cases took : Took events
  · exact ⟨_, _, .turns books goes took⟩
  · exact ⟨_, _, .looks books goes took⟩

theorem comesBooks {o : Outcome LineStream (List Statement × Variables)}
    {read : List Statement × Variables} (comes : stage.Comes (origin.setting files) o)
    (ok : o.result = .ok read)
    {before : List Event} {opened closed : List Source}
    (books : origin.Books files workDir? stage before opened closed) :
    ∃ last events more away, origin.Books files workDir? last events more away ∧
      before ++ o.events = events ++ [.peeked] ∧ last.stream = o.state ∧ o.state.eof = true := by
  induction comes generalizing before opened closed with
  | @ends stage o ends =>
    cases ends with
    | failed steps => cases ok
    | @closed events t _ _ outermost steps =>
      have formed := passFormed (booksAudited books).passes
      obtain ⟨lines, shows⟩ := formed.shows
      have tower := formed.tower
      rw [outermost] at tower
      obtain ⟨_, _, _, moves⟩ := stepMoves shows steps
      generalize made : Change.close _ = change at moves
      cases block : stage.block with
      | rule _ _ _ | link _ _ _ | otherwise _ _ _ _ =>
        rw [block] at tower
        cases tower
      | makefile _ =>
        rw [block] at moves steps
        cases moves with
        | finish =>
          have ended : stage.stream.eof = true := shows.eof
          rw [stepEnded ended (formed.ended ended)] at steps
          cases steps
          exact ⟨stage, before, opened, closed, books, rfl, rfl, ended⟩
        | @statement _ _ _ _ begun _ inside passes begins => cases begun <;> cases made
  | @goes stage events next o step onward ih =>
    obtain ⟨_, _, further⟩ := booksGoes books step
    obtain ⟨last, all, more, away, account, same, rest⟩ := ih ok further
    exact ⟨last, all, more, away, account, by rw [← same, List.append_assoc]; rfl, rest⟩

/-- The run has opened these sources, the makefile and then whatever was included, each as often as it was;
it has put all of them away, each at its end, and there was nothing in them but text. -/
structure Origin.Exhausts {α : Type} (files : FileTree) (workDir? : Option Text) (origin : Origin)
    (o : Outcome LineStream α) : Prop where
  closed : o.state.sources = []
  ended : o.state.eof = true
  books : ∃ last events opened closed, origin.Books files workDir? last events opened closed ∧
    o.events = events ++ [.peeked] ∧ last.stream = o.state ∧
    opened.map some =
      (origin.resolved files).source? files :: (includedPaths o.events).map files.source? ∧
    closed.Perm (opened.map Source.atEnd)
  texts : ∀ path, origin.resolved files = .file path ∨ .included path ∈ o.events →
    ∃ place text, files.openFile path = .ok (place, encodeUtf8 text)

theorem bytesFinished (path : Text) (bytes : List UInt8) :
    (Source.ofBytes path bytes).ending = .finished ↔ ∃ text, bytes = encodeUtf8 text := by
  rw [← faultlessEncodes]
  cases met : (decodeUtf8 bytes).fault with
  | none => simp [Source.ofBytes, met]
  | some fault =>
    simp only [Source.ofBytes, met]
    split <;> simp

theorem openedFinished {path : Text} {source : Source} (opened : files.source? path = some source) :
    source.ending = .finished ↔ ∃ place text, files.openFile path = .ok (place, encodeUtf8 text) := by
  obtain ⟨place, bytes, file, rfl⟩ := sourcePlace opened
  have same : (Source.ofFile path place bytes []).ending = (Source.ofBytes path bytes).ending := by
    simp [Source.ofFile, encodeUtf8]
  rw [same, bytesFinished]
  constructor
  · rintro ⟨text, rfl⟩
    exact ⟨place, text, file⟩
  · rintro ⟨other, text, again⟩
    rw [file] at again
    cases again
    exact ⟨text, rfl⟩

theorem comesExhausts {o : Outcome LineStream Makefile} {makefile : Makefile}
    (comes : origin.Comes files workDir? o) (ok : o.result = .ok makefile) :
    origin.Exhausts files workDir? o.settled := by
  cases comes with
  | unopened fails => cases ok
  | @read before stage o starts comes =>
    obtain ⟨source, opened, -⟩ := startSource starts
    obtain ⟨read, came, -⟩ := mapOk ok
    obtain ⟨last, events, more, away, books, same, state, ended⟩ :=
      comesBooks comes came (.starts starts opened)
    have audited := booksAudited books
    obtain ⟨spent, frames, balanced⟩ := audited.balanced
    have none : o.state.sources = [] := state ▸ balanced.ended (state ▸ ended)
    have unframed : frames = [] := by
      rw [← state, balanced.sources] at none
      exact List.map_eq_nil_iff.mp none
    have paths : includedPaths (before ++ o.events) = includedPaths events := by
      rw [same, includedAppend]
      exact List.append_nil _
    have all : more.Perm spent := by simpa [unframed] using balanced.opened
    have sources : more.map some = (origin.resolved files).source? files ::
        (includedPaths (before ++ o.events)).map files.source? := by rw [paths, audited.sources]
    refine ⟨none, ended, ⟨last, events, more, away, books, same, state, sources, ?_⟩, ?_⟩
    · rw [balanced.closed]
      exact (all.map Source.atEnd).symm
    · intro path asked
      have member : files.source? path ∈ more.map some := by
        rw [sources]
        rcases asked with root | entered
        · rw [root]
          exact List.mem_cons_self ..
        · exact List.mem_cons_of_mem _ (List.mem_map_of_mem (includedMember.mpr entered))
      obtain ⟨source, inside, here⟩ := List.mem_map.mp member
      exact (openedFinished here.symm).mp (balanced.finished source (all.subset inside))

inductive Origin.Offers (files : FileTree) (workDir? : Option Text) (origin : Origin) :
    LogicalLine → Prop where
  | root {source line} (opened : (origin.resolved files).source? files = some source)
      (member : line ∈ source.remaining) : Offers files workDir? origin line
  | inside {line token source inner} (before : Offers files workDir? origin line)
      (named : inclusion? line.text = some token)
      (opened : files.source? (Path.normalJoin ((origin.resolved files).workDir files workDir?) token) =
        some source)
      (member : inner ∈ source.remaining) : Offers files workDir? origin inner

inductive Origin.Reaches (files : FileTree) (workDir? : Option Text) (origin : Origin) : Text → Prop where
  | root {path} (read : origin.resolved files = .file path) : Reaches files workDir? origin path
  | included {line token} (offers : origin.Offers files workDir? line)
      (named : inclusion? line.text = some token) :
      Reaches files workDir? origin
        (Path.normalJoin ((origin.resolved files).workDir files workDir?) token)

theorem showsNamed {s : LineStream} {lines : List LogicalLine} {token : Text} (shows : s.Shows lines)
    (named : inclusion? s.next = some token) : ∃ line ∈ lines, inclusion? line.text = some token := by
  rw [shows.next] at named
  cases lines with
  | nil => cases named
  | cons line rest => exact ⟨line, List.mem_cons_self .., named⟩

theorem passOffers (passes : origin.Passes files workDir? stage) :
    ∃ lines, stage.stream.Shows lines ∧ ∀ line ∈ lines, origin.Offers files workDir? line := by
  obtain ⟨events, first, starts, reached⟩ := passes
  induction reached with
  | refl =>
    obtain ⟨source, opened, -, stream⟩ := startSource starts
    refine ⟨_, stream ▸ foundShows _ _, fun line member => .root opened ?_⟩
    simpa [LineStream.pending] using member
  | @tail stage next reached step ih =>
    obtain ⟨lines, shows, offers⟩ := ih
    have passes : origin.Passes files workDir? stage := ⟨events, first, starts, reached⟩
    obtain ⟨told, goes⟩ := step
    rcases goesTurns (passFormed passes) goes with ⟨-, -, same⟩ | ⟨-, entered, opens, -, same⟩
    · exact ⟨lines, same ▸ shows, offers⟩
    · have behind := shows.behind
      refine ⟨_, same ▸ foundShows _ _, fun line member => ?_⟩
      rw [LineStream.pending, List.flatMap_append] at member
      rcases List.mem_append.mp member with fresh | left
      · cases opens with
        | none => cases fresh
        | one named paths opened =>
          obtain ⟨ahead, inside, names⟩ := showsNamed shows named
          rw [LineStream.target, passWorkDir passes] at opened
          exact .inside (offers ahead inside) names opened (by simpa using fresh)
      · rw [LineStream.pending] at behind
        rw [behind] at left
        exact offers line (List.mem_of_mem_tail left)

theorem passReaches (passes : origin.Passes files workDir? stage) {token : Text}
    (named : inclusion? stage.stream.next = some token) :
    origin.Reaches files workDir? (stage.stream.target token) := by
  obtain ⟨lines, shows, offers⟩ := passOffers passes
  obtain ⟨line, member, names⟩ := showsNamed shows named
  rw [LineStream.target, passWorkDir passes]
  exact .included (offers line member) names

def Origin.Readable (files : FileTree) (workDir? : Option Text) (origin : Origin) : Prop :=
  ∀ path place bytes, origin.Reaches files workDir? path → files.openFile path = .ok (place, bytes) →
    ∃ text, bytes = encodeUtf8 text

theorem readableFinished (readable : origin.Readable files workDir?) {path : Text} {source : Source}
    (reaches : origin.Reaches files workDir? path) (opened : files.source? path = some source) :
    source.ending = .finished := by
  obtain ⟨place, bytes, file, -⟩ := sourcePlace opened
  obtain ⟨text, rfl⟩ := readable path place bytes reaches file
  exact (openedFinished opened).mpr ⟨place, text, file⟩

theorem readableRoot (readable : origin.Readable files workDir?) {source : Source}
    (opened : (origin.resolved files).source? files = some source) : source.ending = .finished := by
  cases root : origin.resolved files with
  | file path =>
    rw [root] at opened
    exact readableFinished readable (.root root) opened
  | text path content =>
    rw [root] at opened
    cases Option.some.inj opened
    rfl

theorem readableOpens (readable : origin.Readable files workDir?)
    (passes : origin.Passes files workDir? stage) {events : List Event} {entered : List Source}
    (opens : stage.stream.Opens files events entered) :
    ∀ source ∈ entered, source.ending = .finished := by
  cases opens with
  | none => simp
  | one named paths opened => simpa using readableFinished readable (passReaches passes named) opened

theorem readableSound (readable : origin.Readable files workDir?)
    (passes : origin.Passes files workDir? stage) : stage.stream.Sound := by
  obtain ⟨events, first, starts, reached⟩ := passes
  induction reached with
  | refl =>
    obtain ⟨source, opened, -, stream⟩ := startSource starts
    rw [stream]
    exact foundSound (by simpa using readableRoot readable opened)
  | @tail stage next reached step sound =>
    have passes : origin.Passes files workDir? stage := ⟨events, first, starts, reached⟩
    obtain ⟨told, goes⟩ := step
    rcases goesTurns (passFormed passes) goes with ⟨-, -, same⟩ | ⟨-, entered, opens, -, same⟩
    · rw [same]
      exact sound
    · rw [same]
      refine foundSound fun source member => ?_
      rcases List.mem_append.mp member with fresh | left
      · exact readableOpens readable passes opens source fresh
      · exact sound source left

theorem startClosed {s t : LineStream} {events : List Event} {failure : Failure}
    (closed : origin.source? files = none)
    (fails : origin.start files workDir? none s = ⟨events, t, .error failure⟩) :
    ∀ fault, failure.cause ≠ .undecodable fault := by
  cases origin with
  | text path content => cases closed
  | file path =>
    cases opened : files.openFile path with
    | ok file => simp [source?, FileTree.source?, opened] at closed
    | error reason =>
      change goInto files path none (empty (workDirFor files path workDir?)) = _ at fails
      rw [goIntoClosed opened] at fails
      cases fails
      cases reason <;> exact fun _ => Cause.noConfusion

theorem readableLegible (readable : origin.Readable files workDir?) (fuel : Nat) :
    Legible (origin.read files workDir? fuel).result := by
  intro failure fault failed undecoded
  obtain ⟨o, comes, failed, -⟩ := readFails failed
  cases comes with
  | @unopened events t other fails =>
    cases failed
    cases opened : (origin.resolved files).source? files with
    | some source =>
      obtain ⟨told, ok⟩ := startSound opened (readableRoot readable opened) workDir? (.empty [])
      rw [fails] at ok
      cases ok
    | none => exact startClosed opened fails fault undecoded
  | @read before stage o starts comes =>
    have came : (o.behind before).result = .error failure := wholeFailed.mp failed
    obtain ⟨last, events, t, reached, steps⟩ := comesFailed comes came
    have passes : origin.Passes files workDir? last := ⟨before, stage, starts, reached⟩
    obtain ⟨lines, shows⟩ := (passFormed passes).shows
    have turns : last.stream.Turns files _ :=
      stepTurns (origin.setting files) last.vars last.block shows
    rw [steps] at turns
    cases turns with
    | rests none still legible => exact legible failure fault rfl undecoded
    | stops named legible => exact legible failure fault rfl undecoded
    | finds took opens spent legible => exact legible failure fault rfl undecoded
    | breaks opens member unsound =>
      rcases List.mem_append.mp member with fresh | left
      · exact unsound (readableOpens readable passes opens _ fresh)
      · exact unsound (readableSound readable passes _ left)

theorem stepReaches (passes : origin.Passes files workDir? stage) {path : Text}
    (entered : .included path ∈
      (stage.block.step (origin.setting files) stage.vars none stage.stream).events) :
    origin.Reaches files workDir? path := by
  obtain ⟨lines, shows⟩ := (passFormed passes).shows
  obtain ⟨token, named, rfl⟩ :=
    turnsNamed (stepTurns (origin.setting files) stage.vars stage.block shows) entered
  exact passReaches passes named

theorem goesReaches {next : Stage} {events : List Event} (passes : origin.Passes files workDir? stage)
    (goes : stage.Goes (origin.setting files) events next) {path : Text}
    (entered : .included path ∈ events) : origin.Reaches files workDir? path := by
  obtain ⟨t, change, after, steps, -⟩ := goes
  exact stepReaches passes (by rw [steps]; exact entered)

theorem comesReaches {o : Outcome LineStream (List Statement × Variables)}
    (comes : stage.Comes (origin.setting files) o) (passes : origin.Passes files workDir? stage)
    {path : Text} (entered : .included path ∈ o.events) : origin.Reaches files workDir? path := by
  induction comes with
  | ends last =>
    cases last with
    | failed steps => exact stepReaches passes (by rw [steps]; exact entered)
    | closed outermost steps => exact stepReaches passes (by rw [steps]; exact entered)
  | @goes stage events next o step onward ih =>
    rcases List.mem_append.mp entered with here | later
    · exact goesReaches passes step here
    · exact ih (passOnward passes (.single ⟨events, step⟩)) later

theorem makesReaches {steps : Nat} {events : List Event} {last : Stage}
    (makes : stage.Makes (origin.setting files) steps events last)
    (passes : origin.Passes files workDir? stage) {path : Text} (entered : .included path ∈ events) :
    origin.Reaches files workDir? path := by
  induction makes with
  | none => cases entered
  | @more steps stage events next later last step onward ih =>
    rcases List.mem_append.mp entered with here | later
    · exact goesReaches passes step here
    · exact ih (passOnward passes (.single ⟨events, step⟩)) later

theorem enteredReaches {fuel : Nat} {path : Text}
    (entered : .included path ∈ (origin.read files workDir? fuel).events) :
    origin.Reaches files workDir? path := by
  have never := startEnters files workDir? (origin.resolved files) (.empty []) path
  have unbegun {before : List Event} {stage : Stage}
      (starts : origin.Starts files workDir? before stage) : .included path ∉ before := by
    obtain ⟨s, begun, -⟩ := starts
    rw [begun] at never
    exact never
  rcases readSettles files workDir? fuel origin with ⟨o, comes, same⟩ | ⟨last, halfway⟩
  · rw [show origin.read files workDir? fuel = _ from same 0] at entered
    cases comes with
    | unopened fails =>
      rw [fails] at never
      exact absurd entered never
    | @read before stage o starts comes =>
      rcases List.mem_append.mp entered with early | late
      · exact absurd early (unbegun starts)
      · exact comesReaches comes ⟨before, stage, starts, .refl⟩ late
  · obtain ⟨before, events, first, starts, makes, same⟩ := halfway.made
    rw [same] at entered
    rcases List.mem_append.mp entered with early | late
    · exact absurd early (unbegun starts)
    · exact makesReaches makes ⟨before, first, starts, .refl⟩ late

/-- A makefile that is read is read with all that it opens; and no run stops at bytes that are no text
unless they stand in a file that it may come to. -/
theorem successExhausts (files : FileTree) (workDir? : Option Text) (origin : Origin) (fuel : Nat) :
    (∀ makefile, (origin.read files workDir? fuel).result = .ok (some makefile) →
      origin.Exhausts files workDir? (origin.read files workDir? fuel)) ∧
    (∀ path, .included path ∈ (origin.read files workDir? fuel).events →
      origin.Reaches files workDir? path) ∧
    (origin.Readable files workDir? → Legible (origin.read files workDir? fuel).result) := by
  refine ⟨fun makefile ok => ?_, fun _ => enteredReaches, fun readable => readableLegible readable fuel⟩
  obtain ⟨o, comes, came, same⟩ := readComes ok
  rw [same]
  exact comesExhausts comes came

def layeredIncludes : FileTree where
  workingDirectory := ['/']
  entries := [
    (["Makefile".toList], .file (encodeUtf8 "include a\nx = 1 \\\n\ninclude a".toList)),
    (["a".toList], .file (encodeUtf8 "\nall: é\n\techo \\\n\t on\ninclude b\n\n".toList)),
    (["b".toList], .file (encodeUtf8 "\n \n".toList))]

theorem layeredIncludes.exhausted :
    let origin : Origin := .file "Makefile".toList
    (origin.read layeredIncludes none 16).result.toOption.join.isSome = true ∧
    origin.Exhausts layeredIncludes none (origin.read layeredIncludes none 16) ∧
    includedPaths (origin.read layeredIncludes none 16).events =
      ["/a".toList, "/b".toList, "/a".toList, "/b".toList] ∧
    origin.Readable layeredIncludes none ∧ Legible (origin.read layeredIncludes none 16).result := by
  intro origin
  have read : (origin.read layeredIncludes none 16).result.toOption.join.isSome = true := by
    decide +kernel
  have readable : origin.Readable layeredIncludes none := by
    intro path place bytes _ opened
    have entry := openedEntry opened
    simp only [layeredIncludes, List.mem_cons, List.not_mem_nil, or_false, Prod.mk.injEq,
      Content.file.injEq] at entry
    rcases entry with ⟨-, rfl⟩ | ⟨-, rfl⟩ | ⟨-, rfl⟩
    all_goals exact ⟨_, rfl⟩
  obtain ⟨exhausts, -, legible⟩ := successExhausts layeredIncludes none origin 16
  refine ⟨read, ?_, by decide +kernel, readable, legible readable⟩
  cases result : (origin.read layeredIncludes none 16).result with
  | ok makefile =>
    cases makefile with
    | some makefile => exact exhausts makefile result
    | none =>
      rw [result] at read
      cases read
  | error failure =>
    rw [result] at read
    cases read

example : ((Origin.file "Makefile".toList).read
    (layeredIncludes.insert ["b".toList] (.file [10, 32, 10, 0xC3])) none 16).result =
      .error ⟨.undecodable ⟨0, 0xC3, 1, .unexpectedEnd⟩, some ⟨"/b".toList, 3⟩⟩ := by
  decide +kernel

end MakeTree
