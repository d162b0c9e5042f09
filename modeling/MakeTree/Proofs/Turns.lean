import MakeTree.Proofs.Plans

/-! What a step does to the sources of its stream. It leaves them, or it has the next line looked for: in
the open sources, or first in a file that the line ahead names. Sources without a line left are put away
on the way, and only if nothing undecodable stands behind their lines. -/
namespace MakeTree
open Text MakeTree.Action LineStream

def putAway : List Source → List Source
  | [] => []
  | source :: below => if source.atSolid.lines = [] then source.atSolid :: putAway below else []

def includedPaths (events : List Event) : List Text :=
  events.filterMap fun
    | .included path => some path
    | _ => none

theorem includedMember {events : List Event} {path : Text} :
    path ∈ includedPaths events ↔ Event.included path ∈ events := by
  simp only [includedPaths, List.mem_filterMap]
  constructor
  · rintro ⟨event, member, named⟩
    cases event <;> cases named
    exact member
  · exact fun member => ⟨_, member, rfl⟩

theorem includedAppend (first second : List Event) :
    includedPaths (first ++ second) = includedPaths first ++ includedPaths second :=
  List.filterMap_append

theorem includedNone {events : List Event} (none : ∀ path, .included path ∉ events) :
    includedPaths events = [] := by
  rw [List.eq_nil_iff_forall_not_mem]
  exact fun path member => none path (includedMember.mp member)

theorem includedIdle {events : List Event} (idle : Idle events) : includedPaths events = [] := by
  refine includedNone fun path member => ?_
  have aside := List.all_eq_true.mp idle _ member
  cases aside

theorem includedTold {events : List Event} (told : OnlyTold events) : includedPaths events = [] :=
  includedIdle (onlyToldIdle told)

theorem includedLooks (eof : Bool) (block : Block) : includedPaths (block.looks eof) = [] := by
  cases block <;> cases eof <;> rfl

def Took (events : List Event) : Prop := ∃ advanced, .took advanced ∈ events

theorem tookLooks (eof : Bool) (block : Block) : ¬Took (block.looks eof) := by
  rintro ⟨advanced, member⟩
  cases block <;> cases eof <;> simp [Block.looks] at member

theorem findLineSpent {sources : List Source} {s t : LineStream} {events : List Event}
    (ok : findLine sources none s = ⟨events, t, .ok ()⟩) :
    ∀ source ∈ putAway sources, source.ending = .finished := by
  induction sources generalizing s events with
  | nil => simp [putAway]
  | cons source below ih =>
    unfold putAway
    split
    · rename_i spent
      rw [findLineCons] at ok
      have opening (log : Log) : onSource source below firstLine log s = _ :=
        onSourceApply source below firstLine log s
      rcases firstLineNil spent with ⟨finished, first⟩ | ⟨-, u, fault, location, first⟩
      · obtain ⟨message, put⟩ := withFirstNone { s with sources := source.atSolid :: below }
          source.atSolid below
        rw [bindSilent (by rw [opening, first]), put] at ok
        cases further : findLine below none { s with sources := source.atSolid :: below } with
        | mk told v result =>
          rw [further] at ok
          cases ok
          intro other member
          rcases List.mem_cons.mp member with rfl | inside
          · exact finished
          · exact ih further other inside
      · rw [bindFailed (by rw [opening, first])] at ok
        cases ok
    · simp

inductive LineStream.Opens (files : FileTree) (s : LineStream) (events : List Event) :
    List Source → Prop where
  | none (paths : includedPaths events = []) : Opens files s events []
  | one {token source} (named : inclusion? s.next = some token)
      (paths : includedPaths events = [s.target token])
      (opened : files.source? (s.target token) = some source) : Opens files s events [source]

def Legible {α : Type} (result : Except Failure α) : Prop :=
  ∀ failure fault, result = .error failure → failure.cause ≠ .undecodable fault

inductive LineStream.Turns {α : Type} (files : FileTree) (s : LineStream) : Outcome LineStream α → Prop where
  | rests {events result} (none : includedPaths events = []) (still : ¬Took events)
      (legible : Legible result) : Turns files s ⟨events, s, result⟩
  | stops {events t failure}
      (named : ∀ path ∈ includedPaths events, ∃ token, inclusion? s.next = some token ∧
        path = s.target token)
      (legible : Legible (.error failure : Except Failure α)) :
      Turns files s ⟨events, t, .error failure⟩
  | finds {events entered result} (took : Took events) (opens : s.Opens files events entered)
      (spent : ∀ source ∈ putAway (entered ++ s.sources), source.ending = .finished)
      (legible : Legible result) :
      Turns files s ⟨events, s.atNext.found (entered ++ s.sources), result⟩
  | breaks {events entered t failure source} (opens : s.Opens files events entered)
      (member : source ∈ entered ++ s.sources) (unsound : source.ending ≠ .finished) :
      Turns files s ⟨events, t, .error failure⟩

variable {files : FileTree} {s : LineStream} {α β : Type}

theorem legibleOk (a : α) : Legible (.ok a : Except Failure α) := fun _ _ failed => by cases failed

theorem legibleCause {failure : Failure} (mild : ∀ fault, failure.cause ≠ .undecodable fault) :
    Legible (.error failure : Except Failure α) := by
  intro _ fault failed
  cases failed
  exact mild fault

theorem opensMore {events more : List Event} {entered : List Source}
    (opens : s.Opens files events entered) (plain : includedPaths more = []) :
    s.Opens files (events ++ more) entered := by
  cases opens with
  | none paths => exact .none (by rw [includedAppend, paths, plain]; rfl)
  | one named paths opened => exact .one named (by rw [includedAppend, paths, plain]; rfl) opened

theorem tookMore {first : List Event} (took : Took first) (last : List Event) : Took (first ++ last) :=
  took.imp fun _ member => List.mem_append_left last member

theorem idleUntaken {events : List Event} (idle : Idle events) : ¬Took events := by
  rintro ⟨advanced, member⟩
  have aside := List.all_eq_true.mp idle _ member
  cases aside

theorem untakenAppend {first last : List Event} (before : ¬Took first) (behind : ¬Took last) :
    ¬Took (first ++ last) := by
  rintro ⟨advanced, member⟩
  rcases List.mem_append.mp member with early | late
  · exact before ⟨advanced, early⟩
  · exact behind ⟨advanced, late⟩

theorem searchTurns (entered : List Source) {before : List Event} {t : LineStream}
    (opens : s.Opens files before entered) (took : Took before)
    (same : t.found (entered ++ s.sources) = s.atNext.found (entered ++ s.sources)) :
    s.Turns files ((findLine (entered ++ s.sources) none t).behind before) := by
  have finds := findLineFinds t (entered ++ s.sources)
  cases find : findLine (entered ++ s.sources) none t with
  | mk told u result =>
    rw [find] at finds
    cases finds with
    | whole messages =>
      rw [same]
      exact .finds (tookMore took told) (opensMore opens (includedTold messages))
        (findLineSpent find) (legibleOk ())
    | broken messages member unsound =>
      exact .breaks (opensMore opens (includedTold messages)) member unsound

theorem turnsBind {x : Action LineStream α} {f : α → Action LineStream β} {t : LineStream}
    {before : List Event} (first : s.Turns files ((x none t).behind before))
    (rest : ∀ events u a, x none t = ⟨events, u, .ok a⟩ → ∃ told last, Idle told ∧ Legible last ∧
      f a none u = ⟨told, u, last⟩) : s.Turns files (((x >>= f) none t).behind before) := by
  cases outcome : x none t with
  | mk events u result =>
    rw [outcome] at first
    cases result with
    | error failure =>
      rw [bindFailed outcome]
      cases first with
      | rests none still legible =>
        exact .rests none still (legibleCause fun fault => legible failure fault rfl)
      | stops named legible => exact .stops named (legibleCause fun fault => legible failure fault rfl)
      | finds took opens spent legible =>
        exact .finds took opens spent (legibleCause fun fault => legible failure fault rfl)
      | breaks opens member unsound => exact .breaks opens member unsound
    | ok a =>
      obtain ⟨told, last, idle, legible, further⟩ := rest events u a outcome
      rw [bindReturned outcome, further, Outcome.behindMk, Outcome.behindMk, ← List.append_assoc]
      cases first with
      | rests none still _ =>
        refine .rests ?_ (untakenAppend still (idleUntaken idle)) legible
        rw [includedAppend, none, includedIdle idle]
        rfl
      | finds took opens spent _ =>
        exact .finds (tookMore took told) (opensMore opens (includedIdle idle)) spent legible

theorem takeTurns (files : FileTree) (s : LineStream) {before : List Event}
    (plain : includedPaths before = []) : s.Turns files ((take false none s).behind before) := by
  have taken : s.Turns files
      ((findLine ([] ++ s.sources) none s.atNext).behind (before ++ [.took true])) := by
    refine searchTurns [] (.none ?_) ⟨true, List.mem_append_right _ (List.mem_singleton.mpr rfl)⟩ rfl
    rw [includedAppend, plain]
    rfl
  rw [takeMoving, Outcome.behindBehind]
  exact turnsBind taken fun events u _ _ => ⟨[], _, idleNil, legibleOk s.next, rfl⟩

def ignored (location : Option Location) (extra : List Text) : List Event :=
  if extra = [] then [] else [.remark .warning location
    ("Ignoring tokens after include statement: ".toList ++ quotedList extra)]

theorem ignoredTold (location : Option Location) (extra : List Text) :
    OnlyTold (ignored location extra) := by
  unfold ignored
  split
  · exact onlyToldNil
  · exact onlyToldCons onlyToldNil

theorem readInclusionNamed {line first token : Text} {extra : List Text}
    (split : words line = first :: token :: extra) (s : LineStream) :
    readInclusion files line none s =
      ((enter files token >>= fun _ => pure (.inclusion token) :
        Action LineStream Statement) none s).behind (ignored s.location extra) := by
  unfold readInclusion
  rw [bindSilent (stateApply none s)]
  simp only [split]
  by_cases none : extra = []
  · simp [ignored, none, Outcome.behind]
  · simp only [ignored, none, ne_eq, not_false_eq_true, if_true, if_false]
    exact bindReturned (emitApply ..)

theorem readInclusionBare {line : Text} (bare : (words line)[1]? = none) (s : LineStream) :
    readInclusion files line none s = ⟨[], s, .error ⟨.noIncludePath, s.location⟩⟩ := by
  unfold readInclusion
  rw [bindSilent (stateApply none s)]
  simp only
  generalize words line = split at bare
  cases split with
  | nil => rfl
  | cons first rest =>
    cases rest with
    | nil => rfl
    | cons token extra => cases bare

theorem enterTurns {before : List Event} {token : Text} (named : inclusion? s.next = some token)
    (plain : includedPaths before = []) (took : Took before) :
    s.Turns files ((enter files token none s.atNext).behind before) := by
  have entering : includedPaths (before ++ [.included (s.target token)]) = [s.target token] := by
    rw [includedAppend, plain]
    rfl
  rw [enterApply, show s.atNext.target token = s.target token from rfl, Outcome.behindBehind]
  cases opened : files.openFile (s.target token) with
  | error reason =>
    rw [goIntoClosed opened]
    refine .stops (fun path member => ⟨token, named, ?_⟩) (legibleCause fun fault => ?_)
    · rw [includedAppend, entering] at member
      simpa [includedPaths] using member
    · cases reason <;> exact Cause.noConfusion
  | ok file =>
    obtain ⟨place, bytes⟩ := file
    have source : files.source? (s.target token) = some (.ofFile (s.target token) place bytes []) := by
      simp [FileTree.source?, opened]
    rw [goIntoOpened opened, Outcome.behindBehind]
    refine searchTurns [_] (.one named ?_ source) ?_ (foundSources _ _ _)
    · rw [includedAppend, entering]
      rfl
    · exact tookMore (tookMore took _) _

theorem readInclusionTurns {before : List Event} {directive : Text}
    (named : ∀ token, (words directive)[1]? = some token → inclusion? s.next = some token)
    (plain : includedPaths before = []) (took : Took before) :
    s.Turns files ((readInclusion files directive none s.atNext).behind before) := by
  cases split : words directive with
  | nil =>
    rw [readInclusionBare (by rw [split]; rfl)]
    exact .stops (by simp [plain]) (legibleCause fun fault => by simp)
  | cons first rest =>
    cases rest with
    | nil =>
      rw [readInclusionBare (by rw [split]; rfl)]
      exact .stops (by simp [plain]) (legibleCause fun fault => by simp)
    | cons token extra =>
      have noted : includedPaths (before ++ ignored s.atNext.location extra) = [] := by
        rw [includedAppend, plain, includedTold (ignoredTold _ _)]
        rfl
      rw [readInclusionNamed split, Outcome.behindBehind]
      refine turnsBind (enterTurns (named token ?_) noted (tookMore took _)) fun events u _ _ => ?_
      · rw [split]
        rfl
      · exact ⟨[], _, idleNil, legibleOk (.inclusion token), rfl⟩

theorem actTurns {plan : Plan} (fits : plan.Fits s.eof s.next)
    (located : s.eof = false → ∃ location, s.nextLocation = some location) {before : List Event}
    (plain : includedPaths before = []) (still : ¬Took before) :
    s.Turns files ((plan.act files none s).behind before) := by
  cases fits with
  | @rests result mild =>
    refine .rests (by simp [Plan.act, plain]) (by simpa [Plan.act] using still) fun failure fault failed => ?_
    rw [mild failure failed]
    simp
  | @takes rest more detached blamed =>
    refine turnsBind (takeTurns files s plain) fun events u line ok => ?_
    obtain ⟨location, here⟩ := located more
    obtain ⟨-, rfl⟩ := takeReturned ok
    obtain ⟨told, idle, done⟩ := detachedApply detached (((foundKeeps s.atNext s.sources).2).trans here)
    refine ⟨told, _, idle, fun failure fault failed => ?_, done⟩
    have fault : failure.cause.isLineFault = true := (yieldsFailed (blamed _) failed).1
    intro undecoded
    rw [undecoded] at fault
    cases fault
  | @enters directive made more named =>
    have taking : Plan.act files (.enters directive made) none s =
        ((readInclusion files directive >>= fun statement => pure (made statement)) none
          s.atNext).behind [.took false] := bindReturned (takeDeferred s)
    rw [taking, Outcome.behindBehind]
    have noted : includedPaths (before ++ [.took false]) = [] := by
      rw [includedAppend, plain]
      rfl
    exact turnsBind
      (readInclusionTurns named noted ⟨false, List.mem_append_right _ (List.mem_singleton.mpr rfl)⟩)
      fun events u statement _ => ⟨[], _, idleNil, legibleOk (made statement), rfl⟩

theorem LineStream.Shows.located {lines : List LogicalLine} (shows : s.Shows lines) :
    s.eof = false → ∃ location, s.nextLocation = some location := by
  rw [shows.eof, shows.nextLocation]
  cases lines with
  | nil => exact fun more => by cases more
  | cons line rest => exact fun _ => ⟨line.location, rfl⟩

theorem LineStream.Shows.ended {lines : List LogicalLine} (shows : s.Shows lines) :
    s.eof = true → s.next = [] := by
  rw [shows.eof, shows.next, List.isEmpty_iff]
  rintro rfl
  rfl

theorem stepTurns (setting : Setting) (vars : Variables) (block : Block) {lines : List LogicalLine}
    (shows : s.Shows lines) : s.Turns setting.files (block.step setting vars none s) := by
  rw [stepPlan]
  exact actTurns (planFits setting vars block shows.ended) shows.located (includedLooks s.eof block)
    (tookLooks s.eof block)

theorem turnsNamed {o : Outcome LineStream α} (turns : s.Turns files o) {path : Text}
    (entered : .included path ∈ o.events) :
    ∃ token, inclusion? s.next = some token ∧ path = s.target token := by
  rw [← includedMember] at entered
  have one {events : List Event} {sources : List Source} (opens : s.Opens files events sources)
      (member : path ∈ includedPaths events) :
      ∃ token, inclusion? s.next = some token ∧ path = s.target token := by
    cases opens with
    | none paths => simp [paths] at member
    | @one token _ named paths opened =>
      rw [paths, List.mem_singleton] at member
      exact ⟨token, named, member⟩
  cases turns with
  | rests none still legible => simp [none] at entered
  | stops named legible => exact named path entered
  | finds took opens spent legible => exact one opens entered
  | breaks opens member unsound => exact one opens entered

end MakeTree
