import MakeTree.Proofs.Exhaustion
import MakeTree.Proofs.StandIns

/-! A whole run on a text that stands in for a file, beside the run on the file. No file may lead back to
itself: the text could include the file that it stands for, and that would end. -/
namespace MakeTree
open Text MakeTree.Action LineStream Origin

/-- While `origin` is read, a directive in the file at `here` asks for the file at `there`, whether
reading goes on from there or not. -/
def Origin.Asks (files : FileTree) (workDir? : Option Text) (origin : Origin)
    (here there : Place) : Prop :=
  ∃ stage source path bytes, origin.Passes files workDir? stage ∧
    stage.stream.sources.head? = some source ∧ source.place? = some here ∧
    Event.included path ∈
      (stage.block.step (origin.setting files) stage.vars none stage.stream).events ∧
    files.openFile path = .ok (there, bytes)

def Origin.Acyclic (files : FileTree) (workDir? : Option Text) (origin : Origin) : Prop :=
  ∀ place, ¬ Relation.TransGen (origin.Asks files workDir?) place place

variable {files : FileTree} {workDir? : Option Text} {origin : Origin} {stage : Stage}

theorem includesAsks {here there : Place} (includes : origin.Includes files workDir? here there) :
    origin.Asks files workDir? here there := by
  obtain ⟨stage, events, next, source, path, bytes, passes, goes, head, placed, told, file⟩ := includes
  obtain ⟨t, change, after, steps, -⟩ := goes
  exact ⟨stage, source, path, bytes, passes, head, placed, by rw [steps]; exact told, file⟩

theorem acyclicIncludes (acyclic : origin.Acyclic files workDir?) :
    ∀ place, ¬ Relation.TransGen (origin.Includes files workDir?) place place :=
  fun place loop => acyclic place (Relation.TransGen.mono (fun _ _ => includesAsks) _ _ loop)

theorem stepNamed (passes : origin.Passes files workDir? stage) {path : Text}
    (entered : .included path ∈ (stage.block.step (origin.setting files) stage.vars none stage.stream).events) :
    stage.stream.eof = false ∧ ∃ token, inclusion? stage.stream.next = some token ∧
      path = stage.stream.target token := by
  obtain ⟨lines, shows⟩ := (passFormed passes).shows
  have named := turnsNamed (stepTurns (origin.setting files) stage.vars stage.block shows) entered
  refine ⟨?_, named⟩
  obtain ⟨token, names, -⟩ := named
  obtain ⟨line, member, -⟩ := showsNamed shows names
  rw [shows.eof, List.isEmpty_eq_false_iff]
  exact List.ne_nil_of_mem member

theorem asksNamed {here there : Place} (asks : origin.Asks files workDir? here there) :
    there ∈ files.named ((origin.resolved files).workDir files workDir?) here := by
  obtain ⟨stage, source, path, bytes, passes, head, placed, entered, file⟩ := asks
  obtain ⟨more, token, named, rfl⟩ := stepNamed passes entered
  have holds := (passHeld passes).ahead more source head here placed
  rw [LineStream.target, passWorkDir passes] at file
  exact holdsNamed holds named file

theorem risingAsks (rank : Place → Nat)
    (rises : ∀ entry ∈ files.entries,
      ∀ there ∈ files.named ((origin.resolved files).workDir files workDir?) entry.1,
        rank entry.1 < rank there) : origin.Acyclic files workDir? := by
  refine risingApart rank fun here there asks => ?_
  have named := asksNamed asks
  obtain ⟨bytes, entry⟩ := namedEntry named
  exact rises _ entry there named

theorem foundOpen (s : LineStream) (sources : List Source) (more : (s.found sources).eof = false) :
    (s.found sources).sources ≠ [] := by
  induction sources with
  | nil => cases more
  | cons source below ih =>
    unfold found at more ⊢
    split at more
    · exact ih more
    · exact List.cons_ne_nil _ _

theorem foundBottom (s : LineStream) (sources : List Source) (more : (s.found sources).eof = false) :
    ((s.found sources).sources.map Source.place?).getLast? = (sources.map Source.place?).getLast? := by
  obtain ⟨before, split⟩ := foundPlaces s sources
  rw [← split, List.getLast?_append_of_ne_nil _ (by simpa using foundOpen s sources more)]

theorem passBottom {root : Source} (opened : (origin.resolved files).source? files = some root)
    (passes : origin.Passes files workDir? stage) (more : stage.stream.eof = false) :
    (stage.stream.sources.map Source.place?).getLast? = some root.place? := by
  obtain ⟨events, first, starts, reached⟩ := passes
  induction reached with
  | refl =>
    obtain ⟨source, here, -, stream⟩ := startSource starts
    cases Option.some.inj (opened.symm.trans here)
    rw [stream] at more ⊢
    exact foundBottom _ _ more
  | @tail stage next onward step ih =>
    obtain ⟨_, goes⟩ := step
    cases Stage.goesTreats goes (passFormed ⟨events, first, starts, onward⟩) with
    | leaves same _ _ _ =>
      rw [same] at more ⊢
      exact ih more
    | handles before _ _ _ past =>
      generalize (lineEffect _ _).included = included at past
      generalize next.stream = t at past more
      have bottom := ih before
      cases past with
      | taken => rw [foundBottom _ _ more, bottom]
      | @entered token source opened =>
        rw [foundBottom _ _ more, List.map_cons, List.getLast?_cons, bottom]
        rfl

theorem Nested.filled {includes : Place → Place → Prop} {places : List (Option Place)} {bottom : Place}
    (nested : Nested files includes places) (last : places.getLast? = some (some bottom)) :
    ∃ real : List Place, places = real.map some := by
  induction nested with
  | empty => exact ⟨[], rfl⟩
  | @root place? real =>
    cases Option.some.inj last
    exact ⟨[bottom], rfl⟩
  | @inside place around? below real included rest ih =>
    rw [List.getLast?_cons_cons] at last
    obtain ⟨places, split⟩ := ih last
    exact ⟨place :: places, by rw [split]; rfl⟩

theorem passReal {root : Source} {place : Place}
    (opened : (origin.resolved files).source? files = some root) (placed : root.place? = some place)
    (passes : origin.Passes files workDir? stage) (more : stage.stream.eof = false) :
    ∃ real : List Place, stage.stream.sources.map Source.place? = real.map some ∧ place ∈ real := by
  have bottom := passBottom opened passes more
  rw [placed] at bottom
  obtain ⟨real, split⟩ := (passNested passes).filled bottom
  have member : some place ∈ real.map some := split ▸ List.mem_of_getLast? bottom
  exact ⟨real, split, by simpa using member⟩

theorem rootUnasked (acyclic : origin.Acyclic files workDir?) {root : Source} {place : Place}
    (opened : (origin.resolved files).source? files = some root) (placed : root.place? = some place)
    (passes : origin.Passes files workDir? stage) {path : Text}
    (entered : .included path ∈ (stage.block.step (origin.setting files) stage.vars none stage.stream).events)
    (bytes : List UInt8) : files.openFile path ≠ .ok (place, bytes) := by
  intro file
  obtain ⟨more, -⟩ := stepNamed passes entered
  obtain ⟨real, split, member⟩ := passReal opened placed passes more
  cases real with
  | nil => cases member
  | cons here around =>
    obtain ⟨source, below, sources, first, -⟩ := List.map_eq_cons_iff.mp split
    have asks : origin.Asks files workDir? here place :=
      ⟨stage, source, path, bytes, passes, by rw [sources]; rfl, first, entered, file⟩
    rcases List.mem_cons.mp member with rfl | outer
    · exact acyclic _ (.single asks)
    · have nested := passNested passes
      rw [split, List.map_cons] at nested
      have leads := nested.leads place (List.mem_map_of_mem outer)
      exact acyclic place ((Relation.TransGen.mono (fun _ _ => includesAsks) _ _ leads).tail asks)

structure Origin.Fits (files others : FileTree) (workDir? : Option Text) (origin : Origin) : Prop where
  directories : ∀ path, others.isDirectory path = files.isDirectory path
  opens : ∀ stage, origin.Passes files workDir? stage → ∀ path,
    .included path ∈ (stage.block.step (origin.setting files) stage.vars none stage.stream).events →
      OpensAlike files others path

theorem runAlike {others : FileTree} (fits : origin.Fits files others workDir?) (fuel : Nat)
    (passes : origin.Passes files workDir? stage) {t : LineStream}
    (alike : t.bare = stage.stream.bare) :
    (stage.run (origin.setting files) fuel).Tallies files others
      (Stage.run ⟨others, (origin.setting files).root⟩ fuel
        ⟨stage.block, stage.outer, t, stage.vars⟩) := by
  induction fuel generalizing stage t with
  | zero => exact .same alike
  | succ fuel ih =>
    obtain ⟨lines, shows⟩ := (passFormed passes).shows
    have stepped := stepAlike fits.directories stage.vars stage.block shows (fits.opens stage passes) alike
    unfold Stage.run
    rw [Block.run, Block.run]
    refine talliesBind stepped fun events read u v steps same => ?_
    obtain ⟨change, after⟩ := read
    have onward {next : Stage} (moved : stage.next? u after change = some next) :
        origin.Passes files workDir? next :=
      passOnward passes (.single ⟨events, u, change, after, steps, moved⟩)
    cases change with
    | stay block => exact ih (onward rfl) same
    | nest block inner => exact ih (onward rfl) same
    | close statements =>
      cases around : stage.outer with
      | nil => exact .same same
      | cons block outer =>
        exact ih (@onward ⟨block.addAll statements, outer, u, after⟩ (by rw [Stage.next?, around])) same

def Outcome.report {α : Type} (o : Outcome LineStream α) : Except Failure α × List Message :=
  (o.result, messagesFrom .info o.events)

/-- Two runs that come to the same, or stop at the same place before a file that each tree refuses for its
own reason. -/
inductive Outcome.Matches {α : Type} (files others : FileTree) (o p : Outcome LineStream α) :
    Prop where
  | same (report : o.report = p.report) : Matches files others o p
  | barred {path location} (inside : files.openFile path = .error .notDirectory)
      (missing : others.openFile path = .error .missing)
      (left : o.report.1 = .error ⟨.cannotOpen path .notDirectory, location⟩)
      (right : p.report.1 = .error ⟨.cannotOpen path .missing, location⟩)
      (told : o.report.2 = p.report.2) : Matches files others o p

end MakeTree
