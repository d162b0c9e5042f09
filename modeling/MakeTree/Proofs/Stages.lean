import Mathlib.Logic.Relation
import MakeTree.Proofs.Derivation
import MakeTree.Proofs.LineEffects

/-! A run as a sequence of stages, one for each step of a block, and no bound on how many there are.
Each stage deals with the line ahead as its scopes say, or leaves it to the blocks around. -/
namespace MakeTree
open Text MakeTree.Action LineStream

structure Stage where
  block : Block
  outer : List Block
  stream : LineStream
  vars : Variables

def Tower : Block → List Block → Prop
  | block, [] => block.isMakefile = true
  | block, around :: outer => block.isMakefile = false ∧ Tower around outer

theorem towerReplaced {block other : Block} {outer : List Block}
    (same : other.isMakefile = block.isMakefile) (tower : Tower block outer) :
    Tower other outer := by
  cases outer with
  | nil => exact same.trans tower
  | cons _ _ => exact ⟨same.trans tower.1, tower.2⟩

theorem movesNested {setting : Setting} {workDir : Text} {entered : Prop}
    {block next inner : Block} {lines rest : List LogicalLine}
    (moves : block.Moves setting workDir entered lines (.nest next inner) rest) :
    inner.isMakefile = false := by
  have opened : ∀ {line : LogicalLine} {begun : Begun} {around : Block} {behind : List LogicalLine},
      Begins setting workDir entered line behind begun rest →
      begun.within around = .nest next inner → inner.isMakefile = false := by
    intro line begun around behind begins within
    cases begins with
    | inclusion => cases within
    | here other reads =>
      cases begun with
      | nothing | whole _ => cases within
      | opened block =>
        cases within
        rcases begunOpened reads with ⟨_, _, _, rfl⟩ | ⟨_, _, _, rfl⟩
        · rfl
        · rfl
  generalize nested : Change.nest next inner = change at moves
  cases moves with
  | statement inside passes begins => exact opened begins nested.symm
  | otherwiseWith keyword unconditional solid begins => exact opened begins nested.symm
  | finish | step | blank | ended | endLink | endOtherwise | chain | otherwise => cases nested

theorem stepMoves {setting : Setting} {vars after : Variables} {block : Block} {s t : LineStream}
    {lines : List LogicalLine} {events : List Event} {change : Change} (shows : s.Shows lines)
    (steps : block.step setting vars none s = ⟨events, t, .ok (change, after)⟩) :
    Onward setting.files s t ∧ ∃ rest, t.Shows rest ∧
      block.Moves setting s.workDir (Entered events) lines change rest := by
  have stepped : (block.step setting vars).Follows setting.files _ s _ := stepFollows block shows
  obtain ⟨phase, _, stepped⟩ := stepped
  rw [steps] at stepped
  obtain ⟨onward, rest, _, showsRest, moves⟩ := stepped
  exact ⟨onward, rest, showsRest, moves⟩

namespace Stage

def scopes (stage : Stage) : List Scope :=
  stage.block.scopes ++ stage.outer.flatMap Block.scopes

def next? (stage : Stage) (t : LineStream) (vars : Variables) : Change → Option Stage
  | .stay block => some ⟨block, stage.outer, t, vars⟩
  | .nest block inner => some ⟨inner, block :: stage.outer, t, vars⟩
  | .close statements => match stage.outer with
    | [] => none
    | around :: outer => some ⟨around.addAll statements, outer, t, vars⟩

variable {setting : Setting} {stage next : Stage} {t : LineStream} {vars : Variables}
  {change : Change} {events : List Event}

theorem nextClosed {statements : List Statement}
    (step : stage.next? t vars (.close statements) = some next) :
    ∃ around outer, stage.outer = around :: outer ∧
      next = ⟨around.addAll statements, outer, t, vars⟩ := by
  cases waiting : stage.outer with
  | nil =>
    rw [next?, waiting] at step
    cases step
  | cons around outer =>
    rw [next?, waiting] at step
    exact ⟨around, outer, rfl, (Option.some.inj step).symm⟩

theorem nextStream (step : stage.next? t vars change = some next) : next.stream = t := by
  cases change with
  | stay block => cases Option.some.inj step; rfl
  | nest block inner => cases Option.some.inj step; rfl
  | close statements =>
    obtain ⟨around, outer, _, rfl⟩ := nextClosed step
    rfl

theorem nextVars (step : stage.next? t vars change = some next) : next.vars = vars := by
  cases change with
  | stay block => cases Option.some.inj step; rfl
  | nest block inner => cases Option.some.inj step; rfl
  | close statements =>
    obtain ⟨around, outer, _, rfl⟩ := nextClosed step
    rfl

theorem nextDepth (step : stage.next? t vars change = some next) : next.outer.length ≤ stage.outer.length + 1 := by
  cases change with
  | stay block => cases Option.some.inj step; exact Nat.le_succ _
  | nest block inner => cases Option.some.inj step; exact Nat.le_refl _
  | close statements =>
    obtain ⟨around, outer, waiting, rfl⟩ := nextClosed step
    simp only [waiting, List.length_cons]
    omega

theorem nextScopes (step : stage.next? t vars change = some next) :
    next.scopes = change.scopes (stage.outer.flatMap Block.scopes) := by
  cases change with
  | stay block => cases Option.some.inj step; rfl
  | nest block inner => cases Option.some.inj step; rfl
  | close statements =>
    obtain ⟨around, outer, waiting, rfl⟩ := nextClosed step
    simp [scopes, Change.scopes, waiting]

def Goes (setting : Setting) (stage : Stage) (events : List Event) (next : Stage) : Prop :=
  ∃ t change after, stage.block.step setting stage.vars none stage.stream =
      ⟨events, t, .ok (change, after)⟩ ∧
    stage.next? t after change = some next

inductive Ends (setting : Setting) (stage : Stage) :
    Outcome LineStream (List Statement × Variables) → Prop where
  | failed {events t failure}
      (steps : stage.block.step setting stage.vars none stage.stream =
        ⟨events, t, .error failure⟩) :
      Ends setting stage ⟨events, t, .error failure⟩
  | closed {events t statements after} (outermost : stage.outer = [])
      (steps : stage.block.step setting stage.vars none stage.stream =
        ⟨events, t, .ok (.close statements, after)⟩) :
      Ends setting stage ⟨events, t, .ok (statements, after)⟩

inductive Comes (setting : Setting) :
    Stage → Outcome LineStream (List Statement × Variables) → Prop where
  | ends {stage o} (last : stage.Ends setting o) : Comes setting stage o
  | goes {stage events next o} (step : stage.Goes setting events next)
      (onward : Comes setting next o) : Comes setting stage (o.behind events)

def Before (setting : Setting) (stage next : Stage) : Prop :=
  ∃ events, stage.Goes setting events next

def run (setting : Setting) (fuel : Nat) (stage : Stage) :
    Outcome LineStream (Option (List Statement × Variables)) :=
  stage.block.run setting fuel stage.vars stage.outer none stage.stream

structure Formed (stage : Stage) : Prop where
  shows : ∃ lines, stage.stream.Shows lines
  tower : Tower stage.block stage.outer

theorem goesFormed (goes : stage.Goes setting events next) (formed : stage.Formed) :
    next.Formed := by
  obtain ⟨t, change, after, steps, step⟩ := goes
  obtain ⟨lines, shows⟩ := formed.shows
  obtain ⟨_, rest, showsRest, moves⟩ := stepMoves shows steps
  have kept := movesKept moves
  have tower := formed.tower
  cases change with
  | stay block =>
    cases Option.some.inj step
    exact ⟨⟨rest, showsRest⟩, towerReplaced kept tower⟩
  | nest block inner =>
    cases Option.some.inj step
    exact ⟨⟨rest, showsRest⟩, movesNested moves, towerReplaced kept tower⟩
  | close statements =>
    obtain ⟨around, outer, waiting, rfl⟩ := nextClosed step
    rw [waiting] at tower
    exact ⟨⟨rest, showsRest⟩, towerReplaced (addAllMakefile around statements) tower.2⟩

theorem goesWorkDir (goes : stage.Goes setting events next) (formed : stage.Formed) :
    next.stream.workDir = stage.stream.workDir := by
  obtain ⟨t, change, after, steps, step⟩ := goes
  obtain ⟨lines, shows⟩ := formed.shows
  rw [nextStream step]
  exact (stepMoves shows steps).1.workDir

theorem Formed.ended (formed : stage.Formed) : stage.stream.eof = true → stage.stream.next = [] := by
  obtain ⟨lines, shows⟩ := formed.shows
  intro eof
  rw [shows.eof, List.isEmpty_iff] at eof
  rw [shows.next, eof]
  rfl

theorem Formed.top (formed : stage.Formed) :
    stage.block.isMakefile = true → stage.outer.flatMap Block.scopes = [] := by
  have tower := formed.tower
  intro makefile
  cases around : stage.outer with
  | nil => rfl
  | cons block outer =>
    rw [around] at tower
    exact absurd makefile (by simp [tower.1])

inductive Treats (files : FileTree) (stage : Stage) (events : List Event) (next : Stage) : Prop where
  | leaves (same : next.stream = stage.stream)
      (ended : next.outer.length + 1 = stage.outer.length) (silent : deeds events = [])
      (unread : stage.stream.eof = true ∨
        lineEffect stage.scopes stage.stream.next = lineEffect next.scopes stage.stream.next)
  | handles (more : stage.stream.eof = false)
      (deeper : next.outer.length ≤ stage.outer.length + 1)
      (deeds : deeds events =
        (lineEffect stage.scopes stage.stream.next).deeds stage.stream.workDir)
      (scopes : (lineEffect stage.scopes stage.stream.next).scopes = next.scopes)
      (past : stage.stream.Past files (lineEffect stage.scopes stage.stream.next).included
        next.stream)

theorem stepTreats (formed : stage.Formed) :
    (stage.block.step setting stage.vars).Leaves stage.stream
      (stage.block.Does setting.files (stage.outer.flatMap Block.scopes) stage.stream) :=
  stepDoes setting stage.vars stage.block _ formed.ended formed.top

theorem goesTreats (goes : stage.Goes setting events next) (formed : stage.Formed) :
    stage.Treats setting.files events next := by
  obtain ⟨t, change, after, steps, step⟩ := goes
  have does := leavesReturned (stepTreats formed) steps
  have scopes := nextScopes step
  generalize made : deeds events = done at does
  cases does with
  | leaves unread =>
    obtain ⟨around, outer, waiting, rfl⟩ := nextClosed step
    exact .leaves rfl (by simp [waiting]) made (by rw [scopes]; exact unread)
  | handles more handled =>
    refine .handles more (nextDepth step) (made.trans handled.deeds) ?_ ?_
    · rw [scopes]
      exact handled.scopes
    · rw [nextStream step]
      exact handled.past

end Stage

namespace Origin

def Starts (files : FileTree) (workDir? : Option Text) (origin : Origin) (events : List Event)
    (stage : Stage) : Prop :=
  ∃ s, (origin.resolved files).start files workDir? none (.empty []) = ⟨events, s, .ok ()⟩ ∧
    stage = ⟨.makefile [], [], s, .empty⟩

def Passes (files : FileTree) (workDir? : Option Text) (origin : Origin) (stage : Stage) : Prop :=
  ∃ events first, origin.Starts files workDir? events first ∧
    Relation.ReflTransGen (Stage.Before (origin.setting files)) first stage

variable {files : FileTree} {workDir? : Option Text} {origin : Origin} {stage : Stage}
  {events : List Event}

theorem startSource (starts : origin.Starts files workDir? events stage) :
    ∃ source, (origin.resolved files).source? files = some source ∧ stage.outer = [] ∧
      stage.stream =
        (LineStream.empty ((origin.resolved files).workDir files workDir?)).found [source] := by
  obtain ⟨s, begun, rfl⟩ := starts
  obtain ⟨source, opened, same⟩ := startReturned begun
  exact ⟨source, opened, rfl, same⟩

theorem startFormed (starts : origin.Starts files workDir? events stage) : stage.Formed := by
  obtain ⟨source, _, _, same⟩ := startSource starts
  obtain ⟨s, _, rfl⟩ := starts
  exact ⟨⟨_, same ▸ foundShows _ _⟩, rfl⟩

theorem startSilent (starts : origin.Starts files workDir? events stage) :
    deeds events = [] := by
  obtain ⟨s, begun, _⟩ := starts
  obtain ⟨first, told, messages, asked, same⟩ :=
    (origin.resolved files).startEvents (.empty []) files workDir?
  rw [begun] at same
  change events = _ at same
  rw [same, deedsAppend, deedsOnlyTold messages, List.append_nil]
  refine List.filter_eq_nil_iff.mpr fun event member => ?_
  rw [asked event member]
  exact Bool.false_ne_true

theorem passFormed (passes : origin.Passes files workDir? stage) : stage.Formed := by
  obtain ⟨events, first, starts, reached⟩ := passes
  induction reached with
  | refl => exact startFormed starts
  | tail _ step ih =>
    obtain ⟨_, goes⟩ := step
    exact Stage.goesFormed goes ih

theorem passOnward {next : Stage} (passes : origin.Passes files workDir? stage)
    (onward : Relation.ReflTransGen (Stage.Before (origin.setting files)) stage next) :
    origin.Passes files workDir? next := by
  obtain ⟨events, first, starts, reached⟩ := passes
  exact ⟨events, first, starts, reached.trans onward⟩

end Origin
end MakeTree
