import MakeTree.Proofs.Accounts
import MakeTree.Proofs.Termination

/-! The variables at the end, without any blocks or conditions: the lines are delivered one after the
other, and each changes at most one variable, by the kinds of the blocks it stands in alone. What is
known about a line by itself holds of a whole run by following the stages to the end. -/
namespace MakeTree
open Text MakeTree.Action LineStream

/-- The lines that are delivered: behind a line that brings in a file come the lines of the file. -/
inductive Delivers (files : FileTree) (workDir : Text) :
    List Scope → List LogicalLine → List LogicalLine → Prop where
  | nil {scopes} : Delivers files workDir scopes [] []
  | plain {scopes line lines delivered}
      (other : (lineEffect scopes line.text).included = none)
      (onward : Delivers files workDir (lineEffect scopes line.text).scopes lines delivered) :
      Delivers files workDir scopes (line :: lines) (line :: delivered)
  | inclusion {scopes line lines token source delivered}
      (names : (lineEffect scopes line.text).included = some token)
      (opened : files.source? (Path.normalJoin workDir token) = some source)
      (onward : Delivers files workDir (lineEffect scopes line.text).scopes
        (source.remaining ++ lines) delivered) :
      Delivers files workDir scopes (line :: lines) (line :: delivered)

def changes : List Scope → List LogicalLine → List Event
  | _, [] => []
  | scopes, line :: lines =>
    let effect := lineEffect scopes line.text
    effect.change.toList ++ changes effect.scopes lines

variable {files : FileTree} {workDir : Text} {scopes other : List Scope}
  {lines delivered : List LogicalLine}

theorem deliversUnique {again : List LogicalLine}
    (left : Delivers files workDir scopes lines delivered)
    (right : Delivers files workDir scopes lines again) : again = delivered := by
  induction left generalizing again with
  | nil => cases right; rfl
  | plain none _ ih =>
    cases right with
    | plain _ onward => rw [ih onward]
    | inclusion names _ _ => rw [none] at names; cases names
  | inclusion names opened _ ih =>
    cases right with
    | plain none _ => rw [none] at names; cases names
    | inclusion names' opened' onward =>
      cases Option.some.inj (names.symm.trans names')
      cases Option.some.inj (opened.symm.trans opened')
      rw [ih onward]

theorem deliversElsewhere
    (same : ∀ line ∈ lines.head?, lineEffect scopes line.text = lineEffect other line.text)
    (delivers : Delivers files workDir other lines delivered) :
    Delivers files workDir scopes lines delivered ∧
      changes scopes delivered = changes other delivered := by
  cases delivers with
  | nil => exact ⟨.nil, rfl⟩
  | @plain _ line lines delivered none onward =>
    have here := same line rfl
    rw [← here] at none onward
    exact ⟨.plain none onward, by simp only [changes, here]⟩
  | @inclusion _ line lines token source delivered names opened onward =>
    have here := same line rfl
    rw [← here] at names onward
    exact ⟨.inclusion names opened onward, by simp only [changes, here]⟩

theorem replayEffect (vars : Variables) (effect : LineEffect) (workDir : Text) :
    replay vars (effect.deeds workDir) = replay vars effect.change.toList := by
  obtain ⟨change, included, scopes⟩ := effect
  rw [LineEffect.deeds, replayAppend]
  cases included with
  | none => rfl
  | some token => rfl

theorem makefileEnds {setting : Setting} {entered : Prop} {block : Block}
    {statements : List Statement} {rest : List LogicalLine} (top : block.isMakefile = true)
    (moves : block.Moves setting workDir entered lines (.close statements) rest) : lines = [] := by
  generalize closed : Change.close statements = change at moves
  cases moves with
  | finish => rfl
  | statement inside passes begins =>
    obtain ⟨kept, found, _⟩ := withinKept _ _
    rw [← closed] at found
    cases found
  | otherwiseWith keyword unconditional solid begins =>
    obtain ⟨kept, found, _⟩ := withinKept _ _
    rw [← closed] at found
    cases found
  | step | blank | chain | otherwise => cases closed
  | ended | endLink | endOtherwise => cases top

theorem pastShows {files : FileTree} {s t : LineStream} {line : LogicalLine}
    {included : Option Text} (shows : s.Shows (line :: lines)) (past : s.Past files included t) :
    (included = none ∧ t.Shows lines) ∨ ∃ token source, included = some token ∧
      files.source? (s.target token) = some source ∧ t.Shows (source.remaining ++ lines) := by
  cases past with
  | taken => exact .inl ⟨rfl, takenShows shows⟩
  | @entered token source opened =>
    have found := foundShows s.atNext (source :: s.sources)
    have behind : LineStream.pending (source :: s.sources) = source.remaining ++ lines := by
      rw [LineStream.pending, List.flatMap_cons]
      exact congrArg _ shows.behind
    exact .inr ⟨token, source, rfl, opened, behind ▸ found⟩

theorem Stage.goesVars {setting : Setting} {stage next : Stage} {events : List Event}
    (goes : stage.Goes setting events next) : next.vars = replay stage.vars (deeds events) := by
  obtain ⟨t, change, after, steps, step⟩ := goes
  have accounts := stepAccounts setting stage.vars stage.block stage.stream (change, after)
    (congrArg Outcome.result steps)
  rw [steps, replayDeeds] at accounts
  rw [nextVars step]
  exact accounts.symm

theorem Stage.endsSilent {setting : Setting} {stage : Stage}
    {o : Outcome LineStream (List Statement × Variables)} {statements : List Statement}
    {vars : Variables} (last : stage.Ends setting o) (formed : stage.Formed)
    (ok : o.result = .ok (statements, vars)) (shows : stage.stream.Shows lines) :
    lines = [] ∧ vars = stage.vars := by
  cases last with
  | failed steps => cases ok
  | @closed events t statements after outermost steps =>
    have top := formed.tower
    rw [outermost] at top
    obtain ⟨_, rest, _, moves⟩ := stepMoves shows steps
    cases makefileEnds top moves
    have accounts := stepAccounts setting stage.vars stage.block stage.stream (.close statements, after)
      (congrArg Outcome.result steps)
    have does := leavesReturned (stepTreats formed) steps
    rw [steps, replayDeeds] at accounts
    cases ok
    refine ⟨rfl, accounts.symm.trans ?_⟩
    change replay stage.vars (deeds events) = stage.vars
    generalize deeds events = done at does
    cases does with
    | leaves => rfl
    | handles more => rw [shows.eof] at more; cases more

theorem Stage.comesReplays {setting : Setting} {stage : Stage}
    {o : Outcome LineStream (List Statement × Variables)} {statements : List Statement}
    {vars : Variables} (comes : stage.Comes setting o) (formed : stage.Formed)
    (ok : o.result = .ok (statements, vars)) (shows : stage.stream.Shows lines) :
    ∃ delivered, Delivers setting.files stage.stream.workDir stage.scopes lines delivered ∧
      vars = replay stage.vars (changes stage.scopes delivered) := by
  induction comes generalizing lines with
  | ends last =>
    obtain ⟨rfl, same⟩ := Stage.endsSilent last formed ok shows
    exact ⟨[], .nil, same⟩
  | @goes stage events next o step onward ih =>
    have formed' := goesFormed step formed
    have workDir := goesWorkDir step formed
    have kept := goesVars step
    cases goesTreats step formed with
    | leaves same _ silent unread =>
      obtain ⟨delivered, delivers, replays⟩ := ih formed' ok (same ▸ shows)
      rw [workDir] at delivers
      rw [silent] at kept
      have here : ∀ line ∈ lines.head?,
          lineEffect stage.scopes line.text = lineEffect next.scopes line.text := by
        intro line head
        rw [shows.eof, shows.next, Option.mem_def.mp head] at unread
        rcases unread with none | alike
        · rw [List.isEmpty_iff.mp none] at head
          cases head
        · exact alike
      obtain ⟨delivers, alike⟩ := deliversElsewhere here delivers
      refine ⟨delivered, delivers, ?_⟩
      rw [alike, replays, kept]
      rfl
    | handles more _ made scopes past =>
      cases lines with
      | nil => rw [shows.eof] at more; cases more
      | cons line rest =>
        have ahead : stage.stream.next = line.text := shows.next
        rw [ahead] at made scopes past
        have behind : ∀ {delivered}, vars = replay next.vars (changes next.scopes delivered) →
            vars = replay stage.vars (changes stage.scopes (line :: delivered)) := by
          intro delivered replays
          rw [replays, kept, made, replayEffect, changes, replayAppend, scopes]
        rcases pastShows shows past with ⟨none, showsRest⟩ | ⟨token, source, names, opened, showsRest⟩
        · obtain ⟨delivered, delivers, replays⟩ := ih formed' ok showsRest
          rw [workDir, ← scopes] at delivers
          exact ⟨line :: delivered, .plain none delivers, behind replays⟩
        · obtain ⟨delivered, delivers, replays⟩ := ih formed' ok showsRest
          rw [workDir, ← scopes] at delivers
          exact ⟨line :: delivered, .inclusion names opened delivers, behind replays⟩

theorem readAccounts {files : FileTree} {workDir? : Option Text} {fuel : Nat} {origin : Origin}
    {makefile : Makefile} (ok : (origin.read files workDir? fuel).result = .ok (some makefile)) :
    makefile.vars = replay .empty (origin.read files workDir? fuel).events := by
  obtain ⟨events, t, begun, ran⟩ := Origin.readReturned ok
  have starts : origin.Starts files workDir? events ⟨.makefile [], [], t, .empty⟩ := ⟨t, begun, rfl⟩
  rw [Origin.startRead starts, replayAppend, replayDeeds .empty events, Origin.startSilent starts]
  exact runAccounts _ _ _ _ _ ran

/-- The variables at the end are those that the delivered lines leave behind, taken one by one from
the first to the last: conditions are not looked at, and every branch counts. -/
theorem replaysLines (files : FileTree) (workDir? : Option Text) (fuel : Nat) (origin : Origin)
    (makefile : Makefile) (ok : (origin.read files workDir? fuel).result = .ok (some makefile)) :
    ∃ delivered, Delivers files ((origin.resolved files).workDir files workDir?) []
        (origin.pending files) delivered ∧
      (∀ again, Delivers files ((origin.resolved files).workDir files workDir?) []
        (origin.pending files) again → again = delivered) ∧
      makefile.vars = replay .empty (changes [] delivered) := by
  obtain ⟨o, comes, ok, -⟩ := Origin.readComes ok
  cases comes with
  | unopened fails => cases ok
  | @read before stage o starts comes =>
    obtain ⟨⟨statements, vars⟩, result, rfl⟩ := mapOk ok
    obtain ⟨source, opened, around, same⟩ := Origin.startSource starts
    have pending : origin.pending files = source.remaining := by
      rw [Origin.pending, opened]
      rfl
    have shows := foundShows (LineStream.empty ((origin.resolved files).workDir files workDir?))
      [source]
    rw [← same, LineStream.pending, List.flatMap_cons, List.flatMap_nil, List.append_nil,
      ← pending] at shows
    obtain ⟨delivered, delivers, replays⟩ :=
      stage.comesReplays comes (Origin.startFormed starts) result shows
    obtain ⟨s, begun, rfl⟩ := starts
    have workDir : s.workDir = (origin.resolved files).workDir files workDir? := by
      rw [show s = _ from same]
      exact (foundKeeps _ _).1
    have delivers : Delivers files _ [] (origin.pending files) delivered := workDir ▸ delivers
    exact ⟨delivered, delivers, fun again => deliversUnique delivers, replays⟩

def branchedChanges : FileTree where
  workingDirectory := ['/']
  entries := [(["a".toList], .file (encodeUtf8 "G += 7\n".toList))]

namespace branchedChanges

def origin : Origin := .text "Makefile".toList
  "A := 1\nifeq x\nB ?= 2\nelse C = 3\ninclude a\nendif\nt: d ; export D=4\n\tE=5\n\tunexport A\n\texport F=6\n".toList

theorem replayed :
    (origin.read branchedChanges none 20).result.map (Option.map Makefile.vars) = .ok (some
      { values := [(['B'], ['2']), (['C'], ['3']), (['D'], ['4']), (['F'], ['6']), (['G'], ['7'])]
        conditional := [['B']]
        simple := [['A']] }) ∧
    ∃ makefile, (origin.read branchedChanges none 20).result = .ok (some makefile) ∧
      ∃ delivered, Delivers branchedChanges ((origin.resolved branchedChanges).workDir
          branchedChanges none) [] (origin.pending branchedChanges) delivered ∧
        (∀ again, Delivers branchedChanges ((origin.resolved branchedChanges).workDir
          branchedChanges none) [] (origin.pending branchedChanges) again → again = delivered) ∧
        makefile.vars = replay .empty (changes [] delivered) := by
  have vars : (origin.read branchedChanges none 20).result.map (Option.map Makefile.vars) = .ok (some
      { values := [(['B'], ['2']), (['C'], ['3']), (['D'], ['4']), (['F'], ['6']), (['G'], ['7'])]
        conditional := [['B']]
        simple := [['A']] }) := by decide +kernel
  obtain ⟨read, ok, found⟩ := mapOk vars
  obtain ⟨makefile, rfl, _⟩ := Option.map_eq_some_iff.mp found
  exact ⟨vars, makefile, ok, replaysLines branchedChanges none 20 origin makefile ok⟩

end branchedChanges
end MakeTree
