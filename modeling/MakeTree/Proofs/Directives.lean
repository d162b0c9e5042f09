import MakeTree.Proofs.Failures
import MakeTree.Proofs.LineRules
import MakeTree.Proofs.Lookups
import MakeTree.Proofs.Modifiers

/-! Directives that set or unset one variable. Those that are refused change nothing. An export is
refused for want of a name if there are only blanks in front of its equals sign; with modifiers there
it goes through, and sets the variable with the empty name. -/
namespace MakeTree
open Text MakeTree.Action

def argument (line : Text) : Text := trim (afterFirstWord line)

inductive Refused (missing : Text → Prop) (line : Text) : Prop where
  | bare (nothing : argument line = [])
  | valueless (word : firstWord line = Keyword.exported.text) (none : '=' ∉ argument line)
  | nameless {raw value} (word : firstWord line = Keyword.exported.text)
      (split : argument line = raw ++ '=' :: value) (first : '=' ∉ raw) (missing : missing raw)

def refusal (line : Text) : Cause :=
  if argument line = [] then .noVariable (firstWord line) else .noAssignment

theorem refusalKind (line : Text) : (refusal line).kind? = some .exporting := by
  unfold refusal
  split <;> rfl

def assigning (vars : Variables) (raw value : Text) : List Event :=
  let left := LeftSide.ofText raw
  [.debug .data ("Setting variable '".toList ++ left.name ++ "' to '".toList ++
    vars.stored left value ++ ['\'']), .assigned raw value]

inductive Directs {σ : Type} (line : Text) (location : Option Location) (vars : Variables) (s : σ) :
    Outcome σ (Statement × Variables) → Prop where
  | refused (why : Refused (allBlank · = true) line) :
      Directs line location vars s ⟨[], s, .error ⟨refusal line, location⟩⟩
  | exported {raw value} (word : firstWord line = Keyword.exported.text)
      (split : argument line = raw ++ '=' :: value) (first : '=' ∉ raw)
      (solid : allBlank raw = false) :
      Directs line location vars s ⟨assigning vars raw (trim value), s,
        .ok (.exported (LeftSide.ofText raw).name (trim value), vars.set raw (trim value))⟩
  | unexported (word : firstWord line = Keyword.unexported.text) (some : argument line ≠ []) :
      Directs line location vars s ⟨[.unassigned (argument line)], s,
        .ok (.unexported (argument line), vars.unset (argument line))⟩

variable {σ : Type} {line : Text}

theorem argumentTrim (line : Text) : argument (trim line) = argument line := by
  obtain ⟨behind, blank, split⟩ := trimSplit line
  have empty : ∀ c ∈ behind, isBlank c = true := List.all_eq_true.mp blank
  unfold argument afterFirstWord
  rw [trimLeftTrim, trimTrimLeft, trimTrimLeft, split, List.dropWhile_append]
  split
  · rename_i nothing
    have rest : allBlank (behind.dropWhile (!isBlank ·)) = true :=
      List.all_eq_true.mpr fun c inside => empty c (List.dropWhile_subset _ inside)
    rw [List.isEmpty_iff.mp nothing, trimNone rest]
    rfl
  · exact (trimBehind _ empty).symm

theorem readVariableTrim (vars : Variables) (line : Text) (location : Option Location) :
    (readVariable vars (trim line) location : Action σ _) = readVariable vars line location := by
  have same := argumentTrim line
  unfold argument at same
  simp only [readVariable, firstWordTrim, same]

section
variable (keyword : firstWord line = Keyword.exported.text ∨ firstWord line = Keyword.unexported.text)
include keyword

theorem directivesDirect (location : Option Location) (vars : Variables) (s : σ) :
    Directs line location vars s (readVariable vars line location none s) := by
  have word : firstWord line ≠ [] := by
    rcases keyword with word | word
    · rw [word]
      decide
    · rw [word]
      decide
  unfold readVariable
  simp only [if_neg word]
  rw [show trim (afterFirstWord line) = argument line from rfl]
  split
  · rename_i nothing
    have cause : refusal line = .noVariable (firstWord line) := if_pos nothing
    exact cause ▸ .refused (.bare nothing)
  rename_i some
  have cause : refusal line = .noAssignment := if_neg some
  split
  · exact .unexported ‹_› some
  rename_i other
  have exports := keyword.resolve_right other
  cases cut : cutAt '=' (argument line) with
  | mk raw value? =>
    cases value? with
    | none => exact cause ▸ .refused (.valueless exports (cutMissing.mp (by rw [cut])))
    | some value =>
      obtain ⟨split, first⟩ := cutFound.mp cut
      simp only
      split
      · exact cause ▸ .refused (.nameless exports ‹_› first ‹_›)
      · exact .exported exports ‹_› first (Bool.eq_false_iff.mpr ‹_›)

theorem directiveKeyword :
    Keyword.ofLine? (trim line) = some .exported ∨ Keyword.ofLine? (trim line) = some .unexported := by
  simpa only [keywordWord, firstWordTrim] using keyword

theorem directivePlain : startsWith ['#'] (trim line) = false := by
  have found := directiveKeyword keyword
  rw [Bool.eq_false_iff]
  intro comment
  simp [hashKeyword comment] at found

theorem statementDirects (setting : Setting) (fuel : Nat) (vars : Variables) (stream : LineStream) :
    readStatement setting fuel vars line none stream =
      (do
        let (statement, vars) ← readVariable vars line stream.location
        return some (some statement, vars)) none stream := by
  have kind : LineKind.of (trim line) = .variable := by
    simp only [LineKind.of, directivePlain keyword, Bool.false_eq_true, if_false,
      if_pos (directiveKeyword keyword)]
  rw [statementReadAs, kind]
  dsimp only [readAs]
  rw [bindSilent (stateApply none stream), readVariableTrim]

theorem stepDirects (setting : Setting) (vars : Variables) (location : Option Location) :
    Recipe.readStep setting vars line location = readVariable vars line location := by
  unfold Recipe.readStep
  simp only [directivePlain keyword, Bool.false_eq_true, if_false]
  rcases directiveKeyword keyword with found | found
  · simp only [found, readVariableTrim]
  · simp only [found, readVariableTrim]

end

theorem refusedNameless {missing : Text → Prop} {raw value : Text}
    (word : firstWord line = Keyword.exported.text)
    (split : argument line = raw ++ '=' :: value) (first : '=' ∉ raw) :
    Refused missing line ↔ missing raw := by
  constructor
  · rintro (nothing | ⟨_, none⟩ | ⟨_, other, clear, lacks⟩)
    · simp [nothing] at split
    · simp [split] at none
    · exact (cutUnique (split.symm.trans other) first clear).1 ▸ lacks
  · exact .nameless word split first

theorem refusedMore {missing more : Text → Prop} (why : Refused missing line)
    (wider : ∀ raw, missing raw → more raw) : Refused more line := by
  rcases why with nothing | ⟨word, none⟩ | ⟨word, split, first, lacks⟩
  · exact .bare nothing
  · exact .valueless word none
  · exact .nameless word split first (wider _ lacks)

theorem refusedUnexport {missing : Text → Prop} (word : firstWord line = Keyword.unexported.text)
    (some : argument line ≠ []) : ¬Refused missing line := by
  have other : firstWord line ≠ Keyword.exported.text := by
    rw [word]
    decide
  rintro (nothing | ⟨exports, _⟩ | ⟨exports, _⟩)
  · exact some nothing
  · exact other exports
  · exact other exports

theorem blankUnnamed {raw : Text} (blank : allBlank raw = true) : Unnamed raw :=
  ⟨[], [], [], [], [], by simp [trimNone blank], by simp⟩

inductive Obeyed (line : Text) (vars after : Variables) : Statement → Prop where
  | exported {raw value} (word : firstWord line = Keyword.exported.text)
      (split : argument line = raw ++ '=' :: value) (first : '=' ∉ raw)
      (assigned : vars.Assigned (.ofText raw) (trim value) after) :
      Obeyed line vars after (.exported (LeftSide.ofText raw).name (trim value))
  | unexported (word : firstWord line = Keyword.unexported.text)
      (unset : vars.Unset (argument line) after) : Obeyed line vars after (.unexported (argument line))

structure Directed (line : Text) (location : Option Location) (vars : Variables)
    (o : Outcome σ (Statement × Variables)) : Prop where
  refused : o.result = .error ⟨refusal line, location⟩ ↔ Refused (allBlank · = true) line
  kind : (refusal line).kind? = some .exporting
  unchanged : Refused (allBlank · = true) line → replay vars o.events = vars
  obeyed : ¬Refused (allBlank · = true) line →
    ∃ statement after, o.result = .ok (statement, after) ∧ replay vars o.events = after ∧
      Obeyed line vars after statement
  -- An export that no name is left for is refused, or goes through with the empty name.
  unnamed : Refused Unnamed line ↔ Refused (allBlank · = true) line ∨
    ∃ value after, o.result = .ok (.exported [] value, after)

theorem directsDirected {location : Option Location} {vars : Variables} {s : σ}
    {o : Outcome σ (Statement × Variables)} (directs : Directs line location vars s o) :
    Directed line location vars o := by
  have kind := refusalKind line
  cases directs with
  | refused why =>
    refine ⟨iff_of_true rfl why, kind, fun _ => rfl, fun clear => absurd why clear, ?_⟩
    exact iff_of_true (refusedMore why fun _ => blankUnnamed) (.inl why)
  | exported word split first solid =>
    have goes : ¬Refused (allBlank · = true) line := by
      simp [refusedNameless word split first, solid]
    refine ⟨iff_of_false (by simp) goes, kind, fun why => absurd why goes, fun _ => ?_, ?_⟩
    · exact ⟨_, _, rfl, rfl, .exported word split first (Variables.setAssigned ..)⟩
    · rw [refusedNameless word split first, ← nameMissing]
      simp [goes]
  | unexported word some =>
    have goes : ∀ {missing}, ¬Refused missing line := refusedUnexport word some
    refine ⟨iff_of_false (by simp) goes, kind, fun why => absurd why goes, fun _ => ?_, ?_⟩
    · exact ⟨_, _, rfl, rfl, .unexported word (Variables.unsetUnset ..)⟩
    · simp [goes]

structure DirectiveRead (line : Text) (location : Option Location) (s : σ) (vars : Variables) :
    Prop where
  directed : Directed line location vars (readVariable vars line location none s)
  statement : ∀ setting fuel stream, readStatement setting fuel vars line none stream =
    (do
      let (statement, vars) ← readVariable vars line stream.location
      return some (some statement, vars)) none stream
  step : ∀ setting, Recipe.readStep setting vars line location = readVariable vars line location

theorem directivesExact
    (keyword : firstWord line = Keyword.exported.text ∨ firstWord line = Keyword.unexported.text)
    (location : Option Location) (s : σ) (vars : Variables) :
    DirectiveRead line location s vars where
  directed := directsDirected (directivesDirect keyword location vars s)
  statement := fun setting fuel stream => statementDirects keyword setting fuel vars stream
  step := fun setting => stepDirects keyword setting vars location

theorem exportAppends :
    (firstWord "export A += b".toList = Keyword.exported.text ∨
      firstWord "export A += b".toList = Keyword.unexported.text) ∧
    DirectiveRead "export A += b".toList none () ⟨[(['A'], ['a'])], [], []⟩ :=
  ⟨.inl (by decide), directivesExact (.inl (by decide)) none () ⟨[(['A'], ['a'])], [], []⟩⟩

theorem modifierExported :
    (¬∀ line location vars (s : LineStream),
      firstWord line = Keyword.exported.text ∨ firstWord line = Keyword.unexported.text →
        ((∃ failure, (readVariable vars line location none s).result = .error failure) ↔
          Refused Unnamed line)) ∧
    ((Origin.text "Makefile".toList "export ?=x\n".toList).read ⟨['/'], []⟩ none 2).result.map
      (Option.map (·.statements)) = .ok (some [.exported [] ['x']]) := by
  refine ⟨fun exact => ?_, by decide +kernel⟩
  have unnamed : Unnamed ['?'] := ⟨[], [], [], [], ['?'], by decide, by simp⟩
  have split : argument "export ?=x".toList = ['?'] ++ '=' :: ['x'] := by decide
  have refused : Refused Unnamed "export ?=x".toList := .nameless (by decide) split (by decide) unnamed
  obtain ⟨failure, failed⟩ :=
    (exact "export ?=x".toList none .empty (LineStream.empty []) (.inl (by decide))).mpr refused
  have goes : (readVariable .empty "export ?=x".toList none none (LineStream.empty [])).result.isOk =
      true := by decide +kernel
  rw [failed] at goes
  cases goes

end MakeTree
