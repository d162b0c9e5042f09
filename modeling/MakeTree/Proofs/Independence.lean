import MakeTree.Proofs.StreamSteps

/-! Variables never show. Every reader is handed the variables and gives them back, and an assignment
looks at the value that is there; but what is read from a line, how it fails, where the stream stands
then and what is told of it are the same whatever variables there are, for nothing is expanded. Two runs
that differ in their variables go side by side: they ask the same questions, make the same calls and tell
the same, except that the messages of the lowest level name values. So a log that is kept from `info` on,
and read again while it grows, gives nothing away. -/
namespace MakeTree
open Text MakeTree.Action LineStream

def Event.isShown : Event → Bool
  | .told message => decide (Level.info.rank ≤ message.level.rank)
  | _ => true

def shownEvents (events : List Event) : List Event := events.filter Event.isShown

theorem messagesShown {least : Level} (informs : Level.info.rank ≤ least.rank) (events : List Event) :
    messagesFrom least (shownEvents events) = messagesFrom least events := by
  unfold messagesFrom shownEvents
  induction events with
  | nil => rfl
  | cons event rest ih =>
    cases event with
    | told message =>
      by_cases kept : Level.info.rank ≤ message.level.rank
      · rw [List.filter_cons_of_pos (by simpa [Event.isShown] using kept)]
        simp only [List.filterMap_cons, Event.message?, List.filter_cons, ih]
      · have low : ¬least.rank ≤ message.level.rank := fun high => kept (Nat.le_trans informs high)
        rw [List.filter_cons_of_neg (by simpa [Event.isShown] using kept), ih]
        simp [Event.message?, low]
    | _ => exact ih

def Log.Informs (log : Log) : Prop := ∀ l ∈ log, Level.info.rank ≤ l.least.rank

namespace LogFile

theorem recordApply (l : LogFile) (events : List Event) :
    l.record events = { l with written := l.written ++ logText l.least events } := by
  cases events with
  | nil => simp [record, logText, messagesFrom]
  | cons event rest => rfl

end LogFile

namespace Log
variable {log : Log} {first second : List Event}

theorem recordInforms (informs : log.Informs) (events : List Event) : (log.record events).Informs := by
  intro l kept
  obtain ⟨before, stood, rfl⟩ := Option.map_eq_some_iff.mp kept
  rw [LogFile.recordApply]
  exact informs before stood

theorem recordShown (informs : log.Informs) (same : shownEvents first = shownEvents second) :
    log.record first = log.record second := by
  cases log with
  | none => rfl
  | some l =>
    have high := informs l rfl
    simp only [record, Option.map_some, LogFile.recordApply, logText]
    rw [← messagesShown high first, same, messagesShown high second]

end Log

inductive Pairs {α β : Type} (related : α → β → Prop) : Except Failure α → Except Failure β → Prop where
  | ok {a b} (fits : related a b) : Pairs related (.ok a) (.ok b)
  | error {failure} : Pairs related (.error failure) (.error failure)

theorem Pairs.read {α β γ : Type} {related : α → β → Prop} {first : Except Failure α}
    {second : Except Failure β} {f : α → γ} {g : β → γ} (pairs : Pairs related first second)
    (same : ∀ a b, related a b → f a = g b) : first.map f = second.map g := by
  cases pairs with
  | error => rfl
  | ok fits => exact congrArg Except.ok (same _ _ fits)

structure Outcome.LooksLike {σ α β : Type} (o : Outcome σ α) (p : Outcome σ β)
    (related : α → β → Prop) : Prop where
  state : o.state = p.state
  events : shownEvents o.events = shownEvents p.events
  result : Pairs related o.result p.result

namespace Action
variable {σ τ α β γ δ : Type} {related : α → β → Prop} {onward : γ → δ → Prop}

def LooksLike (x : Action σ α) (y : Action σ β) (related : α → β → Prop) : Prop :=
  ∀ (log : Log) (s : σ), log.Informs → (x log s).LooksLike (y log s) related

theorem looksSame (x : Action σ α) : x.LooksLike x Eq := by
  intro log s _
  refine ⟨rfl, rfl, ?_⟩
  cases (x log s).result with
  | error failure => exact .error
  | ok a => exact .ok rfl

theorem looksPure {a : α} {b : β} (fits : related a b) :
    (pure a : Action σ α).LooksLike (pure b) related := fun _ _ _ => ⟨rfl, rfl, .ok fits⟩

theorem looksFail (failure : Failure) :
    (fail failure : Action σ α).LooksLike (fail failure) related := fun _ _ _ => ⟨rfl, rfl, .error⟩

theorem looksBind {x : Action σ α} {y : Action σ β} {f : α → Action σ γ} {g : β → Action σ δ}
    (first : x.LooksLike y related) (rest : ∀ a b, related a b → (f a).LooksLike (g b) onward) :
    (x >>= f).LooksLike (y >>= g) onward := by
  intro log s informs
  have like := first log s informs
  rw [bindApply, bindApply]
  generalize x log s = o at like
  generalize y log s = p at like
  obtain ⟨events, t, result⟩ := o
  obtain ⟨others, u, other⟩ := p
  obtain ⟨rfl, shown, pairs⟩ := like
  cases pairs with
  | error => exact ⟨rfl, shown, .error⟩
  | @ok a b fits =>
    -- Both go on from the same log, as it keeps only what shows.
    have after := rest a b fits (log.record events) t (Log.recordInforms informs events)
    simp only [Outcome.andThen]
    rw [← Log.recordShown informs shown]
    refine ⟨after.state, ?_, after.result⟩
    have both := after.events
    simp only [shownEvents] at shown both ⊢
    rw [List.filter_append, List.filter_append, shown, both]

theorem looksThen (x : Action σ α) {f : α → Action σ γ} {g : α → Action σ δ}
    (rest : ∀ a, (f a).LooksLike (g a) onward) : (x >>= f).LooksLike (x >>= g) onward := by
  refine looksBind (looksSame x) fun a b same => ?_
  cases same
  exact rest a

theorem looksIte {c : Prop} [Decidable c] {x y : Action σ α} {v w : Action σ β}
    (yes : x.LooksLike v related) (no : y.LooksLike w related) :
    (if c then x else y).LooksLike (if c then v else w) related := by
  split
  · exact yes
  · exact no

theorem looksWithin {x : Action τ α} {y : Action τ β} (inner : τ) (inside : x.LooksLike y related) :
    (within inner x : Action σ (α × τ)).LooksLike (within inner y)
      fun out other => related out.1 other.1 ∧ out.2 = other.2 := by
  intro log s informs
  have like := inside log inner informs
  refine ⟨rfl, like.events, ?_⟩
  simp only [within]
  generalize x log inner = o at like
  generalize y log inner = p at like
  obtain ⟨events, t, result⟩ := o
  obtain ⟨others, u, other⟩ := p
  obtain ⟨rfl, shown, pairs⟩ := like
  cases pairs with
  | error => exact .error
  | ok fits => exact .ok ⟨fits, rfl⟩

theorem looksRead {x y : Action σ α} {read : α → β}
    (looks : x.LooksLike y fun out other => read out = read other) (s : σ) :
    (x none s).result.map read = (y none s).result.map read :=
  (looks none s fun _ kept => nomatch kept).result.read fun _ _ => id

theorem looksTold {event other : Event} (low : event.isShown = false) (also : other.isShown = false) :
    (emit event : Action σ Unit).LooksLike (emit other) Eq := by
  intro log s _
  refine ⟨rfl, ?_, .ok rfl⟩
  simp [shownEvents, low, also]

end Action

def SameRead {α : Type} (out other : α × Variables) : Prop := out.1 = other.1

def SameReach {α : Type} (out other : Option (α × Variables)) : Prop :=
  out.map Prod.fst = other.map Prod.fst

section
variable {σ : Type} (setting : Setting) (vars others : Variables)

theorem assignLooks (raw value : Text) :
    (assign vars raw value : Action σ _).LooksLike (assign others raw value) SameRead :=
  looksBind (looksTold rfl rfl) fun _ _ _ => looksThen _ fun _ => looksPure rfl

theorem readVariableLooks (line : Text) (location : Option Location) :
    (readVariable vars line location : Action σ _).LooksLike (readVariable others line location)
      SameRead := by
  unfold readVariable
  refine looksIte (looksFail _) (looksIte (looksFail _) (looksIte ?_ ?_))
  · exact looksThen _ fun _ => looksPure rfl
  · split
    · exact looksFail _
    · refine looksIte (looksFail _) (looksBind (assignLooks vars others _ _) ?_)
      rintro ⟨name, after⟩ ⟨_, other⟩ rfl
      exact looksPure rfl

theorem Recipe.readStepLooks (line : Text) (location : Option Location) :
    (readStep setting vars line location).LooksLike (readStep setting others line location)
      SameRead := by
  unfold readStep
  refine looksIte (looksPure rfl) ?_
  split
  · exact readVariableLooks vars others _ _
  · exact readVariableLooks vars others _ _
  · split
    · exact looksFail _
    · refine looksIte (looksThen _ fun _ => looksPure rfl) (looksIte ?_ (looksPure rfl))
      split
      · exact looksThen _ fun _ => looksPure rfl
      · exact looksThen _ fun _ => looksPure rfl

theorem openRuleLooks (line : Text) :
    (openRule setting vars line).LooksLike (openRule setting others line) SameRead := by
  unfold openRule
  refine looksThen _ fun stream => ?_
  split
  · exact looksFail _
  · refine looksIte (looksFail _) (looksIte (looksPure rfl) ?_)
    refine looksBind (looksWithin _ (Recipe.readStepLooks setting vars others _ _)) ?_
    rintro ⟨⟨step, after⟩, directory⟩ ⟨⟨_, other⟩, _⟩ ⟨rfl, rfl⟩
    exact looksPure rfl

theorem beginLooks (line : Text) :
    (beginStatement setting vars line).LooksLike (beginStatement setting others line) SameRead := by
  unfold beginStatement
  refine looksThen _ fun stream => ?_
  split
  · exact looksPure rfl
  · refine looksBind (readVariableLooks vars others _ _) ?_
    rintro ⟨statement, after⟩ ⟨_, other⟩ rfl
    exact looksPure rfl
  · refine looksBind (assignLooks vars others _ _) ?_
    rintro ⟨name, after⟩ ⟨_, other⟩ rfl
    exact looksPure rfl
  · exact looksThen _ fun _ => looksPure rfl
  · exact looksThen _ fun _ => looksPure rfl
  · exact looksFail _
  · refine looksBind (openRuleLooks setting vars others _) ?_
    rintro ⟨block, after⟩ ⟨_, other⟩ rfl
    exact looksPure rfl
  · exact looksThen _ fun _ => looksPure rfl

theorem readWithinLooks (block : Block) (line : Text) :
    (readWithin setting vars block line).LooksLike (readWithin setting others block line) SameRead := by
  refine looksBind (beginLooks setting vars others line) ?_
  rintro ⟨begun, after⟩ ⟨_, other⟩ rfl
  exact looksPure rfl

theorem readElseLooks (before : List Link) (current : Link) (start : Option Location) (rest : Text) :
    (readElse setting vars before current start rest).LooksLike
      (readElse setting others before current start rest) SameRead := by
  refine looksThen _ fun _ => ?_
  split
  · exact looksThen _ fun _ => looksPure rfl
  · exact looksThen _ fun _ => looksPure rfl
  · exact looksIte (looksPure rfl) (readWithinLooks setting vars others _ _)

theorem stepLooks (block : Block) :
    (block.step setting vars).LooksLike (block.step setting others) SameRead := by
  cases block with
  | makefile statements =>
    exact looksThen _ fun _ => looksIte (looksPure rfl)
      (looksThen _ fun _ => readWithinLooks setting vars others _ _)
  | rule header directory recipe =>
    refine looksThen _ fun _ => looksIte (looksThen _ fun line => looksIte (looksPure rfl) ?_)
      (looksPure rfl)
    refine looksThen _ fun stream => looksBind (looksWithin _ (Recipe.readStepLooks setting vars others _ _)) ?_
    rintro ⟨⟨step, after⟩, next⟩ ⟨⟨_, other⟩, _⟩ ⟨rfl, rfl⟩
    exact looksPure rfl
  | link before current start =>
    refine looksThen _ fun _ => looksIte (looksFail _) (looksThen _ fun next => ?_)
    simp only
    split
    · exact looksThen _ fun _ => looksPure rfl
    · exact readElseLooks setting vars others _ _ _ _
    · exact looksThen _ fun _ => readWithinLooks setting vars others _ _
  | otherwise before current start statements =>
    refine looksThen _ fun _ => looksIte (looksFail _) (looksThen _ fun next => ?_)
    split
    · exact looksThen _ fun _ => looksPure rfl
    · exact looksThen _ fun _ => readWithinLooks setting vars others _ _

end

variable (setting : Setting)

theorem runLooks (fuel : Nat) (vars others : Variables) (block : Block) (outer : List Block) :
    (block.run setting fuel vars outer).LooksLike (block.run setting fuel others outer) SameReach := by
  induction fuel generalizing vars others block outer with
  | zero => exact looksPure rfl
  | succ fuel ih =>
    refine looksBind (stepLooks setting vars others block) ?_
    rintro ⟨change, after⟩ ⟨_, other⟩ rfl
    cases change with
    | stay next => exact ih after other next outer
    | nest next inner => exact ih after other inner (next :: outer)
    | close statements =>
      cases outer with
      | nil => exact looksPure rfl
      | cons around outer => exact ih after other (around.addAll statements) outer

theorem headLooks {x y : Action LineStream (Option (List Statement × Variables))}
    (looks : x.LooksLike y SameReach) :
    (do return (← x).map fun (out : List Statement × Variables) => (out.1.head?, out.2)).LooksLike
      (do return (← y).map fun (out : List Statement × Variables) => (out.1.head?, out.2))
      SameReach := by
  refine looksBind looks fun out other same => looksPure ?_
  cases out <;> cases other <;> simp_all [SameReach]

theorem readStatementLooks (fuel : Nat) (vars others : Variables) (line : Text) :
    (readStatement setting fuel vars line).LooksLike (readStatement setting fuel others line)
      SameReach := by
  refine looksBind (beginLooks setting vars others line) ?_
  rintro ⟨begun, after⟩ ⟨_, other⟩ rfl
  cases begun with
  | nothing => exact looksPure rfl
  | whole statement => exact looksPure rfl
  | opened block => exact headLooks (runLooks setting fuel after other block [])

theorem readRuleLooks (fuel : Nat) (vars others : Variables) (line : Text) :
    (readRule setting fuel vars line).LooksLike (readRule setting fuel others line) SameReach := by
  refine looksBind (openRuleLooks setting vars others line) ?_
  rintro ⟨block, after⟩ ⟨_, other⟩ rfl
  exact headLooks (runLooks setting fuel after other block [])

theorem readConditionalLooks (fuel : Nat) (vars others : Variables) (line : Text) :
    (readConditional setting fuel vars line).LooksLike (readConditional setting fuel others line)
      SameReach :=
  looksThen _ fun _ => headLooks (runLooks setting fuel vars others _ [])

def Origin.statements (setting : Setting) (workDir? : Option Text) (fuel : Nat) (vars : Variables)
    (origin : Origin) : Action LineStream (Option (List Statement × Variables)) := do
  origin.start setting.files workDir?
  (Block.makefile []).run setting fuel vars []

structure Shown (σ α : Type) where
  result : Except Failure α
  state : σ
  events : List Event
  messages : List Message

def Outcome.shown {σ α β : Type} (read : α → β) (o : Outcome σ α) : Shown σ β :=
  ⟨o.result.map read, o.state, shownEvents o.events, messagesFrom .info o.events⟩

/-- What shows of the reader is the same with any variables. -/
def Hides {σ α β : Type} (log : Log) (read : α → β) (x : Variables → Action σ α) : Prop :=
  ∀ vars others s, (x others log s).shown read = (x vars log s).shown read

theorem looksHides {σ α β : Type} {log : Log} {read : α → β} {x : Variables → Action σ α}
    (informs : log.Informs)
    (looks : ∀ vars others, (x vars).LooksLike (x others) fun out other => read out = read other) :
    Hides log read x := by
  intro vars others s
  have like := looks others vars log s informs
  have told : messagesFrom .info (x others log s).events = messagesFrom .info (x vars log s).events := by
    rw [← messagesShown (Nat.le_refl _), like.events, messagesShown (Nat.le_refl _)]
  have result := like.result.read fun _ _ => id
  simp only [Outcome.shown, like.state, like.events, told, result]

/-- Variables have no part in what is read: not in a statement, a rule, a conditional or a step of a
recipe, wherever the stream stands, and not in a whole run. -/
theorem variablesUnseen (setting : Setting) (log : Log) (informs : log.Informs) :
    (∀ fuel line, Hides log (Option.map Prod.fst) (readStatement setting fuel · line)) ∧
    (∀ fuel line, Hides log (Option.map Prod.fst) (readRule setting fuel · line)) ∧
    (∀ fuel line, Hides log (Option.map Prod.fst) (readConditional setting fuel · line)) ∧
    (∀ line location, Hides log Prod.fst (Recipe.readStep setting · line location)) ∧
    ∀ (origin : Origin) workDir? fuel,
      Hides log (Option.map Prod.fst) (origin.statements setting workDir? fuel ·) := by
  refine ⟨fun fuel line => ?_, fun fuel line => ?_, fun fuel line => ?_, fun line location => ?_,
    fun origin workDir? fuel => ?_⟩
  · exact looksHides informs fun vars others => readStatementLooks setting fuel vars others line
  · exact looksHides informs fun vars others => readRuleLooks setting fuel vars others line
  · exact looksHides informs fun vars others => readConditionalLooks setting fuel vars others line
  · exact looksHides informs fun vars others =>
      Recipe.readStepLooks setting vars others line location
  · exact looksHides informs fun vars others =>
      looksThen _ fun _ => runLooks setting fuel vars others _ []

def keptLog : Setting where
  files := { workingDirectory := ['/'], entries := [(["log".toList], .file [])] }
  root := ['/']

namespace keptLog

def origin : Origin := .text "Makefile".toList "A += 1\nx\ninclude log\n".toList

def log (least : Level) : Log := some ⟨["log".toList], least, []⟩

def vars : Variables := ⟨[(['A'], ['0'])], [], []⟩

def seen (least : Level) (vars : Variables) : Shown LineStream (Option (List Statement)) :=
  (origin.statements keptLog none 16 vars (log least) (.empty [])).shown (Option.map Prod.fst)

theorem sameStatements :
    (log .info).Informs ∧
    (seen .info vars).result.toOption = some (some [
      .command ['x'], .inclusion "log".toList,
      .rule "WARNING".toList ["mkast.parser:Makefile:2:".toList, "Unhandled:".toList, ['x']]
        (some "/log".toList) [] false]) ∧
    seen .info .empty = seen .info vars := by
  have informs : (log .info).Informs := by
    intro l kept
    cases Option.some.inj kept
    exact Nat.le_refl _
  refine ⟨informs, by decide +kernel, ?_⟩
  exact (variablesUnseen keptLog (log .info) informs).2.2.2.2 origin none 16 vars .empty (.empty [])

end keptLog

example : (keptLog.seen .debug .empty).result.toOption ≠
    (keptLog.seen .debug keptLog.vars).result.toOption := by
  decide +kernel

end MakeTree
