import MakeTree.Block.Run
import MakeTree.Proofs.RecipeSteps

/-! Readers are handed the variables and give them back; their events keep account of them. What is
given back is what was handed over, changed by the calls among the events in the order of these, so the
events say what the variables have come to also where a reader fails or is left halfway. -/
namespace MakeTree
open Text MakeTree.Action LineStream

theorem replayAppend (vars : Variables) (first second : List Event) :
    replay vars (first ++ second) = replay (replay vars first) second := List.foldl_append ..

namespace Action
variable {σ τ α β : Type} {vars : Variables} {x : Action σ α} {after : α → Variables}

def Accounts (vars : Variables) (x : Action σ α) (after : α → Variables) : Prop :=
  ∀ s a, (x none s).result = .ok a → replay vars (x none s).events = after a

theorem accountsLeaves (leaves : ∀ s, x.Leaves s fun done a _ => replay vars done = after a) :
    x.Accounts vars after := by
  intro s a ok
  rw [replayDeeds]
  exact leavesOk (leaves s) ok

theorem accountsSilent (leaves : ∀ s, x.Leaves s fun done _ _ => done = []) :
    x.Accounts vars fun _ => vars :=
  accountsLeaves fun s => leavesWeaken (leaves s) fun _ _ _ silent => silent ▸ rfl

theorem accountsPure {a : α} (same : vars = after a) : (pure a : Action σ α).Accounts vars after :=
  accountsLeaves fun _ => leavesPure same

theorem accountsFail {failure : Failure} : (fail failure : Action σ α).Accounts vars after :=
  accountsLeaves fun _ => leavesFail

theorem accountsBind {f : α → Action σ β} {last : β → Variables} (first : x.Accounts vars after)
    (rest : ∀ a, (f a).Accounts (after a) last) : (x >>= f).Accounts vars last := by
  intro s b ok
  cases outcome : x none s with
  | mk events t result =>
    cases result with
    | error failure => rw [bindFailed outcome] at ok; cases ok
    | ok a =>
      have here := first s a (by rw [outcome])
      rw [outcome] at here
      rw [bindReturned outcome] at ok ⊢
      rw [Outcome.behind, replayAppend, here]
      exact rest a t b ok

theorem accountsThen {f : α → Action σ β} {last : β → Variables}
    (silent : ∀ s, x.Leaves s fun done _ _ => done = [])
    (rest : ∀ a, (f a).Accounts vars last) : (x >>= f).Accounts vars last :=
  accountsBind (accountsSilent silent) rest

theorem accountsState {f : σ → Action σ β} {last : β → Variables}
    (rest : ∀ s, (f s).Accounts vars last) : (state >>= f).Accounts vars last :=
  accountsThen (fun _ => rfl) rest

theorem accountsIte {c : Prop} [Decidable c] {y : Action σ α} (yes : c → x.Accounts vars after)
    (no : ¬c → y.Accounts vars after) : (if c then x else y).Accounts vars after := by
  split
  · exact yes ‹_›
  · exact no ‹_›

theorem accountsWithin {x : Action τ α} (inside : x.Accounts vars after) (inner : τ) :
    (within inner x : Action σ (α × τ)).Accounts vars fun read => after read.1 := by
  intro s read ok
  obtain ⟨a, result, rfl⟩ := mapOk ok
  exact inside inner a result

end Action

section
variable {σ : Type} (setting : Setting) (vars : Variables)

theorem assignAccounts (raw value : Text) :
    (assign vars raw value : Action σ _).Accounts vars Prod.snd := by
  rintro s _ ⟨⟩
  rfl

theorem readVariableAccounts (line : Text) (location : Option Location) :
    (readVariable vars line location : Action σ _).Accounts vars Prod.snd := by
  unfold readVariable
  refine accountsIte (fun _ => accountsFail) fun _ => accountsIte (fun _ => accountsFail) fun _ => ?_
  refine accountsIte (fun _ => ?_) fun _ => ?_
  · rintro s _ ⟨⟩
    rfl
  · split
    · exact accountsFail
    · refine accountsIte (fun _ => accountsFail) fun _ => ?_
      exact accountsBind (assignAccounts vars _ _) fun _ => accountsPure rfl

theorem Recipe.readStepAccounts (line : Text) (location : Option Location) :
    (readStep setting vars line location).Accounts vars Prod.snd := by
  unfold readStep
  refine accountsIte (fun _ => accountsPure rfl) fun _ => ?_
  split
  · exact readVariableAccounts vars _ _
  · exact readVariableAccounts vars _ _
  · cases split : words (trim line) with
    | nil => exact accountsFail
    | cons word rest =>
      refine accountsIte (fun cargo => ?_) fun _ => accountsIte (fun cd => ?_) fun _ => accountsPure rfl
      · have first : (words (trim line)).head? = some cargoWord := by rw [split, cargo]; rfl
        exact accountsThen (fun _ => leavesWeaken (readCargoLeaves _ _ first) fun _ _ _ read => read.1)
          fun _ => accountsPure rfl
      · cases rest with
        | nil => exact accountsThen (fun _ => rfl) fun _ => accountsPure rfl
        | cons target rest =>
          have leaves := fun directory =>
            changeDirectoryLeaves setting.files location directory (cd ▸ split)
          exact accountsThen (fun directory => leavesWeaken (leaves directory) fun _ _ _ moves => moves.1)
            fun _ => accountsPure rfl

theorem openRuleAccounts (line : Text) : (openRule setting vars line).Accounts vars Prod.snd := by
  unfold openRule
  refine accountsState fun stream => ?_
  split
  · exact accountsFail
  · refine accountsIte (fun _ => accountsFail) fun _ => accountsIte (fun _ => accountsPure rfl) fun _ => ?_
    exact accountsBind (accountsWithin (Recipe.readStepAccounts setting vars _ _) _)
      fun _ => accountsPure rfl

theorem readInclusionAccounts (files : FileTree) (line : Text) :
    (readInclusion files line).Accounts vars fun _ => vars := by
  refine accountsLeaves fun s => leavesWeaken (readInclusionLeaves files line s) fun done _ _ read => ?_
  obtain ⟨_, _, _, _, _, rfl⟩ := read
  rfl

theorem beginAccounts (line : Text) :
    (beginStatement setting vars line).Accounts vars Prod.snd := by
  have links := fun s => leavesWeaken (openLinkLeaves (trim line) s) fun _ _ _ read => read.1
  unfold beginStatement
  refine accountsState fun stream => ?_
  simp only
  split
  · exact accountsPure rfl
  · exact accountsBind (readVariableAccounts vars _ _) fun _ => accountsPure rfl
  · exact accountsBind (assignAccounts vars _ _) fun _ => accountsPure rfl
  · exact accountsBind (readInclusionAccounts vars _ _) fun _ => accountsPure rfl
  · exact accountsThen links fun _ => accountsPure rfl
  · exact accountsFail
  · exact accountsBind (openRuleAccounts setting vars _) fun _ => accountsPure rfl
  · exact accountsThen (fun _ => rfl) fun _ => accountsPure rfl

theorem takeSilent (deferred : Bool) (s : LineStream) :
    (take deferred).Leaves s fun done _ _ => done = [] :=
  leavesWeaken (takeLeaves deferred s) fun _ _ _ taken => taken.1

theorem takeLineSilent (s : LineStream) : takeLine.Leaves s fun done _ _ => done = [] :=
  leavesState (takeSilent _ s)

theorem readWithinAccounts (block : Block) (line : Text) :
    (readWithin setting vars block line).Accounts vars Prod.snd :=
  accountsBind (beginAccounts setting vars line) fun _ => accountsPure rfl

theorem readElseAccounts (before : List Link) (current : Link) (start : Option Location)
    (rest : Text) :
    (readElse setting vars before current start rest).Accounts vars Prod.snd := by
  have links := fun s => leavesWeaken (openLinkLeaves rest s) fun _ _ _ read => read.1
  refine accountsThen (takeSilent _) fun _ => ?_
  split
  · exact accountsThen links fun _ => accountsPure rfl
  · exact accountsThen links fun _ => accountsPure rfl
  · exact accountsIte (fun _ => accountsPure rfl) fun _ => readWithinAccounts setting vars _ _

theorem stepAccounts (block : Block) : (block.step setting vars).Accounts vars Prod.snd := by
  have taken := fun block => accountsThen takeLineSilent fun line =>
    readWithinAccounts setting vars block line
  have ended : ∀ statements, (do let _ ← takeLine; return (.close statements, vars) :
      Action LineStream (Change × Variables)).Accounts vars Prod.snd :=
    fun _ => accountsThen takeLineSilent fun _ => accountsPure rfl
  cases block with
  | makefile statements =>
    exact accountsThen (fun _ => rfl) fun _ => accountsIte (fun _ => accountsPure rfl) fun _ => taken _
  | rule header directory recipe =>
    refine accountsThen (fun _ => rfl) fun _ => accountsIte (fun _ => ?_) fun _ => accountsPure rfl
    refine accountsThen (takeSilent _) fun line => accountsIte (fun _ => accountsPure rfl) fun _ => ?_
    refine accountsState fun stream => ?_
    exact accountsBind (accountsWithin (Recipe.readStepAccounts setting vars _ _) _)
      fun _ => accountsPure rfl
  | link before current start =>
    refine accountsThen (fun _ => rfl) fun _ => accountsIte (fun _ => accountsFail) fun _ => ?_
    refine accountsThen (fun _ => rfl) fun next => ?_
    simp only
    split
    · exact ended _
    · exact readElseAccounts setting vars _ _ _ _
    · exact taken _
  | otherwise before current start statements =>
    refine accountsThen (fun _ => rfl) fun _ => accountsIte (fun _ => accountsFail) fun _ => ?_
    refine accountsThen (fun _ => rfl) fun next => ?_
    split
    · exact ended _
    · exact taken _

end

theorem runAccounts (setting : Setting) (fuel : Nat) (vars : Variables) (block : Block)
    (outer : List Block) {s : LineStream} {statements : List Statement} {last : Variables}
    (ok : (block.run setting fuel vars outer none s).result = .ok (some (statements, last))) :
    last = replay vars (block.run setting fuel vars outer none s).events := by
  induction fuel generalizing vars block outer s with
  | zero => cases ok
  | succ fuel ih =>
    rw [Block.run] at ok ⊢
    cases outcome : block.step setting vars none s with
    | mk events t result =>
      cases result with
      | error failure => rw [bindFailed outcome] at ok; cases ok
      | ok read =>
        obtain ⟨change, after⟩ := read
        have accounts := stepAccounts setting vars block s (change, after) (by rw [outcome])
        rw [outcome] at accounts
        rw [bindReturned outcome] at ok ⊢
        rw [Outcome.behind, replayAppend, accounts]
        cases change with
        | stay next => exact ih after next outer ok
        | nest next inner => exact ih after inner (next :: outer) ok
        | close given =>
          cases outer with
          | nil => cases ok; rfl
          | cons around outer => exact ih after (around.addAll given) outer ok

end MakeTree
