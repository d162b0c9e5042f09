import MakeTree.Proofs.HollowLines
import MakeTree.Proofs.Termination

/-! How reading fails, whatever log is kept and wherever it stands; it prints and reports nothing itself.
Either the line ahead is at fault, and then the failure is placed where this line starts, or a
conditional is still open at the end of the input. Bytes that are no text are placed elsewhere, for they
are met when the line after is looked for; and a path with a null byte is refused behind the question
for it, at no place. -/
namespace MakeTree
open Text MakeTree.Action LineStream

def Cause.isLineFault : Cause → Bool
  | .unterminated | .undecodable _ | .noWords | .nullPath => false
  | .unmatched _ | .noCondition | .noTarget | .noVariable _ | .noAssignment | .noIncludePath
  | .cannotOpen .. => true

/-- Which failures there may be and behind which events. What has been done before takes none away. -/
structure Blame where
  holds : List Event → Failure → Prop
  later : ∀ {events failure}, holds events failure → ∀ before, holds (before ++ events) failure

def AskedNull (events : List Event) : Prop := ∃ path, .lookedUp path ∈ events ∧ '\x00' ∈ path

theorem askedLater {events : List Event} (asked : AskedNull events) (before : List Event) :
    AskedNull (before ++ events) :=
  asked.imp fun _ found => ⟨List.mem_append_right before found.1, found.2⟩

def Silent (events : List Event) : Prop := printedText events = [] ∧ reportedCodes events = []

theorem silentAppend {first second : List Event} (before : Silent first) (behind : Silent second) :
    Silent (first ++ second) := by
  unfold Silent printedText reportedCodes at *
  rw [List.flatMap_append, List.filterMap_append, before.1, before.2, behind.1, behind.2]
  exact ⟨rfl, rfl⟩

namespace Action
variable {σ τ α β : Type} {s : σ} {x y : Action σ α} {post : α → σ → Prop} {blame : Blame}

/-- With any log the action is silent, a result of it meets `post`, and `blame` holds of a failure. -/
def Yields (x : Action σ α) (s : σ) (post : α → σ → Prop) (blame : Blame) : Prop :=
  ∀ log, Silent (x log s).events ∧ match x log s with
    | ⟨_, t, .ok a⟩ => post a t
    | ⟨events, _, .error failure⟩ => blame.holds events failure

theorem yieldsFailed {log : Log} {failure : Failure} (yields : x.Yields s post blame)
    (failed : (x log s).result = .error failure) : blame.holds (x log s).events failure := by
  have here := (yields log).2
  generalize x log s = o at here failed
  obtain ⟨events, t, result⟩ := o
  cases failed
  exact here

theorem yieldsWeaken {weaker : α → σ → Prop} {wider : Blame} (strong : x.Yields s post blame)
    (weaken : ∀ a t, post a t → weaker a t)
    (widen : ∀ events failure, blame.holds events failure → wider.holds events failure) :
    x.Yields s weaker wider := by
  intro log
  obtain ⟨silent, here⟩ := strong log
  refine ⟨silent, ?_⟩
  split
  · rename_i outcome
    rw [outcome] at here
    exact weaken _ _ here
  · rename_i outcome
    rw [outcome] at here
    exact widen _ _ here

theorem yieldsWiden {wider : Blame} (strong : x.Yields s post blame)
    (widen : ∀ events failure, blame.holds events failure → wider.holds events failure) :
    x.Yields s post wider := yieldsWeaken strong (fun _ _ holds => holds) widen

theorem yieldsPure {a : α} (holds : post a s) : (pure a : Action σ α).Yields s post blame :=
  fun _ => ⟨⟨rfl, rfl⟩, holds⟩

theorem yieldsFail {failure : Failure} (blamed : blame.holds [] failure) :
    (fail failure : Action σ α).Yields s post blame := fun _ => ⟨⟨rfl, rfl⟩, blamed⟩

theorem yieldsBind {f : α → Action σ β} {last : β → σ → Prop} (first : x.Yields s post blame)
    (rest : ∀ a t, post a t → (f a).Yields t last blame) : (x >>= f).Yields s last blame := by
  intro log
  obtain ⟨silent, here⟩ := first log
  rw [bindApply]
  generalize x log s = o at silent here
  obtain ⟨events, t, result⟩ := o
  cases result with
  | error failure => exact ⟨silent, here⟩
  | ok a =>
    obtain ⟨onward, there⟩ := rest a t here (log.record events)
    simp only [Outcome.andThen]
    generalize f a (log.record events) t = p at onward there
    obtain ⟨further, u, result⟩ := p
    refine ⟨silentAppend silent onward, ?_⟩
    cases result with
    | error failure => exact blame.later there events
    | ok b => exact there

theorem yieldsState {f : σ → Action σ α} (rest : (f s).Yields s post blame) :
    (state >>= f).Yields s post blame := by
  have asked : (state : Action σ σ).Yields s (fun a t => a = s ∧ t = s) blame :=
    fun _ => ⟨⟨rfl, rfl⟩, rfl, rfl⟩
  refine yieldsBind asked fun a t same => ?_
  rw [same.1, same.2]
  exact rest

theorem yieldsSet {next : σ} {f : Unit → Action σ α} (rest : (f ()).Yields next post blame) :
    (setState next >>= f).Yields s post blame := by
  have noted : (setState next).Yields s (fun _ t => t = next) blame := fun _ => ⟨⟨rfl, rfl⟩, rfl⟩
  refine yieldsBind noted fun _ t same => ?_
  rw [same]
  exact rest

theorem yieldsEmit {event : Event} (silent : Silent [event]) (rest : x.Yields s post blame) :
    (emit event >>= fun _ => x).Yields s post blame := by
  have told : (emit event).Yields s (fun _ t => t = s) blame := fun _ => ⟨silent, rfl⟩
  refine yieldsBind told fun a t same => ?_
  rw [same]
  exact rest

theorem yieldsIte {c : Prop} [Decidable c] (yes : c → x.Yields s post blame)
    (no : ¬c → y.Yields s post blame) : (if c then x else y).Yields s post blame := by
  split
  · exact yes ‹_›
  · exact no ‹_›

theorem yieldsWithin {x : Action τ α} {inner : τ} {last : α → τ → Prop}
    (inside : x.Yields inner last blame) :
    (within inner x : Action σ (α × τ)).Yields s (fun _ t => t = s) blame := by
  intro log
  obtain ⟨silent, here⟩ := inside log
  simp only [within]
  generalize x log inner = o at silent here
  obtain ⟨events, t, result⟩ := o
  refine ⟨silent, ?_⟩
  cases result with
  | error failure => exact here
  | ok a => rfl

theorem yieldsInto {x : Action τ α} {inner : τ} {place : τ → σ → σ} {last : α → τ → Prop}
    (inside : x.Yields inner last blame) :
    (into inner place x).Yields s (fun _ t => ∃ u, t = place u s) blame := by
  intro log
  obtain ⟨silent, here⟩ := inside log
  simp only [into]
  generalize x log inner = o at silent here
  obtain ⟨events, t, result⟩ := o
  refine ⟨silent, ?_⟩
  cases result with
  | error failure => exact here
  | ok a => exact ⟨t, rfl⟩

end Action

theorem wordsBlank (text : Text) : words text = [] ↔ allBlank text = true := by
  fun_induction words text with
  | case1 => simp [allBlank]
  | case2 c rest blank ih => simpa [allBlank, blank] using ih
  | case3 c solid => simpa [allBlank] using solid
  | case4 c solid => simp [allBlank, solid]
  | case5 c solid d rest more none => simp [allBlank, solid, none]
  | case6 c solid d rest more word others split => simp [allBlank, solid, split]

theorem firstWordBlank (text : Text) : firstWord text = [] ↔ allBlank text = true := by
  have blank : allBlank text = true ↔ trimLeft text = [] :=
    List.all_eq_true.trans List.dropWhile_eq_nil_iff.symm
  rw [firstWord, blank]
  cases trimmed : trimLeft text with
  | nil => simp
  | cons c rest => simp [trimLeftHead trimmed]

theorem variableSolid {line : Text} (kind : LineKind.of line = .variable) :
    allBlank line = false := by
  rw [Bool.eq_false_iff]
  intro blank
  have none : Keyword.ofLine? line = none := by
    rw [Keyword.ofLine?, (firstWordBlank line).mpr blank]
    rfl
  unfold LineKind.of at kind
  grind

def lineBlame (location : Option Location) : Blame where
  holds := fun _ failure => failure.cause.isLineFault = true ∧ failure.location = location
  later := fun blamed _ => blamed

variable {σ : Type} {location : Option Location}

theorem yieldsMistake {α : Type} {cause : Cause} {s : σ} {post : α → σ → Prop}
    (blamed : cause.isLineFault = true) :
    (fail ⟨cause, location⟩ : Action σ α).Yields s post (lineBlame location) :=
  yieldsFail ⟨blamed, rfl⟩

theorem assignYields (vars : Variables) (raw value : Text) (s : σ) (blame : Blame) :
    (assign vars raw value).Yields s (fun _ t => t = s) blame :=
  yieldsEmit ⟨rfl, rfl⟩ (yieldsEmit ⟨rfl, rfl⟩ (yieldsPure rfl))

theorem readVariableYields (vars : Variables) {line : Text} (solid : allBlank line = false) (s : σ) :
    (readVariable vars line location).Yields s (fun _ _ => True) (lineBlame location) := by
  have word : firstWord line ≠ [] := by simp [firstWordBlank, solid]
  unfold readVariable
  refine yieldsIte (fun none => absurd none word) fun _ => ?_
  refine yieldsIte (fun _ => yieldsMistake rfl) fun _ => ?_
  refine yieldsIte (fun _ => yieldsEmit ⟨rfl, rfl⟩ (yieldsPure trivial)) fun _ => ?_
  split
  · exact yieldsMistake rfl
  · exact yieldsIte (fun _ => yieldsMistake rfl) fun _ =>
      yieldsBind (assignYields vars _ _ s _) fun _ _ _ => yieldsPure trivial

namespace Recipe

theorem changeDirectoryYields (files : FileTree) (target directory : Text) (blame : Blame) :
    (changeDirectory files target location).Yields directory (fun _ _ => True) blame := by
  refine yieldsState (yieldsEmit ⟨rfl, rfl⟩ ?_)
  exact yieldsIte (fun _ => yieldsEmit ⟨rfl, rfl⟩ fun _ => ⟨⟨rfl, rfl⟩, trivial⟩)
    fun _ _ => ⟨⟨rfl, rfl⟩, trivial⟩

theorem findManifestYields (words : List Text) (s : σ) (blame : Blame) :
    (findManifest location words).Yields s (fun _ _ => True) blame := by
  induction words with
  | nil => exact yieldsPure trivial
  | cons word rest ih =>
    unfold findManifest
    refine yieldsIte (fun _ => ?_) fun _ => yieldsIte (fun _ => yieldsPure trivial) fun _ => ih
    split
    · exact yieldsPure trivial
    · exact yieldsEmit ⟨rfl, rfl⟩ (yieldsPure trivial)

theorem readCargoYields (root line directory : Text) (blame : Blame) :
    (readCargo root line location).Yields directory (fun _ _ => True) blame := by
  unfold readCargo
  split
  · exact yieldsEmit ⟨rfl, rfl⟩ (yieldsPure trivial)
  · refine yieldsBind (findManifestYields _ _ _) fun manifest t _ => ?_
    split
    · exact yieldsPure trivial
    · rename_i manifest
      have found : (manifestDirectory root manifest location).Yields t (fun _ _ => True) blame := by
        unfold manifestDirectory
        refine yieldsState ?_
        simp only
        split
        · exact yieldsEmit ⟨rfl, rfl⟩ (yieldsPure trivial)
        · exact yieldsPure trivial
      exact yieldsBind found fun _ _ _ => yieldsPure trivial

theorem readStepYields (setting : Setting) (vars : Variables) {line : Text}
    (solid : allBlank line = false) (directory : Text) :
    (readStep setting vars line location).Yields directory (fun _ _ => True)
      (lineBlame location) := by
  have trimmed : allBlank (trim line) = false := (trimBlank line).trans solid
  unfold readStep
  simp only
  split
  · exact yieldsPure trivial
  · split
    · exact readVariableYields vars trimmed _
    · exact readVariableYields vars trimmed _
    · split
      · rename_i none
        rw [wordsBlank, trimmed] at none
        cases none
      · refine yieldsIte (fun _ => yieldsBind (readCargoYields _ _ _ _) fun _ _ _ => yieldsPure trivial)
          fun _ => yieldsIte (fun _ => ?_) fun _ => yieldsPure trivial
        split
        · exact yieldsBind (changeDirectoryYields _ _ _ _) fun _ _ _ => yieldsPure trivial
        · exact yieldsEmit ⟨rfl, rfl⟩ (yieldsPure trivial)

end Recipe

def byteBlame : Blame where
  holds := fun _ failure => ∃ fault place, failure = ⟨.undecodable fault, some place⟩
  later := fun blamed _ => blamed

namespace Source

theorem readLineYields (s : Source) : readLine.Yields s (fun _ _ => True) byteBlame := by
  intro log
  unfold readLine
  simp only
  cases (s.grow log).lines with
  | cons line rest => exact ⟨⟨rfl, rfl⟩, trivial⟩
  | nil =>
    cases (s.grow log).ending with
    | finished => exact ⟨⟨rfl, rfl⟩, trivial⟩
    | faulty fault rest => exact ⟨⟨rfl, rfl⟩, _, _, rfl⟩
    | truncated fault bytes => exact ⟨⟨rfl, rfl⟩, _, _, rfl⟩

theorem continuationYields (fuel : Nat) (s : Source) :
    (continuation fuel).Yields s (fun _ _ => True) byteBlame := by
  induction fuel generalizing s with
  | zero => exact yieldsPure trivial
  | succ fuel ih =>
    refine yieldsBind (readLineYields s) fun line t _ => ?_
    cases line with
    | none => exact yieldsPure trivial
    | some line =>
      refine yieldsIte (fun _ => yieldsPure trivial) fun _ => yieldsIte (fun _ => ?_) fun _ => ?_
      · exact yieldsState (yieldsEmit ⟨rfl, rfl⟩ (ih t))
      · exact yieldsIte (fun _ => yieldsBind (ih t) fun _ _ _ => yieldsPure trivial) fun _ =>
          yieldsPure trivial

theorem joinYields (line : Text) (s : Source) :
    (join line).Yields s (fun _ _ => True) byteBlame :=
  yieldsIte (fun _ => yieldsPure trivial) fun _ =>
    yieldsState (yieldsBind (continuationYields _ s) fun _ _ _ => yieldsPure trivial)

theorem firstYields (s : Source) :
    (do
      skipBlank
      let first ← readLine
      return (first, ← state) : Action Source (Option Text × Source)).Yields s (fun _ _ => True)
        byteBlame := by
  have passed : skipBlank.Yields s (fun _ _ => True) byteBlame := fun _ => ⟨⟨rfl, rfl⟩, trivial⟩
  exact yieldsBind passed fun _ t _ => yieldsBind (readLineYields t) fun _ _ _ =>
    yieldsState (yieldsPure trivial)

end Source

theorem findLineYields (sources : List Source) (s : LineStream) :
    (findLine sources).Yields s (fun _ t => t.location = s.location) byteBlame := by
  induction sources generalizing s with
  | nil => exact yieldsState fun _ => ⟨⟨rfl, rfl⟩, rfl⟩
  | cons source below ih =>
    refine yieldsBind (yieldsInto (Source.firstYields source)) fun found t kept => ?_
    obtain ⟨first, source⟩ := found
    obtain ⟨_, rfl⟩ := kept
    cases first with
    | none => exact yieldsEmit ⟨rfl, rfl⟩ (ih _)
    | some line =>
      refine yieldsState (yieldsSet (yieldsBind (yieldsInto (Source.joinYields line source)) ?_))
      rintro text t ⟨_, rfl⟩
      exact yieldsState fun _ => ⟨⟨rfl, rfl⟩, rfl⟩

inductive Unread (location : Option Location) (events : List Event) : Failure → Prop where
  | closed {path reason} : Unread location events ⟨.cannotOpen path reason, location⟩
  | bytes {fault place} : Unread location events ⟨.undecodable fault, some place⟩
  | null (asked : AskedNull events) : Unread location events ⟨.nullPath, none⟩

def unreadBlame (location : Option Location) : Blame where
  holds := Unread location
  later := fun unread before => by
    cases unread with
    | closed => exact .closed
    | bytes => exact .bytes
    | null asked => exact .null (askedLater asked before)

theorem byteUnread (events : List Event) (failure : Failure)
    (blamed : byteBlame.holds events failure) : Unread location events failure := by
  obtain ⟨_, _, rfl⟩ := blamed
  exact .bytes

inductive Fault (location : Option Location) (events : List Event) : Failure → Prop where
  | line {cause} (blamed : cause.isLineFault = true) : Fault location events ⟨cause, location⟩
  | bytes {fault place} : Fault location events ⟨.undecodable fault, some place⟩
  | null (asked : AskedNull events) : Fault location events ⟨.nullPath, none⟩

def faultBlame (location : Option Location) : Blame where
  holds := Fault location
  later := fun fault before => by
    cases fault with
    | line blamed => exact .line blamed
    | bytes => exact .bytes
    | null asked => exact .null (askedLater asked before)

theorem unreadFault (events : List Event) (failure : Failure) (unread : Unread location events failure) :
    Fault location events failure := by
  cases unread with
  | closed => exact .line rfl
  | bytes => exact .bytes
  | null asked => exact .null asked

theorem lineFault (events : List Event) (failure : Failure)
    (blamed : (lineBlame location).holds events failure) : Fault location events failure := by
  obtain ⟨cause, place⟩ := failure
  obtain ⟨line, rfl⟩ := blamed
  exact .line line

theorem advanceYields (s : LineStream) : advance.Yields s (fun _ _ => True) byteBlame :=
  yieldsState (yieldsWeaken (findLineYields s.sources s) (fun _ _ _ => trivial) fun _ _ holds => holds)

theorem takeYields (deferred : Bool) (s : LineStream) :
    (take deferred).Yields s (fun text t => text = s.next ∧ t.location = s.nextLocation)
      byteBlame := by
  refine yieldsEmit ⟨rfl, rfl⟩ (yieldsState (yieldsSet ?_))
  cases deferred with
  | true => exact yieldsPure ⟨rfl, rfl⟩
  | false =>
    refine yieldsBind (yieldsState (findLineYields _ _)) fun _ t located => ?_
    exact yieldsPure ⟨rfl, located⟩

theorem FileTree.walkNull (files : FileTree) (here : Place) (names : List Text) :
    files.walk here names ≠ .error .nullByte := by
  fun_induction FileTree.walk files here names <;> simp_all

theorem FileTree.openNull {files : FileTree} {path : Text}
    (refused : files.openFile path = .error .nullByte) : '\x00' ∈ path := by
  by_contra plain
  unfold openFile resolve at refused
  rw [if_neg plain] at refused
  grind [walkNull]

theorem pushYields (files : FileTree) (path : Text) (s : LineStream) :
    (push files path).Yields s (fun _ _ => True) (unreadBlame s.location) := by
  intro log
  unfold push
  cases opened : files.openFile path with
  | ok file => exact ⟨⟨rfl, rfl⟩, trivial⟩
  | error reason =>
    refine ⟨⟨rfl, rfl⟩, ?_⟩
    cases reason with
    | nullByte => exact .null ⟨path, List.mem_singleton.mpr rfl, FileTree.openNull opened⟩
    | missing | notDirectory | isDirectory | nameTooLong => exact .closed

theorem goIntoYields (files : FileTree) (path : Text) (s : LineStream) :
    (goInto files path).Yields s (fun _ _ => True) (unreadBlame s.location) :=
  yieldsBind (pushYields files path s) fun _ t _ => yieldsWiden (advanceYields t) byteUnread

theorem readInclusionYields (files : FileTree) (line : Text) (s : LineStream) :
    (readInclusion files line).Yields s (fun _ _ => True) (faultBlame s.location) := by
  unfold readInclusion
  refine yieldsState ?_
  simp only
  split
  · rename_i first path extra split
    have entered : (do enter files path; return .inclusion path : Action LineStream Statement).Yields s
        (fun _ _ => True) (faultBlame s.location) :=
      yieldsBind
        (yieldsState (yieldsEmit ⟨rfl, rfl⟩ (yieldsWiden (goIntoYields files _ s) unreadFault)))
        fun _ _ _ => yieldsPure trivial
    exact yieldsIte (fun _ => yieldsEmit ⟨rfl, rfl⟩ entered) fun _ => entered
  · exact yieldsFail (.line rfl)

theorem openLinkYields (line : Text) (s : LineStream) :
    (openLink line).Yields s (fun _ _ => True) (lineBlame s.location) :=
  yieldsState (yieldsIte (fun _ => yieldsMistake rfl) fun _ => yieldsPure trivial)

theorem openRuleYields (setting : Setting) (vars : Variables) (line : Text) (s : LineStream) :
    (openRule setting vars line).Yields s (fun _ _ => True) (lineBlame s.location) := by
  unfold openRule
  refine yieldsState ?_
  simp only
  split
  · exact yieldsMistake rfl
  · refine yieldsIte (fun _ => yieldsMistake rfl) fun _ => ?_
    refine yieldsIte (fun _ => yieldsPure trivial) fun solid => ?_
    exact yieldsBind (yieldsWithin (Recipe.readStepYields setting vars (by simpa using solid) _))
      fun _ _ _ => yieldsPure trivial

theorem beginPlainYields (setting : Setting) (vars : Variables) {line : Text}
    (other : LineKind.of (trim line) ≠ .inclusion) (s : LineStream) :
    (beginStatement setting vars line).Yields s (fun _ _ => True) (lineBlame s.location) := by
  unfold beginStatement
  refine yieldsState ?_
  simp only
  split
  · exact yieldsPure trivial
  · rename_i kind
    exact yieldsBind (readVariableYields vars (variableSolid kind) s) fun _ _ _ => yieldsPure trivial
  · exact yieldsBind (assignYields vars _ _ s _) fun _ _ _ => yieldsPure trivial
  · contradiction
  · exact yieldsBind (openLinkYields _ s) fun _ _ _ => yieldsPure trivial
  · exact yieldsMistake rfl
  · exact yieldsBind (openRuleYields _ vars _ s) fun _ _ _ => yieldsPure trivial
  · exact yieldsEmit ⟨rfl, rfl⟩ (yieldsPure trivial)

theorem beginYields (setting : Setting) (vars : Variables) (line : Text) (s : LineStream) :
    (beginStatement setting vars line).Yields s (fun _ _ => True) (faultBlame s.location) := by
  cases directive : isInclude line with
  | false =>
    have other : LineKind.of (trim line) ≠ .inclusion := by simp [inclusionKind, directive]
    exact yieldsWiden (beginPlainYields setting vars other s) lineFault
  | true =>
    rw [beginInclusion directive]
    exact yieldsState (yieldsBind (readInclusionYields _ _ s) fun _ _ _ => yieldsPure trivial)

theorem readWithinYields (setting : Setting) (vars : Variables) (block : Block) (line : Text)
    (s : LineStream) :
    (readWithin setting vars block line).Yields s (fun _ _ => True) (faultBlame s.location) :=
  yieldsBind (beginYields setting vars line s) fun _ _ _ => yieldsPure trivial

section
variable {α : Type} {s : LineStream} {post : α → LineStream → Prop} {blame : Blame}

theorem yieldsPeek {f : Text → Action LineStream α} (rest : (f s.next).Yields s post blame) :
    (peek >>= f).Yields s post blame := by
  have asked : peek.Yields s (fun text t => text = s.next ∧ t = s) blame :=
    fun _ => ⟨⟨rfl, rfl⟩, rfl, rfl⟩
  refine yieldsBind asked fun text t same => ?_
  rw [same.1, same.2]
  exact rest

theorem yieldsAtEnd {f : Bool → Action LineStream α} (rest : (f s.eof).Yields s post blame) :
    (atEnd >>= f).Yields s post blame := by
  have asked : atEnd.Yields s (fun eof t => eof = s.eof ∧ t = s) blame :=
    fun _ => ⟨⟨rfl, rfl⟩, rfl, rfl⟩
  refine yieldsBind asked fun eof t same => ?_
  rw [same.1, same.2]
  exact rest

theorem yieldsTaken {x : Action LineStream Text} {f : Text → Action LineStream α}
    (taken : x.Yields s (fun text t => text = s.next ∧ t.location = s.nextLocation) byteBlame)
    (rest : ∀ t, t.location = s.nextLocation →
      (f s.next).Yields t post (faultBlame s.nextLocation)) :
    (x >>= f).Yields s post (faultBlame s.nextLocation) := by
  have widened : x.Yields s (fun text t => text = s.next ∧ t.location = s.nextLocation)
      (faultBlame s.nextLocation) :=
    yieldsWiden taken fun _ _ blamed => unreadFault _ _ (byteUnread _ _ blamed)
  refine yieldsBind widened fun line t same => ?_
  rw [same.1]
  exact rest t same.2

end

theorem takeLineYields (s : LineStream) :
    takeLine.Yields s (fun text t => text = s.next ∧ t.location = s.nextLocation) byteBlame :=
  yieldsState (takeYields _ s)

theorem statementYields (setting : Setting) (vars : Variables) (block : Block) (s : LineStream) :
    (takeLine >>= fun line => readWithin setting vars block line).Yields s (fun _ _ => True)
      (faultBlame s.nextLocation) :=
  yieldsTaken (takeLineYields s) fun t here => here ▸ readWithinYields setting vars block _ t

theorem endYields {change : Change × Variables} (s : LineStream) :
    (takeLine >>= fun _ => pure change).Yields s (fun _ _ => True) (faultBlame s.nextLocation) :=
  yieldsTaken (takeLineYields s) fun _ _ => yieldsPure trivial

theorem readElseYields (setting : Setting) (vars : Variables) (before : List Link) (current : Link)
    (start : Option Location) (rest : Text) (s : LineStream) :
    (readElse setting vars before current start rest).Yields s (fun _ _ => True)
      (faultBlame s.nextLocation) := by
  refine yieldsTaken (takeYields _ s) fun t here => ?_
  have links : (openLink rest).Yields t (fun _ _ => True) (faultBlame t.location) :=
    yieldsWiden (openLinkYields rest t) lineFault
  have begins := readWithinYields setting vars (.otherwise before current start []) rest t
  rw [here] at links begins
  split
  · exact yieldsBind links fun _ _ _ => yieldsPure trivial
  · exact yieldsBind links fun _ _ _ => yieldsPure trivial
  · exact yieldsIte (fun _ => yieldsPure trivial) fun _ => begins

def Block.start? : Block → Option (Option Location)
  | .makefile _ | .rule .. => none
  | .link _ _ start => some start
  | .otherwise _ _ start _ => some start

inductive Block.Blames (block : Block) (s : LineStream) (events : List Event) : Failure → Prop where
  | ahead {failure} (more : s.eof = true → s.next ≠ [])
      (fault : Fault s.nextLocation events failure) : Blames block s events failure
  | unended {start} (ended : s.eof = true) (begun : block.start? = some start) :
      Blames block s events ⟨.unterminated, start⟩

def Block.blame (block : Block) (s : LineStream) : Blame where
  holds := block.Blames s
  later := fun blamed before => by
    cases blamed with
    | ahead more fault => exact .ahead more ((faultBlame _).later fault before)
    | unended ended begun => exact .unended ended begun

theorem blamesAhead {α : Type} {x : Action LineStream α} {s : LineStream} (block : Block)
    (more : s.eof = true → s.next ≠ [])
    (yields : x.Yields s (fun _ _ => True) (faultBlame s.nextLocation)) :
    x.Yields s (fun _ _ => True) (block.blame s) :=
  yieldsWiden yields fun _ _ fault => .ahead more fault

theorem stepYields (setting : Setting) (vars : Variables) (block : Block) (s : LineStream) :
    (block.step setting vars).Yields s (fun _ _ => True) (block.blame s) := by
  unfold Block.step
  cases block with
  | makefile statements =>
    refine yieldsAtEnd (yieldsIte (fun _ => yieldsPure trivial) fun more => ?_)
    exact blamesAhead _ (absurd · more) (statementYields _ vars _ s)
  | rule header directory recipe =>
    refine yieldsPeek (yieldsIte (fun tab => ?_) fun _ => yieldsPure trivial)
    have more : s.next ≠ [] := by
      intro empty
      rw [empty] at tab
      cases tab
    refine blamesAhead _ (fun _ => more) (yieldsTaken (takeYields false s) fun t here => ?_)
    refine yieldsIte (fun _ => yieldsPure trivial) fun solid => yieldsState ?_
    rw [here]
    have stepped : (Recipe.readStep setting vars s.next s.nextLocation).Yields directory
        (fun _ _ => True) (faultBlame s.nextLocation) :=
      yieldsWiden (Recipe.readStepYields setting vars (by simpa using solid) _) lineFault
    exact yieldsBind (yieldsWithin stepped) fun _ _ _ => yieldsPure trivial
  | link before current start =>
    refine yieldsAtEnd (yieldsIte (fun eof => yieldsFail (.unended eof rfl)) fun more => ?_)
    refine blamesAhead _ (absurd · more) (yieldsPeek ?_)
    simp only
    split
    · exact endYields s
    · exact readElseYields _ vars _ _ _ _ s
    · exact statementYields _ vars _ s
  | otherwise before current start statements =>
    refine yieldsAtEnd (yieldsIte (fun eof => yieldsFail (.unended eof rfl)) fun more => ?_)
    refine blamesAhead _ (absurd · more) (yieldsPeek ?_)
    split
    · exact endYields s
    · exact statementYields _ vars _ s

def readingBlame : Blame where
  holds := fun events failure => failure.cause.isFinding = true ∨
    failure = ⟨.nullPath, none⟩ ∧ AskedNull events
  later := fun blamed before => blamed.imp_right fun null => ⟨null.1, askedLater null.2 before⟩

theorem faultReading {location : Option Location} (events : List Event) (failure : Failure)
    (fault : Fault location events failure) : readingBlame.holds events failure := by
  cases fault with
  | @line cause blamed => exact .inl (by cases cause <;> first | rfl | cases blamed)
  | bytes => exact .inl rfl
  | null asked => exact .inr ⟨rfl, asked⟩

theorem blamesReading {block : Block} {s : LineStream} (events : List Event) (failure : Failure)
    (blames : block.Blames s events failure) : readingBlame.holds events failure := by
  cases blames with
  | ahead _ fault => exact faultReading _ _ fault
  | unended => exact .inl rfl

theorem runYields (setting : Setting) (fuel : Nat) (vars : Variables) (block : Block)
    (outer : List Block) (s : LineStream) :
    (block.run setting fuel vars outer).Yields s (fun _ _ => True) readingBlame := by
  induction fuel generalizing vars block outer s with
  | zero => exact yieldsPure trivial
  | succ fuel ih =>
    refine yieldsBind (yieldsWiden (stepYields setting vars block s) blamesReading) fun read t _ => ?_
    obtain ⟨change, after⟩ := read
    cases change with
    | stay next => exact ih after next outer t
    | nest next inner => exact ih after inner (next :: outer) t
    | close statements =>
      cases outer with
      | nil => exact yieldsPure trivial
      | cons around outer => exact ih after (around.addAll statements) outer t

theorem startYields (files : FileTree) (workDir? : Option Text) (origin : Origin)
    (s : LineStream) :
    (origin.start files workDir?).Yields s (fun _ _ => True) (unreadBlame none) := by
  cases origin with
  | file path => exact yieldsSet (goIntoYields files path (empty (workDirFor files path workDir?)))
  | text path content => exact yieldsSet (yieldsWiden (advanceYields _) byteUnread)

theorem readAllYields (fuel : Nat) (files : FileTree) (path : Text) (workDir? : Option Text)
    (origin : Origin) (s : LineStream) :
    (Makefile.readAll fuel files path (origin.start files workDir?)).Yields s (fun _ _ => True)
      readingBlame := by
  have starts : (origin.start files workDir?).Yields s (fun _ _ => True) readingBlame :=
    yieldsWiden (startYields files workDir? origin s) fun _ _ unread =>
      faultReading _ _ (unreadFault _ _ unread)
  exact yieldsBind starts fun _ t _ =>
    yieldsBind (runYields _ fuel .empty _ [] t) fun _ _ _ => yieldsPure trivial

theorem startEnters (files : FileTree) (workDir? : Option Text) (origin : Origin) (s : LineStream)
    (path : Text) : .included path ∉ (origin.start files workDir? none s).events := by
  obtain ⟨first, told, messages, asked, events⟩ := origin.startEvents s files workDir?
  rw [events]
  intro member
  rcases List.mem_append.mp member with early | late
  · cases asked _ early
  · obtain ⟨message, same⟩ := messages _ late
    cases same

theorem readBlames {files : FileTree} {workDir? : Option Text} {fuel : Nat} {origin : Origin}
    {failure : Failure} (failed : (origin.read files workDir? fuel).result = .error failure) :
    (Unread none (origin.read files workDir? fuel).events failure ∧
      ∀ path, .included path ∉ (origin.read files workDir? fuel).events) ∨
    ∃ stage events t, origin.Passes files workDir? stage ∧
      stage.block.step (origin.setting files) stage.vars none stage.stream =
        ⟨events, t, .error failure⟩ ∧
      stage.block.Blames stage.stream events failure := by
  obtain ⟨o, comes, failed, same⟩ := Origin.readFails failed
  rw [same]
  cases comes with
  | @unopened events t failure' fails =>
    cases failed
    have unread := yieldsFailed (startYields files workDir? (origin.resolved files) (empty []))
      (congrArg Outcome.result fails)
    rw [fails] at unread
    refine .inl ⟨unread, fun path => ?_⟩
    have never := startEnters files workDir? (origin.resolved files) (empty []) path
    rw [fails] at never
    exact never
  | @read before stage o starts comes =>
    have ends : (o.behind before).result = .error failure := Origin.wholeFailed.mp failed
    obtain ⟨last, events, t, reached, steps⟩ := comesFailed comes ends
    have passes : origin.Passes files workDir? last := ⟨before, stage, starts, reached⟩
    have blames := yieldsFailed (stepYields (origin.setting files) last.vars last.block last.stream)
      (congrArg Outcome.result steps)
    rw [steps] at blames
    exact .inr ⟨last, events, t, passes, steps, blames⟩

end MakeTree
