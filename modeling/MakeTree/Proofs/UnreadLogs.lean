import MakeTree.Proofs.Exhaustion
import MakeTree.Proofs.Independence

/-! Logs that nobody reads. A run hears of its own messages only where it has opened the file that they
are written to. With any other log each reader does what it does without one, and leaves the stream as
far apart from that file as before; so the whole run is the same, event by event. -/
namespace MakeTree
open Text MakeTree.Action LineStream

def FileTree.Misses (files : FileTree) (place : Place) (path : Text) : Prop :=
  ∀ bytes, files.openFile path ≠ .ok (place, bytes)

namespace Action
variable {σ τ α β : Type} {files : FileTree} {place : Place} {s : σ} {x y : Action σ α}
  {post : α → σ → Prop}

/-- With a log at `place` the action does what it does without one, unless it includes a file from
there; a result of it meets `post`. -/
def Overlooks (x : Action σ α) (s : σ) (files : FileTree) (place : Place)
    (post : α → σ → Prop) : Prop :=
  (∀ path, .included path ∈ (x none s).events → files.Misses place path) →
    (∀ l : LogFile, l.place = place → x (some l) s = x none s) ∧
    ∀ events t a, x none s = ⟨events, t, .ok a⟩ → post a t

theorem overlooksReturned {events : List Event} {t : σ} {a : α}
    (always : ∀ log, x log s = ⟨events, t, .ok a⟩) (holds : post a t) :
    x.Overlooks s files place post := by
  refine fun _ => ⟨fun l _ => (always (some l)).trans (always none).symm, fun told u b returned => ?_⟩
  cases (always none).symm.trans returned
  exact holds

theorem overlooksPure {a : α} (holds : post a s) :
    (pure a : Action σ α).Overlooks s files place post := overlooksReturned (fun _ => rfl) holds

theorem overlooksFail (failure : Failure) :
    (fail failure : Action σ α).Overlooks s files place post := fun _ => ⟨fun _ _ => rfl, nofun⟩

theorem overlooksWeaken {weaker : α → σ → Prop} (strong : x.Overlooks s files place post)
    (weaken : ∀ a t, post a t → weaker a t) : x.Overlooks s files place weaker := by
  intro spared
  obtain ⟨same, holds⟩ := strong spared
  exact ⟨same, fun events t a returned => weaken a t (holds events t a returned)⟩

theorem overlooksBind {f : α → Action σ β} {last : β → σ → Prop}
    (first : x.Overlooks s files place post)
    (rest : ∀ a t, post a t → (f a).Overlooks t files place last) :
    (x >>= f).Overlooks s files place last := by
  intro spared
  cases outcome : x none s with
  | mk events t result =>
    cases result with
    | error failure =>
      rw [bindFailed outcome] at spared ⊢
      obtain ⟨same, _⟩ := first (by rw [outcome]; exact spared)
      exact ⟨fun l here => thenFailed ((same l here).trans outcome), nofun⟩
    | ok a =>
      rw [bindReturned outcome] at spared ⊢
      obtain ⟨same, holds⟩ := first fun path asked =>
        spared path (List.mem_append_left _ (by rw [outcome] at asked; exact asked))
      obtain ⟨onward, ends⟩ := rest a t (holds _ _ _ outcome) fun path asked =>
        spared path (List.mem_append_right _ asked)
      refine ⟨fun l here => ?_, fun later u b returned => ?_⟩
      · rw [thenReturned ((same l here).trans outcome)]
        refine congrArg (Outcome.behind · events) (onward (l.record events) ?_)
        rw [LogFile.recordApply]
        exact here
      · generalize f a none t = o at ends returned
        obtain ⟨further, v, result⟩ := o
        cases returned
        exact ends _ _ _ rfl

theorem overlooksState {f : σ → Action σ α} (rest : (f s).Overlooks s files place post) :
    (state >>= f).Overlooks s files place post := by
  have asked : (state : Action σ σ).Overlooks s files place fun a t => a = s ∧ t = s :=
    overlooksReturned (fun _ => rfl) ⟨rfl, rfl⟩
  refine overlooksBind asked fun a t same => ?_
  rw [same.1, same.2]
  exact rest

theorem overlooksSet {next : σ} {f : Unit → Action σ α} (rest : (f ()).Overlooks next files place post) :
    (setState next >>= f).Overlooks s files place post := by
  have noted : (setState next).Overlooks s files place fun _ t => t = next :=
    overlooksReturned (fun _ => rfl) rfl
  refine overlooksBind noted fun _ t same => ?_
  rw [same]
  exact rest

theorem overlooksEmit {event : Event} (rest : x.Overlooks s files place post) :
    (emit event >>= fun _ => x).Overlooks s files place post := by
  have told : (emit event).Overlooks s files place fun _ t => t = s :=
    overlooksReturned (fun _ => rfl) rfl
  refine overlooksBind told fun a t same => ?_
  rw [same]
  exact rest

theorem overlooksIte {c : Prop} [Decidable c] (yes : x.Overlooks s files place post)
    (no : y.Overlooks s files place post) : (if c then x else y).Overlooks s files place post := by
  split
  · exact yes
  · exact no

theorem overlooksWithin {x : Action τ α} {inner : τ} {last : α → τ → Prop}
    (inside : x.Overlooks inner files place last) :
    (within inner x : Action σ (α × τ)).Overlooks s files place fun _ t => t = s := by
  intro spared
  obtain ⟨same, _⟩ := inside spared
  refine ⟨fun l here => ?_, fun events t a returned => ?_⟩
  · simp only [within, same l here]
  · exact (congrArg Outcome.state returned).symm

theorem overlooksInto {x : Action τ α} {inner : τ} {put : τ → σ → σ} {last : α → τ → Prop}
    (inside : x.Overlooks inner files place last) :
    (into inner put x).Overlooks s files place fun a t => ∃ u, last a u ∧ t = put u s := by
  intro spared
  obtain ⟨same, holds⟩ := inside spared
  refine ⟨fun l here => ?_, ?_⟩
  · simp only [into, same l here]
  · intro events t a returned
    simp only [into] at returned
    generalize x none inner = o at holds returned
    obtain ⟨told, u, result⟩ := o
    cases returned
    exact ⟨u, holds _ _ _ rfl, rfl⟩

end Action

theorem assignOverlooks {σ : Type} {files : FileTree} {place : Place} (vars : Variables)
    (raw value : Text) (s : σ) :
    (assign vars raw value).Overlooks s files place fun _ t => t = s :=
  overlooksEmit (overlooksEmit (overlooksPure rfl))

theorem readVariableOverlooks {σ : Type} {files : FileTree} {place : Place} (vars : Variables)
    (line : Text) (location : Option Location) (s : σ) :
    (readVariable vars line location).Overlooks s files place fun _ t => t = s := by
  unfold readVariable
  refine overlooksIte (overlooksFail _) (overlooksIte (overlooksFail _) (overlooksIte ?_ ?_))
  · exact overlooksEmit (overlooksPure rfl)
  · split
    · exact overlooksFail _
    · exact overlooksIte (overlooksFail _)
        (overlooksBind (assignOverlooks vars _ _ s) fun _ _ same => overlooksPure same)

section
variable {files : FileTree} {place : Place} {location : Option Location}

namespace Recipe

theorem changeDirectoryOverlooks (tree : FileTree) (target directory : Text) :
    (changeDirectory tree target location).Overlooks directory files place fun _ _ => True := by
  refine overlooksState (overlooksEmit (overlooksIte (overlooksEmit ?_) ?_))
  · exact overlooksReturned (fun _ => rfl) trivial
  · exact overlooksReturned (fun _ => rfl) trivial

theorem findManifestOverlooks {σ : Type} (words : List Text) (s : σ) :
    (findManifest location words).Overlooks s files place fun _ _ => True := by
  induction words with
  | nil => exact overlooksPure trivial
  | cons word rest ih =>
    unfold findManifest
    refine overlooksIte ?_ (overlooksIte (overlooksPure trivial) ih)
    split
    · exact overlooksPure trivial
    · exact overlooksEmit (overlooksPure trivial)

theorem readCargoOverlooks (root line directory : Text) :
    (readCargo root line location).Overlooks directory files place fun _ _ => True := by
  unfold readCargo
  split
  · exact overlooksEmit (overlooksPure trivial)
  · refine overlooksBind (findManifestOverlooks _ _) fun manifest t _ => ?_
    split
    · exact overlooksPure trivial
    · rename_i manifest
      have found : (manifestDirectory root manifest location).Overlooks t files place
          fun _ _ => True := by
        unfold manifestDirectory
        refine overlooksState ?_
        simp only
        split
        · exact overlooksEmit (overlooksPure trivial)
        · exact overlooksPure trivial
      exact overlooksBind found fun _ _ _ => overlooksPure trivial

theorem readStepOverlooks (setting : Setting) (vars : Variables) (line directory : Text) :
    (readStep setting vars line location).Overlooks directory files place fun _ _ => True := by
  have changes : (readVariable vars (trim line) location).Overlooks directory files place
      fun _ _ => True :=
    overlooksWeaken (readVariableOverlooks _ _ _ _) fun _ _ _ => trivial
  unfold readStep
  refine overlooksIte (overlooksPure trivial) ?_
  split
  · exact changes
  · exact changes
  · split
    · exact overlooksFail _
    · refine overlooksIte ?_ (overlooksIte ?_ (overlooksPure trivial))
      · exact overlooksBind (readCargoOverlooks _ _ _) fun _ _ _ => overlooksPure trivial
      · split
        · exact overlooksBind (changeDirectoryOverlooks _ _ _) fun _ _ _ => overlooksPure trivial
        · exact overlooksEmit (overlooksPure trivial)

end Recipe

namespace Source

def Apart (place : Place) (source : Source) : Prop := ∀ feed ∈ source.feed, feed.place ≠ place

variable {s : Source}

theorem growApart (apart : s.Apart place) {l : LogFile} (here : l.place = place) :
    s.grow (some l) = s := by
  unfold grow
  cases fed : s.feed with
  | none => rfl
  | some feed =>
    have other : l.place ≠ feed.place := fun same => apart feed fed (same.symm.trans here)
    simp [Log.addedTo, other, hear]

theorem skipBlankOverlooks (apart : s.Apart place) :
    skipBlank.Overlooks s files place fun _ t => t.Apart place := by
  refine fun _ => ⟨fun l here => ?_, ?_⟩
  · simp only [skipBlank, growApart apart here]
    rfl
  · rintro _ _ _ ⟨⟩
    exact apart

theorem readLineOverlooks (apart : s.Apart place) :
    readLine.Overlooks s files place fun _ t => t.Apart place := by
  refine fun _ => ⟨fun l here => ?_, fun events t line returned => ?_⟩
  · simp only [readLine, growApart apart here]
    rfl
  · simp only [readLine, grow] at returned
    split at returned
    · cases returned
      exact apart
    · split at returned
      · cases returned
        exact apart
      · cases returned
      · cases returned

theorem continuationOverlooks (fuel : Nat) (apart : s.Apart place) :
    (continuation fuel).Overlooks s files place fun _ t => t.Apart place := by
  induction fuel generalizing s with
  | zero => exact overlooksPure apart
  | succ fuel ih =>
    refine overlooksBind (readLineOverlooks apart) fun line t apart => ?_
    cases line with
    | none => exact overlooksPure apart
    | some line =>
      refine overlooksIte (overlooksPure apart) (overlooksIte ?_ (overlooksIte ?_ (overlooksPure apart)))
      · exact overlooksState (overlooksEmit (ih apart))
      · exact overlooksBind (ih apart) fun _ _ apart => overlooksPure apart

theorem joinOverlooks (line : Text) (apart : s.Apart place) :
    (join line).Overlooks s files place fun _ t => t.Apart place :=
  overlooksIte (overlooksPure apart)
    (overlooksState (overlooksBind (continuationOverlooks _ apart) fun _ _ apart =>
      overlooksPure apart))

theorem firstOverlooks (apart : s.Apart place) :
    (do
      skipBlank
      let first ← readLine
      return (first, ← state) : Action Source (Option Text × Source)).Overlooks s files place
        fun found _ => found.2.Apart place :=
  overlooksBind (skipBlankOverlooks apart) fun _ _ apart =>
    overlooksBind (readLineOverlooks apart) fun _ _ apart => overlooksState (overlooksPure apart)

end Source

namespace LineStream

def Apart (place : Place) (s : LineStream) : Prop := ∀ source ∈ s.sources, source.Apart place

variable {s : LineStream} {path : Text}

theorem findLineOverlooks {sources : List Source} (apart : ∀ source ∈ sources, source.Apart place)
    (s : LineStream) : (findLine sources).Overlooks s files place fun _ t => t.Apart place := by
  induction sources generalizing s with
  | nil => exact overlooksState (overlooksReturned (fun _ => rfl) nofun)
  | cons source below ih =>
    obtain ⟨here, beyond⟩ := List.forall_mem_cons.mp apart
    refine overlooksBind (overlooksInto (Source.firstOverlooks here)) fun found t kept => ?_
    obtain ⟨first, source⟩ := found
    obtain ⟨_, here, rfl⟩ := kept
    cases first with
    | none => exact overlooksEmit (ih beyond _)
    | some line =>
      refine overlooksState (overlooksSet (overlooksBind (overlooksInto (Source.joinOverlooks line here)) ?_))
      rintro text t ⟨left, here, rfl⟩
      exact overlooksState (overlooksReturned (fun _ => rfl) (List.forall_mem_cons.mpr ⟨here, beyond⟩))

theorem advanceOverlooks (apart : s.Apart place) :
    advance.Overlooks s files place fun _ t => t.Apart place :=
  overlooksState (findLineOverlooks apart s)

theorem takeOverlooks (deferred : Bool) (apart : s.Apart place) :
    (take deferred).Overlooks s files place fun _ t => t.Apart place := by
  refine overlooksEmit (overlooksState (overlooksSet ?_))
  cases deferred with
  | true => exact overlooksPure apart
  | false =>
    exact overlooksBind (overlooksState (findLineOverlooks apart _)) fun _ _ apart => overlooksPure apart

theorem pushOverlooks (missed : files.Misses place path) (apart : s.Apart place) :
    (push files path).Overlooks s files place fun _ t => t.Apart place := by
  unfold push
  refine overlooksEmit ?_
  cases opened : files.openFile path with
  | error reason => exact overlooksState (overlooksFail _)
  | ok file =>
    obtain ⟨found, bytes⟩ := file
    have other : found ≠ place := by
      rintro rfl
      exact missed bytes opened
    refine overlooksEmit fun _ => ⟨fun l here => ?_, ?_⟩
    · have unwritten : Log.addedTo (some l) found = [] := if_neg (by rw [here]; exact other.symm)
      change Outcome.mk [] { s with
        sources := Source.ofFile path found bytes (Log.addedTo (some l) found) :: s.sources } _ = _
      rw [unwritten]
      rfl
    · rintro _ _ _ ⟨⟩
      refine List.forall_mem_cons.mpr ⟨?_, apart⟩
      rintro feed ⟨⟩
      exact other

theorem goIntoOverlooks (missed : files.Misses place path) (apart : s.Apart place) :
    (goInto files path).Overlooks s files place fun _ t => t.Apart place :=
  overlooksBind (pushOverlooks missed apart) fun _ _ => advanceOverlooks

theorem enterOverlooks (path : Text) (apart : s.Apart place) :
    (enter files path).Overlooks s files place fun _ t => t.Apart place := by
  intro spared
  have missed := spared (Path.normalJoin s.workDir path) (List.mem_cons_self ..)
  exact overlooksState (overlooksEmit (goIntoOverlooks missed apart)) spared

theorem startOverlooks {origin : Origin} (missed : ∀ path, origin = .file path → files.Misses place path)
    (workDir? : Option Text) (s : LineStream) :
    (origin.start files workDir?).Overlooks s files place fun _ t => t.Apart place := by
  cases origin with
  | file path => exact overlooksSet (goIntoOverlooks (missed path rfl) nofun)
  | text path content => exact overlooksSet (advanceOverlooks (List.forall_mem_singleton.mpr nofun))

end LineStream

/-- Wherever the stream stands apart from the place, the reader overlooks a log there and leaves the
stream apart from it. -/
def Ignores {α : Type} (x : Action LineStream α) (files : FileTree) (place : Place) : Prop :=
  ∀ s : LineStream, s.Apart place → x.Overlooks s files place fun _ t => t.Apart place

section
variable {α β : Type} {x y : Action LineStream α}

theorem ignoresPure (a : α) : Ignores (pure a) files place := fun _ apart => overlooksPure apart

theorem ignoresFail (failure : Failure) : Ignores (fail failure : Action LineStream α) files place :=
  fun _ _ => overlooksFail failure

theorem ignoresBind {f : α → Action LineStream β} (first : Ignores x files place)
    (rest : ∀ a, Ignores (f a) files place) : Ignores (x >>= f) files place :=
  fun s apart => overlooksBind (first s apart) rest

theorem ignoresState {f : LineStream → Action LineStream α} (rest : ∀ s, Ignores (f s) files place) :
    Ignores (state >>= f) files place := fun s apart => overlooksState (rest s s apart)

theorem ignoresEmit {event : Event} (rest : Ignores x files place) :
    Ignores (emit event >>= fun _ => x) files place := fun s apart => overlooksEmit (rest s apart)

theorem ignoresIte {c : Prop} [Decidable c] (yes : Ignores x files place) (no : Ignores y files place) :
    Ignores (if c then x else y) files place :=
  fun s apart => overlooksIte (yes s apart) (no s apart)

theorem ignoresStill (still : ∀ s, x.Overlooks s files place fun _ t => t = s) : Ignores x files place :=
  fun s apart => overlooksWeaken (still s) fun _ _ same => same ▸ apart

end

variable {setting : Setting}

theorem readInclusionIgnores (line : Text) : Ignores (readInclusion files line) files place := by
  refine ignoresState fun s => ?_
  simp only
  split
  · rename_i first path extra split
    have entered : Ignores (do enter files path; return .inclusion path : Action LineStream Statement)
        files place :=
      ignoresBind (fun _ => enterOverlooks path) fun _ => ignoresPure _
    exact ignoresIte (ignoresEmit entered) entered
  · exact ignoresFail _

theorem openLinkIgnores (line : Text) : Ignores (openLink line) files place :=
  ignoresState fun _ => ignoresIte (ignoresFail _) (ignoresPure _)

theorem stepWithinIgnores (vars : Variables) (line directory : Text) :
    Ignores (within directory (Recipe.readStep setting vars line location)) files place :=
  ignoresStill fun _ => overlooksWithin (Recipe.readStepOverlooks setting vars line directory)

theorem openRuleIgnores (vars : Variables) (line : Text) :
    Ignores (openRule setting vars line) files place := by
  refine ignoresState fun stream => ?_
  simp only
  split
  · exact ignoresFail _
  · refine ignoresIte (ignoresFail _) (ignoresIte (ignoresPure _) ?_)
    exact ignoresBind (stepWithinIgnores vars _ _) fun _ => ignoresPure _

theorem beginIgnores (vars : Variables) (line : Text) :
    Ignores (beginStatement setting vars line) setting.files place := by
  refine ignoresState fun stream => ?_
  simp only
  split
  · exact ignoresPure _
  · exact ignoresBind (ignoresStill (readVariableOverlooks vars _ _)) fun _ => ignoresPure _
  · exact ignoresBind (ignoresStill (assignOverlooks vars _ _)) fun _ => ignoresPure _
  · exact ignoresBind (readInclusionIgnores _) fun _ => ignoresPure _
  · exact ignoresBind (openLinkIgnores _) fun _ => ignoresPure _
  · exact ignoresFail _
  · exact ignoresBind (openRuleIgnores vars _) fun _ => ignoresPure _
  · exact ignoresEmit (ignoresPure _)

theorem readWithinIgnores (vars : Variables) (block : Block) (line : Text) :
    Ignores (readWithin setting vars block line) setting.files place :=
  ignoresBind (beginIgnores vars line) fun _ => ignoresPure _

theorem peekIgnores : Ignores peek files place := ignoresEmit (ignoresState fun _ => ignoresPure _)

theorem atEndIgnores : Ignores LineStream.atEnd files place :=
  ignoresEmit (ignoresState fun _ => ignoresPure _)

theorem takeIgnores (deferred : Bool) : Ignores (take deferred) files place :=
  fun _ => takeOverlooks deferred

theorem takeLineIgnores : Ignores takeLine files place := ignoresState fun _ => takeIgnores _

theorem readElseIgnores (vars : Variables) (before : List Link) (current : Link)
    (start : Option Location) (rest : Text) :
    Ignores (readElse setting vars before current start rest) setting.files place := by
  refine ignoresBind (takeIgnores _) fun _ => ?_
  split
  · exact ignoresBind (openLinkIgnores _) fun _ => ignoresPure _
  · exact ignoresBind (openLinkIgnores _) fun _ => ignoresPure _
  · exact ignoresIte (ignoresPure _) (readWithinIgnores vars _ _)

theorem stepIgnores (vars : Variables) (block : Block) :
    Ignores (block.step setting vars) setting.files place := by
  have statement : Ignores (takeLine >>= readWithin setting vars block) setting.files place :=
    ignoresBind takeLineIgnores (readWithinIgnores vars block)
  cases block with
  | makefile statements =>
    exact ignoresBind atEndIgnores fun _ => ignoresIte (ignoresPure _) statement
  | rule header directory recipe =>
    refine ignoresBind peekIgnores fun _ => ignoresIte ?_ (ignoresPure _)
    refine ignoresBind (takeIgnores false) fun line => ignoresIte (ignoresPure _) ?_
    exact ignoresState fun _ => ignoresBind (stepWithinIgnores vars line directory) fun _ => ignoresPure _
  | link before current start =>
    refine ignoresBind atEndIgnores fun _ => ignoresIte (ignoresFail _) ?_
    refine ignoresBind peekIgnores fun next => ?_
    simp only
    split
    · exact ignoresBind takeLineIgnores fun _ => ignoresPure _
    · exact readElseIgnores vars _ _ _ _
    · exact statement
  | otherwise before current start statements =>
    refine ignoresBind atEndIgnores fun _ => ignoresIte (ignoresFail _) ?_
    refine ignoresBind peekIgnores fun next => ?_
    split
    · exact ignoresBind takeLineIgnores fun _ => ignoresPure _
    · exact statement

theorem runIgnores (fuel : Nat) (vars : Variables) (block : Block) (outer : List Block) :
    Ignores (block.run setting fuel vars outer) setting.files place := by
  induction fuel generalizing vars block outer with
  | zero => exact ignoresPure _
  | succ fuel ih =>
    refine ignoresBind (stepIgnores vars block) fun read => ?_
    obtain ⟨change, after⟩ := read
    cases change with
    | stay next => exact ih after next outer
    | nest next inner => exact ih after inner (next :: outer)
    | close statements =>
      cases outer with
      | nil => exact ignoresPure _
      | cons around outer => exact ih after (around.addAll statements) outer

theorem readAllOverlooks {origin : Origin}
    (missed : ∀ path, origin = .file path → files.Misses place path) (fuel : Nat) (path : Text)
    (workDir? : Option Text) (s : LineStream) :
    (Makefile.readAll fuel files path (origin.start files workDir?)).Overlooks s files place
      fun _ t => t.Apart place :=
  overlooksBind (startOverlooks missed workDir? s) fun _ =>
    ignoresBind (runIgnores fuel .empty _ []) fun _ => ignoresPure _

end

namespace Origin

/-- No file that a run may come to lies at the place. -/
def Shuns (files : FileTree) (workDir? : Option Text) (origin : Origin) (place : Place) : Prop :=
  ∀ path, origin.Reaches files workDir? path → files.Misses place path

/-- A log that no file of the run is read from makes no difference to it. -/
theorem logUnread {files : FileTree} {workDir? : Option Text} {origin : Origin} {log : Log}
    (shuns : ∀ l ∈ log, origin.Shuns files workDir? l.place) (fuel : Nat) :
    Makefile.readAll fuel files (origin.resolved files).path
        ((origin.resolved files).start files workDir?) log (.empty []) =
      origin.read files workDir? fuel := by
  have unlogged : Makefile.readAll fuel files (origin.resolved files).path
      ((origin.resolved files).start files workDir?) none (.empty []) =
        origin.read files workDir? fuel := by
    cases origin <;> rfl
  cases log with
  | none => exact unlogged
  | some l =>
    have apart := shuns l rfl
    have missed : ∀ path, origin.resolved files = .file path → files.Misses l.place path :=
      fun path read => apart path (.root read)
    have overlooks := readAllOverlooks missed fuel (origin.resolved files).path workDir? (.empty [])
    rw [Overlooks, unlogged] at overlooks
    exact (overlooks fun path entered => apart path (enteredReaches entered)).1 l rfl

end Origin

-- Without the condition there is a difference: the message about the second line is read behind it.
example :
    let files : FileTree := { workingDirectory := ['/'], entries := [(["log".toList], .file [])] }
    let read := fun log => (Makefile.readText 16 files "Makefile".toList "a = b\nx\ninclude log\n".toList
      none log (.empty [])).result.toOption.join.map (·.statements.length)
    read (some ⟨["log".toList], .warning, []⟩) = some 3 ∧ read none = some 2 := by
  decide +kernel

end MakeTree
