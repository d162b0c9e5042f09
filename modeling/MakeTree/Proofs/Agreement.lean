import MakeTree.Proofs.Deeds

/-! Two runs that come to the same. They start from different states and with different variables, and
lines of the one may stand further down in their file than those of the other. Both do the same deeds,
and they give results that belong together or fail alike. -/
namespace MakeTree
open Text MakeTree.Action

def Location.down (lines : Nat) (place : Location) : Location :=
  { place with line := place.line + lines }

def Shifted (lines : Nat) (place other : Option Location) : Prop :=
  other = place ∨ other = place.map (Location.down lines)

structure Failure.Shifted (lines : Nat) (failure other : Failure) : Prop where
  cause : other.cause = failure.cause
  location : MakeTree.Shifted lines failure.location other.location

theorem ofAccessShifted {lines : Nat} {place other : Option Location}
    (near : MakeTree.Shifted lines place other) (path : Text) (reason : AccessError) :
    (Failure.ofAccess path place reason).Shifted lines (Failure.ofAccess path other reason) := by
  cases reason with
  | nullByte => exact ⟨rfl, .inl rfl⟩
  | missing | notDirectory | isDirectory | nameTooLong => exact ⟨rfl, near⟩

theorem downZero (place : Location) : place.down 0 = place := by
  simp [Location.down]

theorem shiftedZero {place other : Option Location} (near : Shifted 0 place other) :
    other = place := by
  rcases near with same | down
  · exact same
  · cases place with
    | none => exact down
    | some place => exact down.trans (congrArg some (downZero place))

theorem failureShiftedZero {failure other : Failure} (alike : failure.Shifted 0 other) :
    other = failure := by
  obtain ⟨cause, place⟩ := failure
  obtain ⟨same, near⟩ := alike
  cases shiftedZero near
  cases same
  rfl

theorem shiftedPath {lines : Nat} {place : Location} {other : Option Location}
    (near : Shifted lines (some place) other) :
    ∃ there, other = some there ∧ there.path = place.path := by
  rcases near with rfl | rfl
  · exact ⟨place, rfl, rfl⟩
  · exact ⟨place.down lines, rfl, rfl⟩

variable {σ τ α β : Type} {lines : Nat}

inductive Outcome.Agrees (lines : Nat) (post : α → α → σ → σ → Prop) :
    Outcome σ α → Outcome σ α → Prop where
  | ok {events more s t a b} (same : deeds more = deeds events) (holds : post a b s t) :
      Agrees lines post ⟨events, s, .ok a⟩ ⟨more, t, .ok b⟩
  | failed {events more s t failure other} (alike : failure.Shifted lines other) :
      Agrees lines post ⟨events, s, .error failure⟩ ⟨more, t, .error other⟩

theorem agreesBehind {post : α → α → σ → σ → Prop} {o p : Outcome σ α} {events more : List Event}
    (agrees : o.Agrees lines post p) (same : deeds more = deeds events) :
    (o.behind events).Agrees lines post (p.behind more) := by
  cases agrees with
  | ok later holds => exact .ok (by rw [deedsAppend, deedsAppend, same, later]) holds
  | failed alike => exact .failed alike

namespace Action
variable {x y : Action σ α} {s t : σ} {post : α → α → σ → σ → Prop}

def Agree (lines : Nat) (x y : Action σ α) (s t : σ) (post : α → α → σ → σ → Prop) : Prop :=
  (x none s).Agrees lines post (y none t)

theorem agreePure {a b : α} (holds : post a b s t) :
    Agree lines (pure a) (pure b) s t post := .ok rfl holds

theorem agreeFail {failure other : Failure} (alike : failure.Shifted lines other) :
    Agree lines (fail failure) (fail other) s t post := .failed alike

theorem agreeWeaken {weaker : α → α → σ → σ → Prop} (strong : Agree lines x y s t post)
    (weaken : ∀ a b u v, post a b u v → weaker a b u v) : Agree lines x y s t weaker := by
  unfold Agree at strong ⊢
  generalize x none s = o at strong ⊢
  generalize y none t = p at strong ⊢
  cases strong with
  | ok same holds => exact .ok same (weaken _ _ _ _ holds)
  | failed alike => exact .failed alike

theorem agreeBind {f g : α → Action σ β} {last : β → β → σ → σ → Prop}
    (first : Agree lines x y s t post)
    (rest : ∀ a b u v, post a b u v → Agree lines (f a) (g b) u v last) :
    Agree lines (x >>= f) (y >>= g) s t last := by
  unfold Agree at first ⊢
  generalize left : x none s = o at first
  generalize right : y none t = p at first
  cases first with
  | ok same holds =>
    rw [bindReturned left, bindReturned right]
    exact agreesBehind (rest _ _ _ _ holds) same
  | failed alike =>
    rw [bindFailed left, bindFailed right]
    exact .failed alike

theorem agreeState {f g : σ → Action σ α} (rest : Agree lines (f s) (g t) s t post) :
    Agree lines (state >>= f) (state >>= g) s t post := by
  unfold Agree
  rw [bindSilent (stateApply none s), bindSilent (stateApply none t)]
  exact rest

theorem agreeEmit {event other : Event} (same : deeds [other] = deeds [event])
    (rest : Agree lines x y s t post) :
    Agree lines (emit event >>= fun _ => x) (emit other >>= fun _ => y) s t post := by
  unfold Agree
  rw [bindReturned (emitApply event none s), bindReturned (emitApply other none t)]
  exact agreesBehind rest same

theorem agreeIte {c : Prop} [Decidable c] {x' y' : Action σ α}
    (yes : c → Agree lines x y s t post) (no : ¬c → Agree lines x' y' s t post) :
    Agree lines (if c then x else x') (if c then y else y') s t post := by
  split
  · exact yes ‹_›
  · exact no ‹_›

theorem agreeWithin {x y : Action τ α} {inner other : τ} {post : α × τ → α × τ → σ → σ → Prop}
    (inside : Agree lines x y inner other fun a b u v => post (a, u) (b, v) s t) :
    Agree lines (within inner x) (within other y) s t post := by
  unfold Agree within at *
  generalize x none inner = o at inside
  generalize y none other = p at inside
  cases inside with
  | ok same holds => exact .ok same holds
  | failed alike => exact .failed alike

end Action

def Unmoved (s t : σ) (a b : α × Variables) (u v : σ) : Prop := SameRead a b ∧ u = s ∧ v = t

def Same (a b : α) (u v : σ) : Prop := b = a ∧ v = u

variable {place other : Option Location}

theorem assignAgree (vars others : Variables) (raw value : Text) (s t : σ) :
    Agree lines (assign vars raw value) (assign others raw value) s t (Unmoved s t) :=
  agreeEmit rfl (agreeEmit rfl (agreePure ⟨rfl, rfl, rfl⟩))

theorem readVariableAgree (vars others : Variables) (line : Text) (near : Shifted lines place other)
    (s t : σ) :
    Agree lines (readVariable vars line place) (readVariable others line other) s t
      (Unmoved s t) := by
  unfold readVariable
  refine agreeIte (fun _ => agreeFail ⟨rfl, .inl rfl⟩) fun _ => ?_
  refine agreeIte (fun _ => agreeFail ⟨rfl, near⟩) fun _ => ?_
  refine agreeIte (fun _ => agreeEmit rfl (agreePure ⟨rfl, rfl, rfl⟩)) fun _ => ?_
  generalize cutAt '=' (trim (afterFirstWord line)) = parts
  obtain ⟨raw, _ | value⟩ := parts
  · exact agreeFail ⟨rfl, near⟩
  · refine agreeIte (fun _ => agreeFail ⟨rfl, near⟩) fun _ => ?_
    refine agreeBind (assignAgree vars others raw _ s t) fun a b u v same => ?_
    obtain ⟨same, rfl, rfl⟩ := same
    exact agreePure ⟨congrArg (Statement.exported · (trim value)) same, rfl, rfl⟩

namespace Recipe

theorem changeDirectoryAgree (files : FileTree) (target directory : Text) :
    Agree lines (changeDirectory files target place) (changeDirectory files target other)
      directory directory Same := by
  unfold changeDirectory
  refine agreeState (agreeEmit rfl ?_)
  exact agreeIte (fun _ => agreeEmit rfl (.ok rfl ⟨rfl, rfl⟩)) fun _ => .ok rfl ⟨rfl, rfl⟩

theorem findManifestAgree (words : List Text) (s : σ) :
    Agree lines (findManifest place words) (findManifest other words) s s Same := by
  induction words with
  | nil => exact agreePure ⟨rfl, rfl⟩
  | cons word rest ih =>
    unfold findManifest
    refine agreeIte (fun _ => ?_) fun _ =>
      agreeIte (fun _ => agreePure ⟨rfl, rfl⟩) fun _ => ih
    cases rest with
    | nil => exact agreeEmit rfl (agreePure ⟨rfl, rfl⟩)
    | cons path rest => exact agreePure ⟨rfl, rfl⟩

theorem manifestDirectoryAgree (root manifest directory : Text) :
    Agree lines (manifestDirectory root manifest place) (manifestDirectory root manifest other)
      directory directory Same := by
  unfold manifestDirectory
  refine agreeState ?_
  simp only
  cases Path.relativeTo? (Path.normalJoin directory manifest) root with
  | none => exact agreeEmit rfl (agreePure ⟨rfl, rfl⟩)
  | some relative => exact agreePure ⟨rfl, rfl⟩

theorem readCargoAgree (root line directory : Text) :
    Agree lines (readCargo root line place) (readCargo root line other) directory directory
      Same := by
  unfold readCargo
  cases (words line)[1]?.elim Subcommand.unrecognized Subcommand.ofWord with
  | unrecognized => exact agreeEmit rfl (agreePure ⟨rfl, rfl⟩)
  | build | clean | run | update =>
    refine agreeBind (findManifestAgree (words line) directory) fun a b u v same => ?_
    obtain ⟨rfl, rfl⟩ := same
    cases b with
    | none => exact agreePure ⟨rfl, rfl⟩
    | some manifest =>
      refine agreeBind (manifestDirectoryAgree root manifest v) fun a b u v same => ?_
      obtain ⟨rfl, rfl⟩ := same
      exact agreePure ⟨rfl, rfl⟩

theorem readStepAgree (setting : Setting) (vars others : Variables) (line : Text)
    (near : Shifted lines place other) (directory : Text) :
    Agree lines (readStep setting vars line place) (readStep setting others line other) directory
      directory fun a b u v => SameRead a b ∧ v = u := by
  have directive : ∀ line, Agree lines (readVariable vars line place) (readVariable others line other)
      directory directory fun a b u v => SameRead a b ∧ v = u :=
    fun line => agreeWeaken (readVariableAgree vars others line near directory directory)
      fun _ _ _ _ same => ⟨same.1, same.2.2.trans same.2.1.symm⟩
  unfold readStep
  simp only
  refine agreeIte (fun _ => agreePure ⟨rfl, rfl⟩) fun _ => ?_
  split
  · exact directive _
  · exact directive _
  · cases words (trim line) with
    | nil => exact agreeFail ⟨rfl, .inl rfl⟩
    | cons word rest =>
      refine agreeIte (fun _ => ?_) fun _ => agreeIte (fun _ => ?_) fun _ => ?_
      · refine agreeBind (readCargoAgree _ _ _) fun a b u v same => ?_
        obtain ⟨rfl, rfl⟩ := same
        exact agreePure ⟨rfl, rfl⟩
      · cases rest with
        | nil => exact agreeEmit rfl (agreePure ⟨rfl, rfl⟩)
        | cons target rest =>
          refine agreeBind (changeDirectoryAgree setting.files target directory) fun a b u v same => ?_
          obtain ⟨_, rfl⟩ := same
          exact agreePure ⟨rfl, rfl⟩
      · exact agreePure ⟨rfl, rfl⟩

theorem readStepInside (setting : Setting) (vars others : Variables) (line : Text)
    (near : Shifted lines place other) (directory : Text) (s t : σ) :
    Agree lines (within directory (readStep setting vars line place))
      (within directory (readStep setting others line other)) s t
      fun a b u v => SameRead a.1 b.1 ∧ b.2 = a.2 ∧ u = s ∧ v = t :=
  agreeWithin (agreeWeaken (readStepAgree setting vars others line near directory)
    fun _ _ _ _ same => ⟨same.1, same.2, rfl, rfl⟩)

end Recipe
end MakeTree
