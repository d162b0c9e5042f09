import MakeTree.Proofs.BlockMoves

/-! The events of an action that matter behind it: the changes to variables, and the files that are
entered. Reading a line changes a variable only where the line is a directive or an assignment. -/
namespace MakeTree
open Text MakeTree.Action LineStream

def Event.isDeed : Event → Bool
  | .assigned .. | .unassigned _ | .included _ => true
  | _ => false

def deeds (events : List Event) : List Event := events.filter Event.isDeed

@[simp] theorem deedsNil : deeds [] = [] := rfl

@[simp] theorem deedsAppend (first second : List Event) :
    deeds (first ++ second) = deeds first ++ deeds second := List.filter_append ..

@[simp] theorem deedsCons (event : Event) (events : List Event) :
    deeds (event :: events) = if event.isDeed then event :: deeds events else deeds events :=
  List.filter_cons

theorem deedsOnlyTold {events : List Event} (told : OnlyTold events) : deeds events = [] := by
  refine List.filter_eq_nil_iff.mpr fun event member => ?_
  obtain ⟨message, rfl⟩ := told event member
  simp [Event.isDeed]

theorem includedDeed {events : List Event} {path : Text} :
    Event.included path ∈ events ↔ Event.included path ∈ deeds events := by
  simp [deeds, Event.isDeed]

theorem replayDeeds (vars : Variables) (events : List Event) :
    replay vars events = replay vars (deeds events) := by
  induction events generalizing vars with
  | nil => rfl
  | cons event rest ih =>
    cases event with
    | assigned raw value => exact ih (vars.set raw value)
    | unassigned name => exact ih (vars.unset name)
    | told _ | peeked | took _ | included _ | lookedUp _ | printed _ | reported _ => exact ih vars

namespace Action
variable {σ τ α β : Type} {s : σ} {x : Action σ α}
  {post : List Event → α → σ → Prop}

def Leaves (x : Action σ α) (s : σ) (post : List Event → α → σ → Prop) : Prop :=
  match x none s with
  | ⟨events, t, .ok a⟩ => post (deeds events) a t
  | ⟨_, _, .error _⟩ => True

theorem leavesReturned {events : List Event} {t : σ} {a : α} (leaves : x.Leaves s post)
    (ok : x none s = ⟨events, t, .ok a⟩) : post (deeds events) a t := by
  unfold Leaves at leaves
  rw [ok] at leaves
  exact leaves

theorem leavesOk {a : α} (leaves : x.Leaves s post) (ok : (x none s).result = .ok a) :
    post (deeds (x none s).events) a (x none s).state :=
  leavesReturned leaves (by rw [← ok])

theorem leavesPure {a : α} (holds : post [] a s) : (pure a : Action σ α).Leaves s post :=
  holds

theorem leavesFail {failure : Failure} : (fail failure : Action σ α).Leaves s post := trivial

theorem leavesWeaken {weaker : List Event → α → σ → Prop} (strong : x.Leaves s post)
    (weaken : ∀ done a t, post done a t → weaker done a t) : x.Leaves s weaker := by
  unfold Leaves at strong ⊢
  split
  · rename_i outcome
    rw [outcome] at strong
    exact weaken _ _ _ strong
  · trivial

theorem leavesBind {f : α → Action σ β} {whole : List Event → β → σ → Prop}
    (first : x.Leaves s post)
    (rest : ∀ done a t, post done a t →
      (f a).Leaves t fun further => whole (done ++ further)) :
    (x >>= f).Leaves s whole := by
  unfold Leaves at first ⊢
  cases outcome : x none s with
  | mk before t result =>
    rw [outcome] at first
    cases result with
    | error failure =>
      rw [bindFailed outcome]
      trivial
    | ok a =>
      have onward := rest _ a t first
      rw [bindReturned outcome]
      unfold Leaves at onward
      cases after : f a none t with
      | mk events u last =>
        rw [after] at onward
        cases last with
        | error failure => trivial
        | ok b => simpa using onward

theorem leavesThrough {f : α → Action σ β} {whole : List Event → β → σ → Prop} {done : List Event}
    {a : α} {t : σ} (first : x.Leaves s fun done' a' t' => done' = done ∧ a' = a ∧ t' = t)
    (rest : (f a).Leaves t fun further => whole (done ++ further)) :
    (x >>= f).Leaves s whole := by
  refine leavesBind first fun done' a' t' same => ?_
  obtain ⟨rfl, rfl, rfl⟩ := same
  exact rest

theorem leavesState {f : σ → Action σ α} (rest : (f s).Leaves s post) :
    (state >>= f).Leaves s post := leavesThrough ⟨rfl, rfl, rfl⟩ rest

theorem leavesTell {event : Event} (aside : event.isDeed = false) (rest : x.Leaves s post) :
    (emit event >>= fun _ => x).Leaves s post := by
  have told : (emit event).Leaves s fun done a t => done = [] ∧ a = () ∧ t = s :=
    ⟨by simp [aside], rfl, rfl⟩
  exact leavesThrough told rest

theorem leavesDo {event : Event} (deed : event.isDeed = true)
    (rest : x.Leaves s fun further => post (event :: further)) :
    (emit event >>= fun _ => x).Leaves s post := by
  have told : (emit event).Leaves s fun done a t => done = [event] ∧ a = () ∧ t = s :=
    ⟨by simp [deed], rfl, rfl⟩
  exact leavesThrough told rest

theorem leavesIte {c : Prop} [Decidable c] {y : Action σ α} (yes : c → x.Leaves s post)
    (no : ¬c → y.Leaves s post) : (if c then x else y).Leaves s post := by
  split
  · exact yes ‹_›
  · exact no ‹_›

theorem leavesWithin {inner : τ} {x : Action τ α} {post : List Event → α × τ → σ → Prop}
    (inside : x.Leaves inner fun done a t => post done (a, t) s) :
    (within inner x).Leaves s post := by
  unfold Leaves within at *
  cases outcome : x none inner with
  | mk events t result =>
    rw [outcome] at inside
    cases result with
    | error failure => trivial
    | ok a => exact inside

section
variable {s : LineStream} {post : List Event → α → LineStream → Prop}

theorem leavesPeek {f : Text → Action LineStream α} (rest : (f s.next).Leaves s post) :
    (peek >>= f).Leaves s post := leavesThrough ⟨rfl, rfl, rfl⟩ rest

theorem leavesAtEnd {f : Bool → Action LineStream α} (rest : (f s.eof).Leaves s post) :
    (atEnd >>= f).Leaves s post := leavesThrough ⟨rfl, rfl, rfl⟩ rest

end
end Action

def variableChange (line : Text) : Option Event :=
  let argument := trim (afterFirstWord line)
  if argument = [] then none
  else if firstWord line = Keyword.unexported.text then some (.unassigned argument)
  else match cutAt '=' argument with
    | (raw, some value) => if allBlank raw then none else some (.assigned raw (trim value))
    | (_, none) => none

def stepChange (line : Text) : Option Event :=
  match Keyword.ofLine? line with
  | some .exported | some .unexported => variableChange (trim line)
  | _ => none

def inlineStep (line : Text) : Text :=
  match (cutAt ':' line).2 with
  | some rest => (cutAt ';' (if startsWith [':'] rest then rest.drop 1 else rest)).2.getD []
  | none => []

theorem assignLeaves {σ : Type} (vars : Variables) (raw value : Text) (s : σ) :
    (assign vars raw value).Leaves s fun done _ t => done = [.assigned raw value] ∧ t = s :=
  leavesTell rfl (leavesDo rfl (leavesPure ⟨rfl, rfl⟩))

theorem readVariableLeaves {σ : Type} (vars : Variables) (line : Text) (location : Option Location)
    (s : σ) :
    (readVariable vars line location).Leaves s fun done read t =>
      done = (variableChange line).toList ∧ t = s ∧
      ((∃ name value, read.1 = .exported name value) ∨ ∃ name, read.1 = .unexported name) := by
  unfold readVariable variableChange
  simp only
  split
  · exact leavesFail
  split
  · exact leavesFail
  split
  · exact leavesDo rfl (leavesPure ⟨rfl, rfl, .inr ⟨_, rfl⟩⟩)
  cases cutAt '=' (trim (afterFirstWord line)) with
  | mk raw value? =>
    cases value? with
    | none => exact leavesFail
    | some value =>
      simp only
      split
      · exact leavesFail
      · refine leavesBind (assignLeaves _ _ _ s) fun done _ t assigned => ?_
        obtain ⟨rfl, rfl⟩ := assigned
        exact leavesPure ⟨rfl, rfl, .inl ⟨_, _, rfl⟩⟩

theorem stepChangeNone {line : Text} (noExport : Keyword.ofLine? line ≠ some .exported)
    (noUnexport : Keyword.ofLine? line ≠ some .unexported) : stepChange line = none := by
  unfold stepChange
  split
  · contradiction
  · contradiction
  · rfl

theorem stepChangeBlank {line : Text} (blank : allBlank line = true) : stepChange line = none := by
  have empty : trimLeft line = [] := List.dropWhile_eq_nil_iff.mpr (List.all_eq_true.mp blank)
  have none : Keyword.ofLine? line = none := by
    simp [Keyword.ofLine?, firstWord, empty, show Keyword.ofText? [] = Option.none from rfl]
  exact stepChangeNone (by simp [none]) (by simp [none])

theorem openLinkLeaves (line : Text) (s : LineStream) :
    (openLink line).Leaves s fun done _ t => done = [] ∧ t = s := by
  refine leavesState ?_
  exact leavesIte (fun _ => leavesFail) fun _ => leavesPure ⟨rfl, rfl⟩

theorem findLineLeaves (sources : List Source) (s : LineStream) :
    (findLine sources).Leaves s fun done _ t => done = [] ∧ t = s.found sources := by
  have finds := findLineFinds s sources
  unfold Leaves
  generalize findLine sources none s = o at finds
  cases finds with
  | whole messages => exact ⟨deedsOnlyTold messages, rfl⟩
  | broken messages member unsound => trivial

theorem takeLeaves (deferred : Bool) (s : LineStream) :
    (take deferred).Leaves s fun done text t => done = [] ∧ text = s.next ∧
      t = if deferred then s.atNext else s.atNext.found s.sources := by
  unfold take
  refine leavesTell rfl (leavesState (leavesThrough (t := s.atNext) ⟨rfl, rfl, rfl⟩ ?_))
  cases deferred with
  | true => exact leavesPure ⟨rfl, rfl, rfl⟩
  | false =>
    refine leavesBind (leavesState (findLineLeaves _ _)) fun done _ t found => ?_
    obtain ⟨rfl, same⟩ := found
    exact leavesPure ⟨rfl, rfl, same⟩

theorem pushLeaves (files : FileTree) (path : Text) (s : LineStream) :
    (push files path).Leaves s fun done _ t => done = [] ∧
      ∃ source, files.source? path = some source ∧
        t = { s with sources := source :: s.sources } := by
  unfold push FileTree.source?
  refine leavesTell rfl ?_
  cases files.openFile path with
  | error reason => exact leavesState (leavesFail)
  | ok file =>
    obtain ⟨place, bytes⟩ := file
    exact ⟨rfl, _, rfl, rfl⟩

theorem enterLeaves (files : FileTree) (path : Text) (s : LineStream) :
    (enter files path).Leaves s fun done _ t => done = [.included (s.target path)] ∧
      ∃ source, files.source? (s.target path) = some source ∧
        t = s.found (source :: s.sources) := by
  refine leavesState (leavesDo rfl (leavesBind (pushLeaves files _ s) fun done _ t pushed => ?_))
  obtain ⟨rfl, source, opened, rfl⟩ := pushed
  refine leavesState (leavesWeaken (findLineLeaves _ _) fun done _ t found => ?_)
  obtain ⟨rfl, same⟩ := found
  exact ⟨rfl, source, opened, by rw [same, foundSources]⟩

theorem readInclusionLeaves (files : FileTree) (line : Text) (s : LineStream) :
    (readInclusion files line).Leaves s fun done _ t =>
      ∃ token source, (words line)[1]? = some token ∧
        files.source? (s.target token) = some source ∧ t = s.found (source :: s.sources) ∧
        done = [.included (s.target token)] := by
  unfold readInclusion
  refine leavesState ?_
  simp only
  split
  · rename_i first path extra split
    have entering : (do
        enter files path
        return .inclusion path : Action LineStream Statement).Leaves s
        fun done _ t => ∃ token source, (words line)[1]? = some token ∧
          files.source? (s.target token) = some source ∧ t = s.found (source :: s.sources) ∧
          done = [.included (s.target token)] := by
      refine leavesBind (enterLeaves files path s) fun done _ t entered => ?_
      obtain ⟨rfl, source, opened, same⟩ := entered
      exact leavesPure ⟨path, source, by rw [split]; rfl, opened, same, rfl⟩
    exact leavesIte (fun _ => leavesTell rfl entering) fun _ => entering
  · exact leavesFail

end MakeTree
