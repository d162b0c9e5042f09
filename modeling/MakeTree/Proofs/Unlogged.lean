import MakeTree.Action

/-! Running actions one after the other. With no log file that anything reads, what was written before
a step does not reach it, so a sequence of steps is the first one followed by the rest. -/
namespace MakeTree

def OnlyTold (events : List Event) : Prop := ∀ event ∈ events, ∃ message, event = .told message

theorem onlyToldNil : OnlyTold [] := by simp [OnlyTold]

theorem onlyToldCons {message : Message} {events : List Event} (rest : OnlyTold events) :
    OnlyTold (.told message :: events) := by
  intro event member
  rcases List.mem_cons.mp member with rfl | inside
  · exact ⟨message, rfl⟩
  · exact rest event inside

theorem onlyToldAppend {first second : List Event} (left : OnlyTold first)
    (right : OnlyTold second) : OnlyTold (first ++ second) := by
  intro event member
  rcases List.mem_append.mp member with inside | inside
  · exact left event inside
  · exact right event inside

def Outcome.behind {σ α : Type} (o : Outcome σ α) (events : List Event) : Outcome σ α :=
  ⟨events ++ o.events, o.state, o.result⟩

@[simp] theorem Outcome.behindResult {σ α : Type} (o : Outcome σ α) (events : List Event) :
    (o.behind events).result = o.result := rfl

@[simp] theorem Outcome.behindMk {σ α : Type} (first events : List Event) (s : σ)
    (result : Except Failure α) :
    (Outcome.mk events s result).behind first = ⟨first ++ events, s, result⟩ := rfl

theorem Outcome.behindBehind {σ α : Type} (o : Outcome σ α) (first second : List Event) :
    (o.behind second).behind first = o.behind (first ++ second) := by
  simp only [Outcome.behind, List.append_assoc]

namespace Action
variable {σ τ α β : Type}

@[simp] theorem pureApply (a : α) (log : Log) (s : σ) :
    (pure a : Action σ α) log s = ⟨[], s, .ok a⟩ := rfl

@[simp] theorem failApply (failure : Failure) (log : Log) (s : σ) :
    (fail failure : Action σ α) log s = ⟨[], s, .error failure⟩ := rfl

@[simp] theorem emitApply (event : Event) (log : Log) (s : σ) :
    (emit event : Action σ Unit) log s = ⟨[event], s, .ok ()⟩ := rfl

@[simp] theorem stateApply (log : Log) (s : σ) : (state : Action σ σ) log s = ⟨[], s, .ok s⟩ := rfl

@[simp] theorem setStateApply (next : σ) (log : Log) (s : σ) :
    (setState next : Action σ Unit) log s = ⟨[], next, .ok ()⟩ := rfl

theorem bindApply (x : Action σ α) (f : α → Action σ β) (log : Log) (s : σ) :
    (x >>= f) log s = (x log s).andThen log f := rfl

theorem thenReturned {x : Action σ α} {f : α → Action σ β} {log : Log} {s t : σ}
    {events : List Event} {a : α} (first : x log s = ⟨events, t, .ok a⟩) :
    (x >>= f) log s = (f a (log.record events) t).behind events := by
  rw [bindApply, first]
  rfl

theorem thenFailed {x : Action σ α} {f : α → Action σ β} {log : Log} {s t : σ}
    {events : List Event} {failure : Failure} (first : x log s = ⟨events, t, .error failure⟩) :
    (x >>= f) log s = ⟨events, t, .error failure⟩ := by
  rw [bindApply, first]
  rfl

theorem bindSilent {x : Action σ α} {f : α → Action σ β} {s t : σ} {a : α}
    (first : x none s = ⟨[], t, .ok a⟩) : (x >>= f) none s = f a none t := by
  rw [bindApply, first]
  rfl

theorem bindReturned {x : Action σ α} {f : α → Action σ β} {s t : σ} {events : List Event} {a : α}
    (first : x none s = ⟨events, t, .ok a⟩) : (x >>= f) none s = (f a none t).behind events :=
  thenReturned first

theorem bindFailed {x : Action σ α} {f : α → Action σ β} {s t : σ} {events : List Event}
    {failure : Failure} (first : x none s = ⟨events, t, .error failure⟩) :
    (x >>= f) none s = ⟨events, t, .error failure⟩ := thenFailed first

theorem returnApply (x : Action σ α) (f : α → β) (s : σ) :
    (do return f (← x)) none s = ⟨(x none s).events, (x none s).state, (x none s).result.map f⟩ := by
  cases first : x none s with
  | mk events t result =>
    cases result with
    | error failure => rw [bindFailed first]; rfl
    | ok a => rw [bindReturned first]; simp [Except.map]

theorem returnResult (x : Action σ α) (f : α → β) (s : σ) :
    ((do return f (← x)) none s).result = (x none s).result.map f := by
  rw [returnApply]

theorem returnRead {γ : Type} (x : Action σ α) (f : α → β) (read : β → γ) (s : σ) :
    ((do return f (← x)) none s).result.map read = (x none s).result.map fun a => read (f a) := by
  rw [returnResult]
  cases (x none s).result with
  | error failure => rfl
  | ok a => rfl

end Action

theorem mapOk {α β : Type} {x : Except Failure α} {f : α → β} {b : β} (ok : x.map f = .ok b) :
    ∃ a, x = .ok a ∧ f a = b := by
  cases x with
  | error failure => cases ok
  | ok a => exact ⟨a, rfl, Except.ok.inj ok⟩

end MakeTree
