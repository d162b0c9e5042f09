import MakeTree.LogFile

/-! Steps that may fail, over a state of some type, with the events they leave behind. A failed step
keeps the state and the events it got to. What was written before a step matters to it only through
the log file, if there is one. -/
namespace MakeTree

structure Outcome (σ α : Type) where
  events : List Event
  state : σ
  result : Except Failure α

def Action (σ α : Type) : Type := Log → σ → Outcome σ α

def Outcome.andThen {σ α β : Type} (o : Outcome σ α) (log : Log) (f : α → Action σ β) :
    Outcome σ β :=
  match o with
  | ⟨events, s, .error failure⟩ => ⟨events, s, .error failure⟩
  | ⟨events, s, .ok a⟩ =>
    let rest := f a (log.record events) s
    ⟨events ++ rest.events, rest.state, rest.result⟩

namespace Action
variable {σ τ α β : Type}

def succeed (a : α) : Action σ α := fun _ s => ⟨[], s, .ok a⟩

def fail (failure : Failure) : Action σ α := fun _ s => ⟨[], s, .error failure⟩

def andThen (x : Action σ α) (f : α → Action σ β) : Action σ β := fun log s =>
  (x log s).andThen log f

instance : Monad (Action σ) where
  pure := succeed
  bind := andThen

def emit (event : Event) : Action σ Unit := fun _ s => ⟨[event], s, .ok ()⟩

def log : Action σ Log := fun log s => ⟨[], s, .ok log⟩

def state : Action σ σ := fun _ s => ⟨[], s, .ok s⟩

def setState (s : σ) : Action σ Unit := fun _ _ => ⟨[], s, .ok ()⟩

def within (inner : τ) (x : Action τ α) : Action σ (α × τ) := fun log s =>
  let o := x log inner
  ⟨o.events, s, o.result.map fun a => (a, o.state)⟩

def into (inner : τ) (place : τ → σ → σ) (x : Action τ α) : Action σ α := fun log s =>
  let o := x log inner
  ⟨o.events, place o.state s, o.result⟩

def attempt (x : Action σ α) : Action σ (Except Failure α) := fun log s =>
  let o := x log s
  ⟨o.events, o.state, .ok o.result⟩

end Action
end MakeTree
