import GraphDispatch.Event
import GraphDispatch.Graph.Edit

/-!
# Tasks

A task changes a state and reports events. Both remain when it fails.
-/

namespace GraphDispatch

/-- A state with the events reported so far, latest first. -/
structure Logged (σ : Type) where
  state : σ
  events : List Event

abbrev Task (σ ε β : Type) := EStateM ε (Logged σ) β

namespace Task

variable {σ τ ε δ α β : Type}

def note (e : Event) : Task σ ε Unit := modify fun s => { s with events := e :: s.events }

def state : Task σ ε σ := return (← get).state

def put (s : σ) : Task σ ε Unit := modify fun l => { l with state := s }

/-- Runs an edit on the graph of a task. -/
def edit (wrap : EditError → ε) (m : Edit α β) : Task (Graph α) ε β := fun s =>
  match m s.state with
  | .ok b g => .ok b ⟨g, s.events⟩
  | .error e g => .error (wrap e) ⟨g, s.events⟩

/-- Runs a task on a state of its own; only its events are kept where it fails. -/
def on (t : τ) (m : Task τ ε β) : Task σ ε (β × τ) := fun s =>
  match m ⟨t, s.events⟩ with
  | .ok b r => .ok (b, r.state) ⟨s.state, r.events⟩
  | .error e r => .error e ⟨s.state, r.events⟩

def wrapError (f : ε → δ) (m : Task σ ε β) : Task σ δ β := EStateM.adaptExcept f m

def ofExcept (f : ε → δ) : Except ε β → Task σ δ β
  | .ok b => pure b
  | .error e => throw (f e)

end Task

end GraphDispatch
