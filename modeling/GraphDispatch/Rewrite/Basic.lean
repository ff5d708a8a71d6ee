import GraphDispatch.Task

/-!
# Rewrites

A rewrite is a task on a graph that counts what it changed.
-/

namespace GraphDispatch

inductive RewriteError (α : Type) where
  | edit (cause : EditError)
  | tensor (cause : TensorError)
  | vanished (kind op : String)
  | constantSlots (op : String)
  | constantWithoutValue (op : String)
  | stringConstant (value : String)
  | castCode (op : String) (code : Int64)
  | castName (op type : String)
  | castTarget (op : String) (target : Attribute α)
  | castWithoutTarget (op : String)
  | sliceMixed (op : String)
  | sliceWithoutStarts (op : String)
  | sliceWithoutEnds (op : String)
  | sliceEnds (op : String) (starts ends : Nat)
  | sliceAxes (op : String) (starts axes : Nat)
  | clipMixed (op : String)
  deriving DecidableEq, Repr

abbrev Rewrite (α β : Type) := Task (Graph α) (RewriteError α) β

namespace Rewrite

variable {α β : Type}

def edit (m : Edit α β) : Rewrite α β := Task.edit .edit m

/-- An operation that is expected to be there still. -/
def getOperation (kind op : String) : Rewrite α (Operation α) := do
  match (← Task.state).getOperation? op with
  | some o => return o
  | none => throw (.vanished kind op)

/-- How many of the operations of a type a step has changed. -/
def countChanges (type : String) (step : String → Rewrite α Bool) : Rewrite α Nat := do
  let ops := (← Task.state).operationsOfType type
  ops.foldlM (fun n op => return if ← step op then n + 1 else n) 0

/-- Appends a new parameter, named after the operation, to its inputs. -/
def appendParameter (op suffix : String) (value : Tensor α) : Edit α Unit := do
  let name := (← get).freshName (op ++ "." ++ suffix)
  discard (Edit.createVariable name (some value))
  Edit.appendInput op name

end Rewrite

end GraphDispatch
