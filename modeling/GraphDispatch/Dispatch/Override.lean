import GraphDispatch.Dispatch.Error
import GraphDispatch.Dispatch.Table
import GraphDispatch.Task

/-!
# Overrides

What the user asks for wins over what was proposed. All codes are decoded
before any of them is applied, and a table is written to a graph only if it
says something about every operation.
-/

namespace GraphDispatch

variable {σ α : Type}

namespace Overrides

/-- The platform that an entry asks for; none for an entry about no operation of
the graph. -/
def request (g : Graph α) (op : String) (code : Int64) :
    Task σ DispatchError (Option (String × Platform)) := do
  if !g.operations.contains op then
    Task.note (.overrideIgnored op g.name)
    return none
  match Platform.ofCode? code with
  | some platform => return some (op, platform)
  | none => throw (.invalidCode op code)

def force (t : DispatchTable) (request : String × Platform) : Task σ DispatchError DispatchTable := do
  match t.get? request.1 with
  | some previous =>
    if previous ≠ request.2 then Task.note (.overridden request.1 request.2 previous)
  | none => pure ()
  return t.insert request.1 request.2

/-- A table with the platforms that the user asks for. -/
def apply (overrides : Overrides) (g : Graph α) (t : DispatchTable) :
    Task σ DispatchError DispatchTable := do
  let requests ← overrides.entries.filterMapM fun e => request g e.1 e.2
  requests.foldlM force t

end Overrides

namespace DispatchTable

def checkCoverage (t : DispatchTable) (g : Graph α) : Except DispatchError Unit :=
  match t.firstMissing? g with
  | some op => throw (.missing op)
  | none => return ()

/-- Gives the operations of the graph the platforms of the table. -/
def commit (t : DispatchTable) : Task (Graph α) DispatchError Unit := do
  Task.ofExcept id (t.checkCoverage (← Task.state))
  t.entries.forM fun e => do
    if (← Task.state).operations.contains e.1 then
      Task.edit .edit (Edit.setPlatform e.1 e.2)

end DispatchTable

end GraphDispatch
