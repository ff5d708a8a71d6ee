import GraphDispatch.Rewrite.Basic

/-!
# Shared parameters

Every consumer of a parameter but the first gets a copy of its own.
-/

namespace GraphDispatch.Rewrite

variable {α : Type}

/-- A parameter and the operations that are to read copies of it. -/
structure Sharing (α : Type) where
  var : String
  value : Option (Tensor α)
  others : List String

def sharing? (v : Variable α) : Option (Sharing α) :=
  match v.consumerNames with
  | _ :: op :: others =>
    if v.isParameter && v.producer.isNone then some ⟨v.name, v.value, op :: others⟩ else none
  | _ => none

def copyFor (var : String) (value : Option (Tensor α)) (op : String) : Edit α Unit := do
  let copy := (← get).freshName var
  discard (Edit.createVariable copy value)
  Edit.replaceInput op var copy

def sharedParameters : Rewrite α Nat := do
  let shared := (← Task.state).vars.values.filterMap sharing?
  edit (shared.forM fun s => s.others.forM (copyFor s.var s.value))
  return (shared.flatMap (·.others)).length

end GraphDispatch.Rewrite
