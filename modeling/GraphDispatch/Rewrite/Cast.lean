import GraphDispatch.DataType
import GraphDispatch.Rewrite.Basic

/-!
# Casts

The target of a cast becomes the name of a type.
-/

namespace GraphDispatch.Rewrite

variable {α : Type}

def castTarget (o : Operation α) : Except (RewriteError α) DataType :=
  match o.attributes.get? "to" with
  | some (.int code) =>
    match DataType.ofCode? code with
    | some t => return t
    | none => throw (.castCode o.name code)
  | some (.string s) =>
    match DataType.ofName? s with
    | some t => return t
    | none => throw (.castName o.name s)
  | some other => throw (.castTarget o.name other)
  | none => throw (.castWithoutTarget o.name)

def namesType (o : Operation α) (t : DataType) : Bool :=
  ((o.attributes.get? "to").bind (·.asString?)) = some t.name

def nameTarget (op : String) : Rewrite α Bool := do
  let o ← getOperation "cast" op
  let target ← Task.ofExcept id (castTarget o)
  if namesType o target then return false
  edit (Edit.setAttribute op "to" (.string target.name))
  return true

def casts : Rewrite α Nat := countChanges "Cast" nameTarget

end GraphDispatch.Rewrite
