import GraphDispatch.Rewrite.Basic

/-!
# Constants

Every `Constant` operation becomes a parameter: its output holds the value and
has no producer any more.
-/

namespace GraphDispatch.Rewrite

variable {α : Type}

/-- The attributes that may hold the value, the first one present counts. -/
def constantKeys : List String :=
  ["value", "value_float", "value_floats", "value_int", "value_ints"]

def constantValue : Attribute α → Except (RewriteError α) (Tensor α)
  | .tensor t => return t
  | .float x => return .scalar x
  | .int n => return .intScalar n
  | .floats xs => return .vector xs
  | .ints ns => return .intVector ns
  | .string s => throw (.stringConstant s)

/-- The output and the value of a constant that is well formed. -/
def readConstant (o : Operation α) : Except (RewriteError α) (String × Tensor α) := do
  let ([], [output]) := (o.inputs, o.outputs) | throw (.constantSlots o.name)
  let some value := constantKeys.findSome? o.attributes.get?
    | throw (.constantWithoutValue o.name)
  return (output, ← constantValue value)

def replaceConstant (op : String) : Rewrite α Bool := do
  let o ← getOperation "constant" op
  let (output, value) ← Task.ofExcept id (readConstant o)
  edit do
    discard (Edit.removeOperation op)
    Edit.setValue output value
  return true

def constants : Rewrite α Nat := countChanges "Constant" replaceConstant

end GraphDispatch.Rewrite
