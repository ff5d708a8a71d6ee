import GraphDispatch.Rewrite.Basic

/-!
# Clips

The bounds of a clip become parameter inputs; a missing one is the least or the
greatest element.
-/

namespace GraphDispatch.Rewrite

variable {α : Type} [Scalar α]

def hasLimitAttributes (o : Operation α) : Bool :=
  o.attributes.contains "min" || o.attributes.contains "max"

def limit (o : Operation α) (key : String) (default : α) : α :=
  ((o.attributes.get? key).bind (·.asFloat?)).getD default

def appendLimits (o : Operation α) : Edit α Unit := do
  discard (Edit.removeAttribute o.name "min")
  discard (Edit.removeAttribute o.name "max")
  if o.inputs.length = 1 then
    appendParameter o.name "min" (.scalar (limit o "min" Scalar.lowest))
  appendParameter o.name "max" (.scalar (limit o "max" Scalar.greatest))

def completeClip (op : String) : Rewrite α Bool := do
  let o ← getOperation "clip" op
  if 3 ≤ o.inputs.length && !hasLimitAttributes o then return false
  if hasLimitAttributes o && o.inputs.length ≠ 1 then throw (.clipMixed op)
  edit (appendLimits o)
  return true

def clips : Rewrite α Nat := countChanges "Clip" completeClip

end GraphDispatch.Rewrite
