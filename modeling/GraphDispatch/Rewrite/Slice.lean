import GraphDispatch.Rewrite.Basic

/-!
# Slices

The bounds of a slice become parameter inputs: starts, ends, axes and steps.
-/

namespace GraphDispatch.Rewrite

variable {α : Type}

/-- The bounds that attributes give. -/
structure Bounds where
  starts : List Int64
  ends : List Int64
  axes : List Int64
  deriving DecidableEq, Repr

def firstAxes (n : Nat) : List Int64 := (List.range n).map Int64.ofNat

def Bounds.steps (b : Bounds) : List Int64 := List.replicate b.starts.length 1

def hasBoundAttributes (o : Operation α) : Bool :=
  o.attributes.contains "starts" || o.attributes.contains "ends"

def readBounds (o : Operation α) : Except (RewriteError α) Bounds := do
  let ints (key : String) := (o.attributes.get? key).bind (·.asInts?)
  if o.inputs.length ≠ 1 then throw (.sliceMixed o.name)
  let some starts := ints "starts" | throw (.sliceWithoutStarts o.name)
  let some ends := ints "ends" | throw (.sliceWithoutEnds o.name)
  if starts.length ≠ ends.length then throw (.sliceEnds o.name starts.length ends.length)
  let axes := (ints "axes").getD (firstAxes starts.length)
  if axes.length ≠ starts.length then throw (.sliceAxes o.name starts.length axes.length)
  return ⟨starts, ends, axes⟩

def appendBounds (op : String) (b : Bounds) : Edit α Unit := do
  ["starts", "ends", "axes"].forM fun key => discard (Edit.removeAttribute op key)
  appendParameter op "starts" (.intVector b.starts)
  appendParameter op "ends" (.intVector b.ends)
  appendParameter op "axes" (.intVector b.axes)
  appendParameter op "steps" (.intVector b.steps)

/-- How many axes a slice with input bounds names, where that is known. -/
def sliceRank (g : Graph α) (o : Operation α) : Option Nat :=
  ((g.getVariable? (o.inputs.getD 1 "")).bind (·.value)).map Tensor.size

def completeSlice (op : String) : Rewrite α Bool := do
  let o ← getOperation "slice" op
  let slots := o.inputs.length
  if hasBoundAttributes o then
    let bounds ← Task.ofExcept id (readBounds o)
    edit (appendBounds op bounds)
    return true
  if slots ≠ 3 && slots ≠ 4 then return false
  let some rank := sliceRank (← Task.state) o | return false
  edit do
    if slots = 3 then appendParameter op "axes" (.intVector (firstAxes rank))
    appendParameter op "steps" (.intVector (List.replicate rank 1))
  return true

def slices : Rewrite α Nat := countChanges "Slice" completeSlice

end GraphDispatch.Rewrite
