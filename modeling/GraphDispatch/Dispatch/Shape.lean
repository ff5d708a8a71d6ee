import GraphDispatch.Graph.Order

/-!
# Shape computations

Which variables carry shapes: the outputs of an operation that makes a shape
out of a tensor, and of one whose activations all carry shapes.
-/

namespace GraphDispatch.Dispatch

variable {α : Type}

/-- Operations that compute a shape or an index. -/
def shapeOrIndexTypes : List String :=
  ["ArgMax", "ArgMin", "ConstantOfShape", "Gather", "GatherElements", "GatherND", "NonZero",
    "Range", "Reshape", "Shape", "Size", "Squeeze", "Unsqueeze"]

/-- Operations that make a shape out of a tensor. -/
def shapeSourceTypes : List String := ["NonZero", "Shape", "Size"]

/-- The inputs that are no parameters. -/
def activations (g : Graph α) (o : Operation α) : List String :=
  o.inputs.filter fun var => (g.getVariable? var).any (!·.isParameter)

def yieldsShapes (g : Graph α) (derived : List String) (o : Operation α) : Bool :=
  let inputs := activations g o
  shapeSourceTypes.contains o.type || (!inputs.isEmpty && inputs.all derived.contains)

def extendShapes (g : Graph α) (derived : List String) (op : String) : List String :=
  match g.getOperation? op with
  | some o => if yieldsShapes g derived o then derived ++ o.outputs else derived
  | none => derived

/-- The variables that carry shapes, found in one pass in order of execution. -/
def shapeDerived (g : Graph α) : Except OrderError (List String) :=
  return (← g.executionOrder).foldl (extendShapes g) []

/-- The rule that `shapeDerived` follows. -/
inductive ShapeDerived (g : Graph α) : String → Prop where
  | source {op o var} : g.getOperation? op = some o → o.type ∈ shapeSourceTypes →
    var ∈ o.outputs → ShapeDerived g var
  | activations {op o var} : g.getOperation? op = some o → activations g o ≠ [] →
    (∀ a ∈ activations g o, ShapeDerived g a) → var ∈ o.outputs → ShapeDerived g var

end GraphDispatch.Dispatch
