import GraphDispatch.Dispatch.MainPath
import GraphDispatch.Dispatch.Shape
import GraphDispatch.Dispatch.Table
import GraphDispatch.Graph.Switch
import GraphDispatch.Task

/-!
# Proposed platforms

Each strategy tells shape computations from quantizable operations in its own
way; switches belong to the boundary whatever the strategy.
-/

namespace GraphDispatch.Dispatch

variable {α : Type}

/-- The platforms that a strategy chooses between. -/
structure Targets where
  quantized : Platform
  fp32 : Platform
  shapeOrIndex : Platform
  deriving DecidableEq, Repr

def Targets.pick (t : Targets) (precedence : Precedence) (shape quantizable : Bool) : Platform :=
  match shape, quantizable, precedence with
  | true, true, .shapeOrIndexFirst => t.shapeOrIndex
  | true, true, .quantizationFirst => t.quantized
  | true, false, _ => t.shapeOrIndex
  | false, true, _ => t.quantized
  | false, false, _ => t.fp32

/-- Two kinds an operation may be of. -/
structure Kinds where
  shape : Bool
  quantizable : Bool
  deriving DecidableEq, Repr

/-- What a strategy sees in the operations of a graph. -/
def classify (strategy : Strategy) (g : Graph α) (quantTypes : List String) :
    Except OrderError (Operation α → Kinds) := do
  let quantizable (o : Operation α) := quantTypes.contains o.type
  let shapeType (o : Operation α) := shapeOrIndexTypes.contains o.type
  match strategy with
  | .pointwise => return fun o => ⟨shapeType o, quantizable o⟩
  | .aggressive =>
    let shapes ← shapeDerived g
    return fun o => ⟨shapeType o || o.outputs.any shapes.contains, quantizable o⟩
  | .conservative =>
    let shapes ← shapeDerived g
    let path := mainPath g shapes
    return fun o => ⟨shapeType o || o.outputs.any shapes.contains,
      quantizable o && path.contains o.name⟩

def place (targets : Targets) (precedence : Precedence) (kinds : Operation α → Kinds)
    (o : Operation α) : Platform :=
  if o.isSwitch then .boundary
  else targets.pick precedence (kinds o).shape (kinds o).quantizable

/-- The platform a strategy proposes for each operation. -/
def propose (strategy : Strategy) (precedence : Precedence) (g : Graph α)
    (quantTypes : List String) (targets : Targets) : Except OrderError DispatchTable := do
  let kinds ← classify strategy g quantTypes
  return g.operations.mapEntries fun _ o => place targets precedence kinds o

/-- What is reported of a proposal. -/
def proposalEvents (g : Graph α) (t : DispatchTable) : List Event :=
  g.operations.entries.map fun e =>
    .proposed e.2.name e.2.type ((t.get? e.1).getD .unspecified)

end GraphDispatch.Dispatch
