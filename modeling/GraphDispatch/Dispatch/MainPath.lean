import GraphDispatch.Graph.Basic
import GraphDispatch.Graph.Reach

/-!
# The main numeric path

The operations that numbers fed to the graph can reach without passing through
a parameter or a shape.
-/

namespace GraphDispatch.Dispatch

variable {α : Type}

/-- Whether numbers flow through a variable. -/
def carriesNumbers (g : Graph α) (shapes : List String) (var : String) : Bool :=
  !shapes.contains var && (g.getVariable? var).any (!·.isParameter)

def readers (g : Graph α) (shapes : List String) (var : String) : List String :=
  if carriesNumbers g shapes var then g.consumersOf var else []

def outputsOf (g : Graph α) (op : String) : List String :=
  ((g.getOperation? op).map (·.outputs)).getD []

def mainPath (g : Graph α) (shapes : List String) : List String :=
  let next var := (readers g shapes var).flatMap (outputsOf g)
  (reach next g.vars.names g.inputs).flatMap (readers g shapes)

/-- The rule that `mainPath` follows: `op` reads a variable that numbers reach. -/
inductive OnMainPath (g : Graph α) (shapes : List String) : String → Prop where
  | input {var op} : var ∈ g.inputs → op ∈ readers g shapes var → OnMainPath g shapes op
  | step {op var next} : OnMainPath g shapes op → var ∈ outputsOf g op →
    next ∈ readers g shapes var → OnMainPath g shapes next

end GraphDispatch.Dispatch
