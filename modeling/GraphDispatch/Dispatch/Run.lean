import GraphDispatch.Dispatch.Crossing
import GraphDispatch.Dispatch.Override
import GraphDispatch.Dispatch.Proposal
import GraphDispatch.Dispatch.Quantizer

/-!
# Dispatching a graph

The platform of every operation: proposed from the structure of the graph,
overridden by the user, written to the graph, and completed by switches.
Operations that the quantizer of the target can handle stay unspecified; the
quantizer settles them.
-/

namespace GraphDispatch.Dispatch

/-- What the user decides about a dispatch. -/
structure Request where
  platform : Platform
  strategy : String
  precedence : Precedence
  overrides : Overrides

/-- The platforms between which a dispatch chooses. -/
def targets : Targets := ⟨.unspecified, .fp32, .shapeOrIndex⟩

variable {α : Type}

/-- The strategy and its proposal. -/
def planned (r : Request) (g : Graph α) : Except DispatchError (Strategy × DispatchTable) := do
  let some quantTypes := r.platform.quantizer? | throw (.unsupportedPlatform r.platform)
  let some strategy := Strategy.parse? r.strategy | throw (.unknownStrategy r.strategy)
  let table ← (propose strategy r.precedence g quantTypes targets).mapError .order
  return (strategy, table)

/-- Returns the table that was written; the graph has its switches besides. -/
def run (r : Request) : Dispatching α DispatchTable := do
  let (strategy, proposed) ← Task.ofExcept id (planned r (← Task.state))
  (proposalEvents (← Task.state) proposed).forM Task.note
  let table ← r.overrides.apply (← Task.state) proposed
  table.commit
  let switches ← insertSwitches
  Task.note (.dispatched table.size (← Task.state).name strategy switches)
  return table

end GraphDispatch.Dispatch
