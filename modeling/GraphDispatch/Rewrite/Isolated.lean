import GraphDispatch.Graph.Reach
import GraphDispatch.Rewrite.Basic

/-!
# Isolated nodes

What no graph output depends on is removed: first operations, then variables
that nothing refers to. A graph without outputs keeps its operations.
-/

namespace GraphDispatch.Rewrite

variable {α : Type}

/-- The operations that some graph output depends on. -/
def contributing (g : Graph α) : List String :=
  reach g.upstream g.operations.names (g.outputs.filterMap g.producer?)

def deadOperations (g : Graph α) : List String :=
  let alive := contributing g
  g.operations.names.filter (· ∉ alive)

def unreferenced (g : Graph α) : List String :=
  (g.vars.values.filter fun v =>
    v.producer.isNone && v.consumers.isEmpty && !g.inputs.contains v.name &&
      !g.outputs.contains v.name).map (·.name)

def isolated : Rewrite α Nat := do
  let g ← Task.state
  let dead ←
    if g.outputs.isEmpty then do
      Task.note (.noOutput g.name)
      pure []
    else pure (deadOperations g)
  edit (dead.forM fun op => discard (Edit.removeOperation op))
  let unused := unreferenced (← Task.state)
  edit (unused.forM fun var => discard (Edit.removeVariable var))
  return dead.length + unused.length

end GraphDispatch.Rewrite
