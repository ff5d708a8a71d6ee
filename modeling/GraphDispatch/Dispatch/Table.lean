import GraphDispatch.Graph.Basic

/-!
# Dispatching tables

The platform of each operation, and the codes by which a user overrides it.
-/

namespace GraphDispatch

abbrev DispatchTable := NameMap Platform

/-- Platform codes by operation; a code is decoded only when it is applied. -/
abbrev Overrides := NameMap Int64

variable {α : Type}

/-- The first operation of a graph that a table says nothing about. -/
def DispatchTable.firstMissing? (t : DispatchTable) (g : Graph α) : Option String :=
  g.operations.names.find? (!t.contains ·)

end GraphDispatch
