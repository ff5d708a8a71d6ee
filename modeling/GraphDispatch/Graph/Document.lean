import GraphDispatch.Graph.Edit

/-!
# Documents of graphs

A document lists the variables and the operations of a graph without the links
of its variables. Building the graph adds the variables, then the operations in
their order, then the interface.
-/

namespace GraphDispatch

structure Declaration (α : Type) where
  name : String
  value : Option (Tensor α)
  isParameter : Bool
  deriving DecidableEq

structure Document (α : Type) where
  name : String
  inputs : List String
  outputs : List String
  vars : List (Declaration α)
  operations : List (Operation α)
  deriving DecidableEq

inductive BuildError where
  | declaredTwice (var : String)
  | operation (op : String) (cause : EditError)
  | interface (cause : EditError)
  deriving DecidableEq, Repr

/-- The outermost reason. -/
def BuildError.message : BuildError → String
  | declaredTwice var => "variable " ++ var ++ " declared twice"
  | operation op _ => "rebuilding operation " ++ op
  | interface cause => cause.message

variable {α : Type}

namespace Document

def ofGraph (g : Graph α) : Document α where
  name := g.name
  inputs := g.inputs
  outputs := g.outputs
  vars := g.vars.values.map fun v => ⟨v.name, v.value, v.isParameter⟩
  operations := g.operations.values

abbrev Construction (α β : Type) := EStateM BuildError (Graph α) β

def declare (d : Declaration α) : Construction α Unit := do
  if (← get).vars.contains d.name then throw (.declaredTwice d.name)
  modify (Graph.putVariable ⟨d.name, d.value, d.isParameter || d.value.isSome, none, []⟩)

def addOperation (o : Operation α) : Construction α Unit :=
  EStateM.adaptExcept (.operation o.name) do
    discard (Edit.createOperation o.name o.type o.attributes o.inputs o.outputs)
    Edit.setPlatform o.name o.platform

def construct (d : Document α) : Construction α Unit := do
  d.vars.forM declare
  d.operations.forM addOperation
  EStateM.adaptExcept .interface do
    d.inputs.forM Edit.markInput
    d.outputs.forM Edit.markOutput

def build (d : Document α) : Except BuildError (Graph α) :=
  match d.construct (Graph.empty d.name) with
  | .ok _ g => .ok g
  | .error e _ => .error e

end Document

end GraphDispatch
