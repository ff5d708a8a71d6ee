import GraphDispatch.Graph.Tensor
import GraphDispatch.NameMap
import GraphDispatch.Platform

/-!
# Graphs

Operations refer to variables by name. A variable knows the operation that
produces it and, once for each slot, the operations that read it; edits keep
both sides of these links in agreement.
-/

namespace GraphDispatch

inductive Attribute (α : Type) where
  | int (n : Int64)
  | float (x : α)
  | ints (ns : List Int64)
  | floats (xs : List α)
  | string (s : String)
  | tensor (t : Tensor α)
  deriving DecidableEq, BEq, Repr

structure Operation (α : Type) where
  name : String
  type : String
  attributes : NameMap (Attribute α)
  inputs : List String
  outputs : List String
  platform : Platform
  deriving DecidableEq, BEq

structure Variable (α : Type) where
  name : String
  value : Option (Tensor α)
  isParameter : Bool
  /-- The operation that produces the variable. -/
  producer : Option String
  /-- The operations that read the variable, one entry for each slot, in order of
  their names. -/
  consumers : List String
  deriving DecidableEq, BEq

structure Graph (α : Type) where
  name : String
  operations : NameMap (Operation α)
  vars : NameMap (Variable α)
  inputs : List String
  outputs : List String
  deriving DecidableEq, BEq

variable {α : Type}

namespace Attribute

def asInt? : Attribute α → Option Int64
  | int n => some n
  | _ => none

def asFloat? [Scalar α] : Attribute α → Option α
  | float x => some x
  | int n => some (Scalar.ofInt n)
  | _ => none

def asInts? : Attribute α → Option (List Int64)
  | ints ns => some ns
  | _ => none

def asString? : Attribute α → Option String
  | string s => some s
  | _ => none

end Attribute

namespace Variable

def consumerNames (v : Variable α) : List String := v.consumers.eraseDups

end Variable

/-- Puts a name behind those that are not greater. -/
def insertName (n : String) : List String → List String
  | [] => [n]
  | m :: rest => if m ≤ n then m :: insertName n rest else n :: m :: rest

def Variable.addConsumer (op : String) (v : Variable α) : Variable α :=
  { v with consumers := insertName op v.consumers }

namespace Graph

def empty (name : String) : Graph α := ⟨name, ∅, ∅, [], []⟩

def getOperation? (g : Graph α) (op : String) : Option (Operation α) := g.operations.get? op
def getVariable? (g : Graph α) (var : String) : Option (Variable α) := g.vars.get? var

/-- The operation that produces a variable. -/
def producer? (g : Graph α) (var : String) : Option String :=
  (g.getVariable? var).bind (·.producer)

def consumersOf (g : Graph α) (var : String) : List String :=
  ((g.getVariable? var).map (·.consumers)).getD []

/-- The operations that produce the inputs of an operation, each once. -/
def upstream (g : Graph α) (op : String) : List String :=
  match g.getOperation? op with
  | some o => (o.inputs.filterMap g.producer?).eraseDups
  | none => []

/-- The operations that read the outputs of an operation, each once. -/
def downstream (g : Graph α) (op : String) : List String :=
  match g.getOperation? op with
  | some o => (o.outputs.flatMap g.consumersOf).eraseDups
  | none => []

/-- The names of the operations of a type, in order. -/
def operationsOfType (g : Graph α) (type : String) : List String :=
  (g.operations.values.filter (·.type = type)).map (·.name)

end Graph

end GraphDispatch
