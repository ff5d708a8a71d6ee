import GraphDispatch.Graph.Basic

/-!
# Agreement of links

`Graph.check` looks for the first link between operations and variables that
only one side knows of.
-/

namespace GraphDispatch

inductive Inconsistency where
  | misplacedOperation (op stored : String)
  | readsUnknown (op var : String)
  | unlistedConsumer (var op : String)
  | writesUnknown (op var : String)
  | unlistedProducer (var op : String)
  | misplacedVariable (var stored : String)
  | danglingProducer (var op : String)
  | danglingConsumer (var op : String)
  | unknownInterface (var : String)
  deriving DecidableEq, Repr

def Inconsistency.message : Inconsistency → String
  | misplacedOperation op stored => "operation " ++ op ++ " is stored under " ++ stored
  | readsUnknown op var => "operation " ++ op ++ " reads unknown variable " ++ var
  | unlistedConsumer var op => "variable " ++ var ++ " does not list " ++ op ++ " as consumer"
  | writesUnknown op var => "operation " ++ op ++ " writes unknown variable " ++ var
  | unlistedProducer var op => "variable " ++ var ++ " does not list " ++ op ++ " as producer"
  | misplacedVariable var stored => "variable " ++ var ++ " is stored under " ++ stored
  | danglingProducer var op => "variable " ++ var ++ " has a dangling producer " ++ op
  | danglingConsumer var op => "variable " ++ var ++ " has a dangling consumer " ++ op
  | unknownInterface var => "graph interface refers to unknown variable " ++ var

variable {α : Type}

namespace Graph

def checkOperation (g : Graph α) (name : String) (o : Operation α) :
    Except Inconsistency Unit := do
  if o.name ≠ name then throw (.misplacedOperation o.name name)
  o.inputs.forM fun var =>
    match g.getVariable? var with
    | none => throw (.readsUnknown name var)
    | some v =>
      if v.consumers.count name = o.inputs.count var then return ()
      else throw (.unlistedConsumer var name)
  o.outputs.forM fun var =>
    match g.getVariable? var with
    | none => throw (.writesUnknown name var)
    | some v =>
      if v.producer = some name then return () else throw (.unlistedProducer var name)

def checkVariable (g : Graph α) (name : String) (v : Variable α) :
    Except Inconsistency Unit := do
  if v.name ≠ name then throw (.misplacedVariable v.name name)
  v.producer.forM fun op =>
    if (g.getOperation? op).any (·.outputs.contains name) then return ()
    else throw (.danglingProducer name op)
  v.consumers.forM fun op =>
    if (g.getOperation? op).any (·.inputs.contains name) then return ()
    else throw (.danglingConsumer name op)

def check (g : Graph α) : Except Inconsistency Unit := do
  g.operations.entries.forM fun e => checkOperation g e.1 e.2
  g.vars.entries.forM fun e => checkVariable g e.1 e.2
  (g.inputs ++ g.outputs).forM fun var =>
    if g.vars.contains var then return () else throw (.unknownInterface var)

/-- Operations and variables tell the same links, and what the interface names exists. -/
structure Linked (g : Graph α) : Prop where
  operation_name : ∀ {op o}, g.getOperation? op = some o → o.name = op
  variable_name : ∀ {var v}, g.getVariable? var = some v → v.name = var
  input_known : ∀ {op o var}, g.getOperation? op = some o → var ∈ o.inputs → var ∈ g.vars
  output_known : ∀ {op o var}, g.getOperation? op = some o → var ∈ o.outputs → var ∈ g.vars
  count_consumers : ∀ {var v}, g.getVariable? var = some v → ∀ op,
    v.consumers.count op = ((g.getOperation? op).map (·.inputs.count var)).getD 0
  producer_iff : ∀ {var v}, g.getVariable? var = some v → ∀ op,
    v.producer = some op ↔ ∃ o, g.getOperation? op = some o ∧ var ∈ o.outputs
  outputs_nodup : ∀ {op o}, g.getOperation? op = some o → o.outputs.Nodup
  consumers_sorted : ∀ {var v}, g.getVariable? var = some v → v.consumers.Pairwise (· ≤ ·)
  parameter_of_value : ∀ {var v}, g.getVariable? var = some v → v.value.isSome →
    v.isParameter = true
  inputs_known : ∀ var ∈ g.inputs, var ∈ g.vars
  outputs_known : ∀ var ∈ g.outputs, var ∈ g.vars
  inputs_nodup : g.inputs.Nodup
  graphOutputs_nodup : g.outputs.Nodup

end Graph

end GraphDispatch
