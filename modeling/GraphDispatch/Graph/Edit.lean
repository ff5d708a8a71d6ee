import GraphDispatch.Graph.FreshName

/-!
# Edits of a graph

An edit runs on a graph and leaves a graph behind, also where it fails. Each
edit checks what it is given before it changes anything; the look-ups that come
later can fail only on a graph whose links disagree.
-/

namespace GraphDispatch

inductive EditError where
  | variableExists (var : String)
  | operationExists (op : String)
  | undeclaredVariable (op var : String)
  | alreadyProduced (var producer op : String)
  | producedParameter (var op : String)
  | repeatedOutput (op : String)
  | unknownGraphInput (var : String)
  | unknownGraphOutput (var : String)
  | removedUnknownOperation (op : String)
  | removedUnknownVariable (var : String)
  | variableInUse (var : String)
  | unknownVariable (var : String)
  | unknownOperation (op : String)
  | notRead (op var : String)
  | notProduced (op var : String)
  | hasProducer (var : String)
  | insertedOnUnknown (op var : String)
  | valueOfProduced (var : String)
  deriving DecidableEq, Repr

def EditError.message : EditError → String
  | variableExists var => "variable " ++ var ++ " already exists"
  | operationExists op => "operation " ++ op ++ " already exists"
  | undeclaredVariable op var => "operation " ++ op ++ " references unknown variable " ++ var
  | alreadyProduced var producer op =>
    "variable " ++ var ++ " is already produced by " ++ producer ++
      ", can not be an output of " ++ op
  | producedParameter var op =>
    "parameter variable " ++ var ++ " can not be an output of " ++ op
  | repeatedOutput op => "operation " ++ op ++ " lists the same output twice"
  | unknownGraphInput var => "unknown graph input " ++ var
  | unknownGraphOutput var => "unknown graph output " ++ var
  | removedUnknownOperation op => "can not remove unknown operation " ++ op
  | removedUnknownVariable var => "can not remove unknown variable " ++ var
  | variableInUse var => "variable " ++ var ++ " is still linked to operations"
  | unknownVariable var => "unknown variable " ++ var
  | unknownOperation op => "unknown operation " ++ op
  | notRead op var => "operation " ++ op ++ " does not read variable " ++ var
  | notProduced op var => "operation " ++ op ++ " does not produce variable " ++ var
  | hasProducer var => "variable " ++ var ++ " already has a producer"
  | insertedOnUnknown op var => "can not insert " ++ op ++ " on unknown variable " ++ var
  | valueOfProduced var =>
    "variable " ++ var ++ " is produced by an operation and can not hold a value"

abbrev Edit (α β : Type) := EStateM EditError (Graph α) β

variable {α : Type}

namespace Graph

def putOperation (o : Operation α) (g : Graph α) : Graph α :=
  { g with operations := g.operations.insert o.name o }

def putVariable (v : Variable α) (g : Graph α) : Graph α :=
  { g with vars := g.vars.insert v.name v }

def modifyOperation (op : String) (f : Operation α → Operation α) (g : Graph α) : Graph α :=
  { g with operations := g.operations.modify op f }

def modifyVariable (var : String) (f : Variable α → Variable α) (g : Graph α) : Graph α :=
  { g with vars := g.vars.modify var f }

end Graph

namespace Edit

def require (condition : Bool) (error : EditError) : Edit α Unit :=
  if condition then pure () else throw error

def getOperation (op : String) : Edit α (Operation α) := do
  match (← get).getOperation? op with
  | some o => return o
  | none => throw (.unknownOperation op)

def getVariable (var : String) : Edit α (Variable α) := do
  match (← get).getVariable? var with
  | some v => return v
  | none => throw (.unknownVariable var)

def updateOperation (op : String) (f : Operation α → Operation α) : Edit α Unit := do
  discard (getOperation op)
  modify (Graph.modifyOperation op f)

def updateVariable (var : String) (f : Variable α → Variable α) : Edit α Unit := do
  discard (getVariable var)
  modify (Graph.modifyVariable var f)

/-- Adds a variable without links; one with a value is a parameter. -/
def createVariable (var : String) (value : Option (Tensor α)) : Edit α (Variable α) := do
  require (!(← get).vars.contains var) (.variableExists var)
  let v : Variable α := ⟨var, value, value.isSome, none, []⟩
  modify (Graph.putVariable v)
  return v

/-- What an output of a new operation must not be. -/
def requireFreeOutput (op var : String) : Edit α Unit := do
  let v ← getVariable var
  match v.producer with
  | some producer => throw (.alreadyProduced var producer op)
  | none => require (!v.isParameter) (.producedParameter var op)

/-- Adds an operation between variables of the graph. -/
def createOperation (op type : String) (attributes : NameMap (Attribute α))
    (inputs outputs : List String) : Edit α (Operation α) := do
  require (!(← get).operations.contains op) (.operationExists op)
  (inputs ++ outputs).forM fun var => do
    require ((← get).vars.contains var) (.undeclaredVariable op var)
  outputs.forM (requireFreeOutput op)
  require (decide outputs.Nodup) (.repeatedOutput op)
  inputs.forM fun var => updateVariable var (Variable.addConsumer op)
  outputs.forM fun var => updateVariable var fun v => { v with producer := some op }
  let o : Operation α := ⟨op, type, attributes, inputs, outputs, .unspecified⟩
  modify (Graph.putOperation o)
  return o

def addOnce (n : String) (names : List String) : List String :=
  if n ∈ names then names else names ++ [n]

def markInput (var : String) : Edit α Unit := do
  require ((← get).vars.contains var) (.unknownGraphInput var)
  modify fun g => { g with inputs := addOnce var g.inputs }

def markOutput (var : String) : Edit α Unit := do
  require ((← get).vars.contains var) (.unknownGraphOutput var)
  modify fun g => { g with outputs := addOnce var g.outputs }

/-- Removes an operation; its variables stay. -/
def removeOperation (op : String) : Edit α (Operation α) := do
  let some o := (← get).getOperation? op | throw (.removedUnknownOperation op)
  modify fun g => { g with operations := g.operations.erase op }
  o.inputs.eraseDups.forM fun var =>
    updateVariable var fun v => { v with consumers := v.consumers.filter (· ≠ op) }
  o.outputs.forM fun var => updateVariable var fun v => { v with producer := none }
  return o

/-- Removes a variable that no operation refers to, also from the interface. -/
def removeVariable (var : String) : Edit α (Variable α) := do
  let some v := (← get).getVariable? var | throw (.removedUnknownVariable var)
  require (v.producer.isNone && v.consumers.isEmpty) (.variableInUse var)
  modify fun g => { g with
    inputs := g.inputs.filter (· ≠ var)
    outputs := g.outputs.filter (· ≠ var)
    vars := g.vars.erase var }
  return v

/-- Lets every slot of an operation that reads `old` read `new`. -/
def replaceInput (op old new : String) : Edit α Unit := do
  require ((← get).vars.contains new) (.unknownVariable new)
  let o ← getOperation op
  let slots := o.inputs.count old
  updateOperation op fun o =>
    { o with inputs := o.inputs.map fun var => if var = old then new else var }
  require (0 < slots) (.notRead op old)
  updateVariable old fun v => { v with consumers := v.consumers.filter (· ≠ op) }
  updateVariable new (Nat.repeat (Variable.addConsumer op) slots)

/-- Lets an operation produce `new`, which must be free, in place of `old`. -/
def replaceOutput (op old new : String) : Edit α Unit := do
  let v ← getVariable new
  require v.producer.isNone (.hasProducer new)
  let o ← getOperation op
  require (o.outputs.contains old) (.notProduced op old)
  updateOperation op fun o => { o with outputs := o.outputs.replace old new }
  updateVariable old fun v => { v with producer := none }
  updateVariable new fun v => { v with producer := some op }

def appendInput (op var : String) : Edit α Unit := do
  require ((← get).vars.contains var) (.unknownVariable var)
  updateOperation op fun o => { o with inputs := o.inputs ++ [var] }
  updateVariable var (Variable.addConsumer op)

/-- Drops the inputs of an operation from slot `keep` on. -/
def truncateInputs (op : String) (keep : Nat) : Edit α Unit := do
  let o ← getOperation op
  if keep < o.inputs.length then
    updateOperation op fun o => { o with inputs := o.inputs.take keep }
    (o.inputs.drop keep).forM fun var =>
      updateVariable var fun v => { v with consumers := v.consumers.erase op }

/-- Puts a new operation on a variable and lets the given consumers read what it
produces. Returns the name of the variable it produces. -/
def insertOnVariable (op type : String) (attributes : NameMap (Attribute α)) (var : String)
    (consumers : List String) : Edit α String := do
  let some v := (← get).getVariable? var | throw (.insertedOnUnknown op var)
  consumers.forM fun consumer =>
    require (v.consumers.contains consumer) (.notRead consumer var)
  let relay := (← get).freshName (var ++ "." ++ op)
  discard (createVariable relay none)
  discard (createOperation op type attributes [var] [relay])
  consumers.forM fun consumer => replaceInput consumer var relay
  return relay

def setAttribute (op key : String) (value : Attribute α) : Edit α Unit :=
  updateOperation op fun o => { o with attributes := o.attributes.insert key value }

def removeAttribute (op key : String) : Edit α (Option (Attribute α)) := do
  let o ← getOperation op
  updateOperation op fun o => { o with attributes := o.attributes.erase key }
  return o.attributes.get? key

/-- Makes a variable a parameter. -/
def setValue (var : String) (value : Tensor α) : Edit α Unit := do
  let v ← getVariable var
  require v.producer.isNone (.valueOfProduced var)
  updateVariable var fun v => { v with value := some value, isParameter := true }

def setPlatform (op : String) (platform : Platform) : Edit α Unit :=
  updateOperation op fun o => { o with platform := platform }

end Edit

end GraphDispatch
