import GraphDispatch.Dispatch.Error
import GraphDispatch.Graph.Switch
import GraphDispatch.Task

/-!
# Crossings between platforms

A variable crosses where its producer and one of its consumers sit on different
platforms. Each pair of a variable and a platform it crosses to gets one switch;
switches that no longer fit the platforms around them are taken out first.
-/

namespace GraphDispatch

variable {α : Type}

abbrev Dispatching (α β : Type) := Task (Graph α) DispatchError β

namespace Dispatch

/-- The operation that produces the first input. -/
def feeder? (g : Graph α) (o : Operation α) : Option (Operation α) :=
  (o.inputs.head?.bind g.producer?).bind g.getOperation?

/-- The operations that read the first output, each once. -/
def receivers (g : Graph α) (o : Operation α) : List String :=
  ((o.outputs.head?.bind g.getVariable?).map (·.consumerNames)).getD []

def sitsOn (g : Graph α) (platform : Platform) (op : String) : Bool :=
  (g.getOperation? op).any fun o => !o.isSwitch && o.platform = platform

/-- Whether a switch leads from the platform of its feeder to the platform that
all its receivers share. -/
def isFitting (g : Graph α) (o : Operation α) : Bool :=
  match o.switchPlatforms?, feeder? g o with
  | some (source, target), some feeder =>
    source ≠ target && !feeder.isSwitch && feeder.platform = source &&
      !(receivers g o).isEmpty && (receivers g o).all (sitsOn g target)
  | _, _ => false

/-- A switch whose relay is an output of the graph stays whatever happens. -/
def isExposed (g : Graph α) (o : Operation α) : Bool := o.outputs.any g.outputs.contains

def staleSwitches (g : Graph α) : List String :=
  (g.operations.values.filter fun o => o.isSwitch && !isFitting g o && !isExposed g o).map (·.name)

/-- Takes a switch out: what read its relay reads its input again. -/
def removeSwitch (op input relay : String) : Edit α Unit := do
  let consumers := (((← get).getVariable? relay).map (·.consumerNames)).getD []
  discard (Edit.removeOperation op)
  consumers.forM fun consumer => Edit.replaceInput consumer relay input
  discard (Edit.removeVariable relay)

/-- The removal of an earlier switch may have given the switch another input. -/
def removeStale (op : String) : Dispatching α Unit := do
  let some o := (← Task.state).getOperation? op | return
  let (some input, some relay) := (o.inputs.head?, o.outputs.head?) | return
  Task.edit .edit (removeSwitch op input relay)
  Task.note (.switchRemoved op input)

def removeStaleSwitches : Dispatching α Nat := do
  let stale := staleSwitches (← Task.state)
  stale.forM removeStale
  return stale.length

/-- A variable, the platform it is produced on, and the operations that read it on
another platform. -/
structure Crossing where
  var : String
  source : Platform
  target : Platform
  consumers : List String
  /-- What a switch that is there already hands to the other platform. -/
  relay : Option String
  deriving DecidableEq, Repr

/-- The relay of a fitting switch from a variable to a platform, the last one by
name of its switch. -/
def relay? (g : Graph α) (v : Variable α) (target : Platform) : Option String :=
  (v.consumerNames.filterMap g.getOperation?).reverse.findSome? fun o =>
    if isFitting g o && (o.switchPlatforms?.map (·.2)) = some target then o.outputs.head?
    else none

/-- The crossings of a variable, in the order of the platforms. -/
def crossingsOf (g : Graph α) (v : Variable α) : List Crossing :=
  match v.producer.bind g.getOperation? with
  | none => []
  | some p =>
    if p.isSwitch then []
    else (Platform.all.filter (· ≠ p.platform)).filterMap fun target =>
      match v.consumerNames.filter (sitsOn g target) with
      | [] => none
      | consumers => some ⟨v.name, p.platform, target, consumers, relay? g v target⟩

def crossings (g : Graph α) : List Crossing := g.vars.values.flatMap (crossingsOf g)

/-- Lets the consumers of a crossing read its relay. -/
def joinRelay (c : Crossing) (relay : String) : Edit α Unit :=
  c.consumers.forM fun consumer => Edit.replaceInput consumer c.var relay

/-- Puts a switch on a crossing and returns its name. -/
def insertSwitch (c : Crossing) : Edit α String := do
  let switch := (← get).freshName (c.var ++ ".switch")
  discard (Edit.insertOnVariable switch switchType (switchAttributes c.source c.target) c.var
    c.consumers)
  Edit.setPlatform switch .boundary
  return switch

/-- Returns whether a switch was inserted. -/
def relayCrossing (c : Crossing) : Dispatching α Bool := do
  match c.relay with
  | some relay =>
    Task.edit .edit (joinRelay c relay)
    return false
  | none =>
    let switch ← Task.edit .edit (insertSwitch c)
    Task.note (.switchInserted switch c.var c.source c.target)
    return true

/-- Relays every crossing through a switch; returns how many switches are new. -/
def insertSwitches : Dispatching α Nat := do
  let removed ← removeStaleSwitches
  if 0 < removed then Task.note (.switchesRemoved removed)
  (crossings (← Task.state)).foldlM (fun n c => return if ← relayCrossing c then n + 1 else n) 0

end Dispatch

end GraphDispatch
