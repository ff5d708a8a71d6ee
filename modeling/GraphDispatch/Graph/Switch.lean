import GraphDispatch.Graph.Basic

/-!
# Switches

A switch is an operation that hands a variable from one platform to another.
Its attributes hold the codes of both.
-/

namespace GraphDispatch

variable {α : Type}

def switchType : String := "DeviceSwitch"
def switchSourceKey : String := "source_platform"
def switchTargetKey : String := "target_platform"

namespace Operation

def isSwitch (o : Operation α) : Bool := o.type = switchType

def platformAttribute? (o : Operation α) (key : String) : Option Platform :=
  ((o.attributes.get? key).bind (·.asInt?)).bind Platform.ofCode?

/-- The platforms on both sides of a switch. -/
def switchPlatforms? (o : Operation α) : Option (Platform × Platform) :=
  if o.isSwitch then
    (o.platformAttribute? switchSourceKey).bind fun source =>
      (o.platformAttribute? switchTargetKey).map (source, ·)
  else none

end Operation

def switchAttributes (source target : Platform) : NameMap (Attribute α) :=
  .ofList [(switchSourceKey, .int source.code), (switchTargetKey, .int target.code)]

end GraphDispatch
