import GraphDispatch.Graph.Edit
import GraphDispatch.Graph.Order

/-!
# Dispatching errors

Why no platform can be given to the operations of a graph.
-/

namespace GraphDispatch

inductive DispatchError where
  | unsupportedPlatform (platform : Platform)
  | unknownStrategy (name : String)
  | invalidCode (op : String) (code : Int64)
  | missing (op : String)
  | order (cause : OrderError)
  | edit (cause : EditError)
  deriving DecidableEq, Repr

namespace DispatchError

def message : DispatchError → String
  | unsupportedPlatform platform =>
    "target platform " ++ platform.name ++ " is not supported right now"
  | unknownStrategy name =>
    "can not find dispatcher type \"" ++ name ++ "\", check your input again"
  | invalidCode op code =>
    "dispatching table contains an invalid platform code " ++ toString code.toInt ++
      " for operation " ++ op
  | missing op => "internal error, can not find operation " ++ op ++ " in dispatching table"
  | order cause => cause.message
  | edit cause => cause.message

/-- Whether what the user asked for is at fault, and not the graph. -/
def isConfiguration : DispatchError → Bool
  | unsupportedPlatform _ | unknownStrategy _ | invalidCode _ _ => true
  | missing _ | order _ | edit _ => false

end DispatchError

end GraphDispatch
