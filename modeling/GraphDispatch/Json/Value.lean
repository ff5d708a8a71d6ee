import GraphDispatch.Json.Token
import GraphDispatch.NameMap

/-!
# JSON values

Objects keep their fields as written, repetitions included; `Value.normal` puts
them in order.
-/

namespace GraphDispatch.Json

inductive Value where
  | null
  | bool (b : Bool)
  | number (n : Number)
  | string (s : String)
  | array (items : List Value)
  | object (fields : List (String × Value))
  deriving Repr, Inhabited

namespace Value

mutual
/-- The value with the fields of every object in the order of their names, the
last of repeated fields kept. -/
def normal : Value → Value
  | .array items => .array (normalItems items)
  | .object fields => .object (NameMap.ofList (normalFields fields)).entries
  | .null => .null
  | .bool b => .bool b
  | .number n => .number n
  | .string s => .string s

def normalItems : List Value → List Value
  | [] => []
  | v :: rest => normal v :: normalItems rest

def normalFields : List (String × Value) → List (String × Value)
  | [] => []
  | (k, v) :: rest => (k, normal v) :: normalFields rest
end

end Value

end GraphDispatch.Json
