import GraphDispatch.Decimal.Precision
import GraphDispatch.Json.Token
import GraphDispatch.Text.Hidden
import GraphDispatch.Text.Quoted

/-!
# What a decoder may meet

The kinds of values as messages name them.
-/

namespace GraphDispatch.Json

/-- What a decoder met in place of what it expected. -/
inductive Found where
  | null
  | bool (b : Bool)
  | integer (n : Int)
  | double (x : Float)
  | string (s : String)
  | sequence
  | map
  | bareVariant
  deriving DecidableEq, Repr

def Found.text : Found → String
  | .null => "null"
  | .bool b => "boolean `" ++ (if b then "true" else "false") ++ "`"
  | .integer n => "integer `" ++ toString n ++ "`"
  | .double x => "floating point `" ++ (Number.double x).write ++ "`"
  | .string s => "string " ++ Text.quoted Text.isHidden s
  | .sequence => "sequence"
  | .map => "map"
  | .bareVariant => "unit variant"

def Number.found : Number → Found
  | .natural n => .integer n.toNat
  | .negative n => .integer n.toInt
  | .double x => .double x
  | .single x => .double (Decimal.widen x)

end GraphDispatch.Json
