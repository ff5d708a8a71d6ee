import GraphDispatch.Json.Fault
import GraphDispatch.Json.Found
import GraphDispatch.Json.Value

/-!
# Outlines

What a text holds, as far as it can be read: a value in which places may be
broken and the last arrays and objects may stand open. An outline keeps what
comes first in the text first, so that a reader who goes through it in order
meets the faults in the order of the text.
-/

namespace GraphDispatch.Json

/-- The name of a field as it stands in a text, `broken` where it can not be read. -/
inductive Key where
  | name (s : String)
  | broken (b : Break)

/-- An array or object that stands open ends with the fault of a reader who skips
it. A place is `missing` where no value begins and `broken` where one does that
denotes nothing. -/
inductive Outline where
  | null
  | bool (b : Bool)
  | number (n : Number)
  | string (s : String)
  | array (items : List Outline) (stop : Option Fault)
  | object (fields : List (Key × Outline)) (stop : Option Fault)
  | broken (isString : Bool) (b : Break)
  | missing (f : Fault)
  deriving Inhabited

def Key.read : Key → Except Fault String
  | .name s => return s
  | .broken b => throw b.needed

/-- Ends reading where an array or object stands open. -/
def close : Option Fault → Except Fault Unit
  | some f => throw f
  | none => return ()

namespace Outline

/-- What a reader meets who looks at the beginning of an array or object only. -/
def found : Outline → Except Fault Found
  | .null => return .null
  | .bool b => return .bool b
  | .number n => return n.found
  | .string s => return .string s
  | .array _ _ => return .sequence
  | .object _ _ => return .map
  | .broken _ b => throw b.needed
  | .missing f => throw f

/-- Passes over a place. Only what stands open at the end of a text has a fault
that a reader can not skip. -/
def skip : Outline → Except Fault Unit
  | .array _ stop | .object _ stop => close stop
  | .broken _ b => close b.skipped
  | .missing f => throw f
  | _ => return ()

mutual
/-- The value as a whole, or the first fault in it. -/
def value : Outline → Except Fault Value
  | .array items stop => do
    let values ← itemValues items
    close stop
    return .array values
  | .object fields stop => do
    let values ← fieldValues fields
    close stop
    return .object values
  | .broken _ b => throw b.needed
  | .missing f => throw f
  | .null => return .null
  | .bool b => return .bool b
  | .number n => return .number n
  | .string s => return .string s

def itemValues : List Outline → Except Fault (List Value)
  | [] => return []
  | o :: rest => do
    let v ← value o
    return v :: (← itemValues rest)

def fieldValues : List (Key × Outline) → Except Fault (List (String × Value))
  | [] => return []
  | (key, o) :: rest => do
    let name ← key.read
    let v ← value o
    return (name, v) :: (← fieldValues rest)
end

end Outline

namespace Value

mutual
/-- The outline of a value that is held as a whole. -/
def outline : Value → Outline
  | .array items => .array (itemOutlines items) none
  | .object fields => .object (fieldOutlines fields) none
  | .null => .null
  | .bool b => .bool b
  | .number n => .number n
  | .string s => .string s

def itemOutlines : List Value → List Outline
  | [] => []
  | v :: rest => outline v :: itemOutlines rest

def fieldOutlines : List (String × Value) → List (Key × Outline)
  | [] => []
  | (k, v) :: rest => (.name k, outline v) :: fieldOutlines rest
end

end Value

end GraphDispatch.Json
