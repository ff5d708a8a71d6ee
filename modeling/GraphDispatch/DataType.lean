import GraphDispatch.Text.Case

/-!
# Element type names

The types a cast can target, by code and by name.
-/

namespace GraphDispatch

inductive DataType where
  | float32
  | uint8
  | int8
  | uint16
  | int16
  | int32
  | int64
  | string
  | bool
  | float16
  | float64
  | uint32
  | uint64
  | bfloat16
  deriving DecidableEq, Repr

namespace DataType

def all : List DataType :=
  [float32, uint8, int8, uint16, int16, int32, int64, string, bool, float16, float64, uint32,
    uint64, bfloat16]

def code : DataType → Int64
  | float32 => 1
  | uint8 => 2
  | int8 => 3
  | uint16 => 4
  | int16 => 5
  | int32 => 6
  | int64 => 7
  | string => 8
  | bool => 9
  | float16 => 10
  | float64 => 11
  | uint32 => 12
  | uint64 => 13
  | bfloat16 => 16

def name : DataType → String
  | float32 => "float32"
  | uint8 => "uint8"
  | int8 => "int8"
  | uint16 => "uint16"
  | int16 => "int16"
  | int32 => "int32"
  | int64 => "int64"
  | string => "string"
  | bool => "bool"
  | float16 => "float16"
  | float64 => "float64"
  | uint32 => "uint32"
  | uint64 => "uint64"
  | bfloat16 => "bfloat16"

/-- Other names in use. -/
def aliases : List (String × DataType) :=
  [("float", float32), ("fp32", float32), ("int", int32), ("long", int64), ("half", float16),
    ("fp16", float16), ("double", float64), ("bf16", bfloat16)]

def ofCode? (c : Int64) : Option DataType := all.find? (·.code = c)

/-- A type by its name or an alias, in letters of any case. -/
def ofName? (s : String) : Option DataType :=
  let lower := Text.lower s
  all.find? (·.name = lower) <|> aliases.lookup lower

@[simp] theorem ofName?_name (t : DataType) : ofName? t.name = some t := by
  cases t <;> decide

end DataType

end GraphDispatch
