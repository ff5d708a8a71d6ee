import GraphDispatch.Graph.Document
import GraphDispatch.Json.Printer
import GraphDispatch.Json.Reading
import GraphDispatch.Json.Record

/-!
# Graphs as JSON

The JSON form of documents and of their parts. Writing puts fields in the order
of their declaration; `Graph.ofText` and `Graph.text` go by way of documents.
-/

namespace GraphDispatch

open Json

namespace Encoding

def strings (names : List String) : Value := .array (names.map .string)
def word (n : UInt64) : Value := .number (.natural n)
def int (n : Int64) : Value :=
  .number (if n < 0 then .negative n else .natural (UInt64.ofNat n.toInt.toNat))
def single (x : Float32) : Value := .number (.single x)

def elements : Elements Float32 → Value
  | .floats values =>
    .object [("dtype", .string "f32"), ("values", .array (values.map single))]
  | .ints values => .object [("dtype", .string "i64"), ("values", .array (values.map int))]

def tensor (t : Tensor Float32) : Value :=
  .object [("shape", .array (t.shape.map word)), ("data", elements t.elements)]

def attr : Attribute Float32 → Value
  | .int n => .object [("int", int n)]
  | .float x => .object [("float", single x)]
  | .ints ns => .object [("ints", .array (ns.map int))]
  | .floats xs => .object [("floats", .array (xs.map single))]
  | .string s => .object [("string", .string s)]
  | .tensor t => .object [("tensor", tensor t)]

def attributes (as : NameMap (Attribute Float32)) : Value :=
  .object (as.entries.map fun e => (e.1, attr e.2))

def platform (p : Platform) : Value := .string p.name

def declaration (d : Declaration Float32) : Value :=
  .object <| ("name", .string d.name) :: (d.value.toList.map fun t => ("value", tensor t)) ++
    [("is_parameter", .bool d.isParameter)]

def operation (o : Operation Float32) : Value :=
  .object [("name", .string o.name), ("op_type", .string o.type),
    ("attributes", attributes o.attributes), ("inputs", strings o.inputs),
    ("outputs", strings o.outputs), ("platform", platform o.platform)]

def document (d : Document Float32) : Value :=
  .object [("name", .string d.name), ("inputs", strings d.inputs),
    ("outputs", strings d.outputs), ("variables", .array (d.vars.map declaration)),
    ("operations", .array (d.operations.map operation))]

end Encoding

namespace Decoding

/-- Elements while they are read: the kind of their numbers, and numbers that came
before it. -/
structure ElementsDraft where
  isFloat : Option Bool
  early : Option Value
  elements : Elements Float32

def ElementsDraft.empty : ElementsDraft := ⟨none, none, .floats []⟩

def numberKinds : List (String × Bool) := [("f32", true), ("i64", false)]

def elementsOf (isFloat : Bool) : Decoder (Elements Float32) := fun m o =>
  if isFloat then .floats <$> Decoder.list Decoder.single m o
  else .ints <$> Decoder.list Decoder.int64 m o

/-- The kind decides how numbers that came before it are read. -/
def numberKind (decode : Decoder Bool) : Record.Field ElementsDraft :=
  ⟨"dtype", true, fun m o d => do
    let isFloat ← decode m o
    match d.early with
    | some v => return { d with elements := ← elementsOf isFloat .held v.outline }
    | none => return { d with isFloat := some isFloat }⟩

/-- Numbers whose kind is not yet known are kept as they are. -/
def numbers : Record.Field ElementsDraft :=
  ⟨"values", true, fun m o d => do
    match d.isFloat with
    | some isFloat => return { d with elements := ← elementsOf isFloat m o }
    | none => return { d with early := some (← Decoder.lift o.value) }⟩

def elements : Decoder (Elements Float32) := fun m o => do
  let expected := "adjacently tagged enum TensorData"
  match o with
  | .object fields stop =>
    let kind := numberKind (Decoder.variant numberKinds)
    return (← Record.ofObject [kind, numbers] m .empty fields stop).elements
  | .array items stop =>
    let kind := numberKind (Decoder.bareName numberKinds)
    return (← Record.ofArray expected [kind, numbers] m .empty items stop).elements
  | o => throw (Decoder.mismatch expected o)

def tensor : Decoder (Tensor Float32) :=
  Record.decode "Tensor" ⟨[], .floats []⟩
    [.required "shape" (Decoder.list Decoder.word) fun t shape => { t with shape },
      .required "data" elements fun t elements => { t with elements }]

def attr : Decoder (Attribute Float32) :=
  Decoder.carrying
    [("int", fun m o => .int <$> Decoder.int64 m o),
      ("float", fun m o => .float <$> Decoder.single m o),
      ("ints", fun m o => .ints <$> Decoder.list Decoder.int64 m o),
      ("floats", fun m o => .floats <$> Decoder.list Decoder.single m o),
      ("string", fun m o => .string <$> Decoder.string m o),
      ("tensor", fun m o => .tensor <$> tensor m o)]

def platform : Decoder Platform := Decoder.variant Platform.named

def strings : Decoder (List String) := Decoder.list Decoder.string

def declaration : Decoder (Declaration Float32) :=
  Record.decode "Variable" ⟨"", none, false⟩
    [.required "name" Decoder.string fun d name => { d with name },
      .optional "value" (Decoder.option tensor) fun d value => { d with value },
      .optional "is_parameter" Decoder.bool fun d isParameter => { d with isParameter }]

def operation : Decoder (Operation Float32) :=
  Record.decode "Operation" ⟨"", "", ∅, [], [], .unspecified⟩
    [.required "name" Decoder.string fun o name => { o with name },
      .required "op_type" Decoder.string fun o type => { o with type },
      .optional "attributes" (Decoder.map attr) fun o attributes => { o with attributes },
      .required "inputs" strings fun o inputs => { o with inputs },
      .required "outputs" strings fun o outputs => { o with outputs },
      .optional "platform" platform fun o platform => { o with platform }]

def document : Decoder (Document Float32) :=
  Record.decode "GraphDocument" ⟨"", [], [], [], []⟩
    [.required "name" Decoder.string fun d name => { d with name },
      .required "inputs" strings fun d inputs => { d with inputs },
      .required "outputs" strings fun d outputs => { d with outputs },
      .required "variables" (Decoder.list declaration) fun d vars => { d with vars },
      .required "operations" (Decoder.list operation) fun d operations =>
        { d with operations }]

end Decoding

namespace Graph

/-- The graph that an outline describes. -/
def ofOutline (m : Manner) (o : Outline) : Except ReadError (Graph Float32) :=
  match Decoding.document m o with
  | .error e => .error (.contents e)
  | .ok d => d.build.mapError fun e => .rejected e.message

def ofValue (v : Value) : Except ReadError (Graph Float32) := ofOutline .held v.outline

/-- The graph in a text. What follows the document is looked at last. -/
def ofSymbols (text : List Symbol) : Except ReadError (Graph Float32) := do
  let (o, rest) := Outline.ofSymbols text
  let g ← ofOutline .streamed o
  (close rest).mapError .text
  return g

def ofText (text : String) : Except ReadError (Graph Float32) :=
  ofSymbols (text.toList.map some)

def text (g : Graph Float32) : String := (Encoding.document (.ofGraph g)).compact

end Graph

end GraphDispatch
