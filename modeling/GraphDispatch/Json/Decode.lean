import GraphDispatch.Decimal.Precision
import GraphDispatch.Json.DecodeError
import GraphDispatch.Json.Outline

/-!
# Decoding JSON values

A decoder goes through an outline in the order of its text and turns it into what
it stands for, or says why it stands for nothing: the first reason counts.
-/

namespace GraphDispatch.Json

/-- Whether a decoder meets a value while its text is read, or the value is held as
a whole; only then can it look ahead. -/
inductive Manner where
  | streamed
  | held
  deriving DecidableEq, Repr

abbrev Decoder (α : Type) := Manner → Outline → Except DecodeError α

namespace Decoder

/-- Reads on, where reading does not depend on what is expected. -/
def lift {α : Type} (r : Except Fault α) : Except DecodeError α := r.mapError .fault

/-- The error of a decoder that expects something else than what is there. -/
def mismatch (expected : String) (o : Outline) : DecodeError :=
  match o.found with
  | .ok found => .wrongType found expected
  | .error f => .fault f

def string : Decoder String
  | _, .string s => return s
  | _, o => throw (mismatch "a string" o)

def bool : Decoder Bool
  | _, .bool b => return b
  | _, o => throw (mismatch "a boolean" o)

def int64 : Decoder Int64
  | _, .number (.natural n) =>
    if n.toNat < Decimal.signLimit then return Int64.ofNat n.toNat
    else throw (.wrongValue (.integer n.toNat) "i64")
  | _, .number (.negative n) => return n
  | _, o => throw (mismatch "i64" o)

def word : Decoder UInt64
  | _, .number (.natural n) => return n
  | _, .number (.negative n) => throw (.wrongValue (.integer n.toInt) "usize")
  | _, o => throw (mismatch "usize" o)

def single : Decoder Float32
  | _, .number (.natural n) => return n.toFloat32
  | _, .number (.negative n) => return n.toFloat32
  | _, .number (.double x) => return Decimal.narrow x
  | _, .number (.single x) => return x
  | _, o => throw (mismatch "f32" o)

def unit : Decoder Unit
  | _, .null => return ()
  | _, o => throw (mismatch "unit" o)

variable {α β : Type}

def option (decode : Decoder α) : Decoder (Option α)
  | _, .null => return none
  | m, o => some <$> decode m o

def list (decode : Decoder α) : Decoder (List α)
  | m, .array items stop => do
    let as ← items.mapM (decode m)
    lift (close stop)
    return as
  | _, o => throw (mismatch "a sequence" o)

/-- Of repeated names the last one counts. -/
def map (decode : Decoder α) : Decoder (NameMap α)
  | m, .object fields stop => do
    let entries ← fields.mapM fun (key, o) => do return (← lift key.read, ← decode m o)
    lift (close stop)
    return .ofList entries
  | _, o => throw (mismatch "a map" o)

/-! ## Variants

A variant is written as its name or as an object with its name alone, behind which
stand its contents.
-/

def named (known : List (String × β)) (name : String) : Except DecodeError β :=
  match known.lookup name with
  | some b => return b
  | none => throw (.unknownVariant name (known.map (·.1)))

/-- A variant in a place where only its name may stand. -/
def bareName (known : List (String × β)) : Decoder β
  | _, .string name => named known name
  | _, o => throw (mismatch "variant identifier" o)

/-- A variant in the form of an object. Held, an object of another size is refused
for that; streamed, the place behind the contents must close the object. -/
def carrier (m : Manner) (known : List (String × β))
    (carried : β → Outline → Except DecodeError α) :
    List (Key × Outline) → Option Fault → Except DecodeError α
  | [], stop => throw (if m = .held then .severalVariants else .fault (stop.getD .malformed))
  | (key, o) :: rest, stop => do
    if m = .held && !rest.isEmpty then throw .severalVariants
    let a ← carried (← named known (← lift key.read)) o
    if !rest.isEmpty then throw (.fault .malformed)
    lift (close stop)
    return a

/-- The error where neither the name of a variant nor an object begins. -/
def noVariant (m : Manner) (o : Outline) : DecodeError :=
  match m, o with
  | _, .missing f | _, .broken true ⟨f, _⟩ => .fault f
  | .streamed, _ => .fault .malformed
  | .held, o =>
    match o.found with
    | .ok found => .noVariant found
    | .error f => .fault f

/-- A variant, from what its name stands for by itself or with contents. -/
def tagged (known : List (String × β)) (bare : β → Except DecodeError α)
    (carried : β → Outline → Except DecodeError α) : Decoder α
  | _, .string name => do bare (← named known name)
  | m, .object fields stop => carrier m known carried fields stop
  | m, o => throw (noVariant m o)

/-- One of the given values, by its name. -/
def variant (known : List (String × α)) : Decoder α := fun m =>
  tagged known pure (fun a o => do unit m o; return a) m

/-- A variant with contents, by its name. -/
def carrying (known : List (String × Decoder α)) : Decoder α := fun m =>
  tagged known (fun _ => throw (.wrongType .bareVariant "newtype variant"))
    (fun decode o => decode m o) m

end Decoder

end GraphDispatch.Json
