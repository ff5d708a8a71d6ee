import GraphDispatch.Json.Decode

/-!
# Decoding records

A record may be written as an object or as the array of its fields in the order
of their declaration. It is built up from a first value of its type by putting in
one field after the other, as they come; a field that is not there leaves that
value as it is, unless the record requires the field.
-/

namespace GraphDispatch.Json

namespace Record

/-- A field, by what reading it changes in a record. -/
structure Field (ρ : Type) where
  name : String
  isRequired : Bool
  put : Manner → Outline → ρ → Except DecodeError ρ

namespace Field

variable {ρ α : Type}

def ofDecoder (isRequired : Bool) (name : String) (decode : Decoder α) (set : ρ → α → ρ) :
    Field ρ :=
  ⟨name, isRequired, fun m o r => return set r (← decode m o)⟩

def required (name : String) (decode : Decoder α) (set : ρ → α → ρ) : Field ρ :=
  ofDecoder true name decode set

def optional (name : String) (decode : Decoder α) (set : ρ → α → ρ) : Field ρ :=
  ofDecoder false name decode set

end Field

variable {ρ : Type}

/-- Puts in the fields of an object and returns the names of those it had. Unknown
fields are skipped. -/
def putFields (known : List (Field ρ)) (m : Manner) (seen : List String) (r : ρ) :
    List (Key × Outline) → Except DecodeError (List String × ρ)
  | [] => return (seen, r)
  | (key, o) :: rest => do
    let name ← Decoder.lift key.read
    match known.find? (·.name = name) with
    | none =>
      Decoder.lift o.skip
      putFields known m seen r rest
    | some field =>
      if name ∈ seen then throw (.repeatedField name)
      putFields known m (name :: seen) (← field.put m o r) rest

def ofObject (known : List (Field ρ)) (m : Manner) (r : ρ) (fields : List (Key × Outline))
    (stop : Option Fault) : Except DecodeError ρ := do
  let (seen, r) ← putFields known m [] r fields
  Decoder.lift (close stop)
  match known.find? fun field => field.isRequired && !seen.contains field.name with
  | some field => throw (.missingField field.name)
  | none => return r

/-- Puts the items of an array into the fields that are left, of which the first is
the one at `index`. `expected` names a record whose array is too short. -/
def putItems (expected : String) (m : Manner) (stop : Option Fault) (index : Nat) (r : ρ) :
    List (Field ρ) → List Outline → Except DecodeError ρ
  | [], [] => do
    Decoder.lift (close stop)
    return r
  | [], rest =>
    throw (if m = .held then .tooMany (index + rest.length) else .fault .malformed)
  | field :: fields, o :: rest => do
    putItems expected m stop (index + 1) (← field.put m o r) fields rest
  | field :: fields, [] => do
    Decoder.lift (close stop)
    if field.isRequired then throw (.tooFew index expected)
    putItems expected m stop (index + 1) r fields []

def ofArray (expected : String) (known : List (Field ρ)) (m : Manner) (r : ρ)
    (items : List Outline) (stop : Option Fault) : Except DecodeError ρ :=
  putItems expected m stop 0 r known items

/-- A record of the type named `type`, built up from `r`. -/
def decode (type : String) (r : ρ) (known : List (Field ρ)) : Decoder ρ
  | m, .object fields stop => ofObject known m r fields stop
  | m, .array items stop =>
    let expected := "struct " ++ type ++ " with " ++ toString known.length ++ " elements"
    ofArray expected known m r items stop
  | _, o => throw (Decoder.mismatch ("struct " ++ type) o)

end Record

end GraphDispatch.Json
