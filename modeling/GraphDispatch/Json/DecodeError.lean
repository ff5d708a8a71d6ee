import GraphDispatch.Json.Fault
import GraphDispatch.Json.Found
import GraphDispatch.Json.Position

/-!
# Why JSON does not decode

Errors of decoders, which end at the first one that they meet, and of readers of
documents.
-/

namespace GraphDispatch.Json

inductive DecodeError where
  | fault (fault : Fault)
  | wrongType (found : Found) (expected : String)
  | wrongValue (found : Found) (expected : String)
  | missingField (name : String)
  | repeatedField (name : String)
  | unknownVariant (name : String) (known : List String)
  /-- An array of fields without the one at `index`, which has no default. -/
  | tooFew (index : Nat) (expected : String)
  | tooMany (size : Nat)
  /-- Neither the name of a variant nor an object. -/
  | noVariant (found : Found)
  | severalVariants
  | noAlternative (type : String)
  deriving DecidableEq, Repr

def variantList (known : List String) : String :=
  let quote (s : String) := "`" ++ s ++ "`"
  match known with
  | [a] => quote a
  | [a, b] => quote a ++ " or " ++ quote b
  | known => "one of " ++ ", ".intercalate (known.map quote)

def DecodeError.message : DecodeError → String
  | .fault f => f.message
  | .wrongType found expected => "invalid type: " ++ found.text ++ ", expected " ++ expected
  | .wrongValue found expected => "invalid value: " ++ found.text ++ ", expected " ++ expected
  | .missingField name => "missing field `" ++ name ++ "`"
  | .repeatedField name => "duplicate field `" ++ name ++ "`"
  | .unknownVariant name known =>
    "unknown variant `" ++ name ++ "`, expected " ++ variantList known
  | .tooFew index expected => "invalid length " ++ toString index ++ ", expected " ++ expected
  | .tooMany size =>
    "invalid length " ++ toString size ++ ", expected fewer elements in array"
  | .noVariant found => "invalid type: " ++ found.text ++ ", expected string or map"
  | .severalVariants => "invalid value: map, expected map with a single key"
  | .noAlternative type => "data did not match any variant of untagged enum " ++ type

inductive Category where
  | syntaxFault
  | endOfText
  | data
  | input
  deriving DecidableEq, Repr

def Category.name : Category → String
  | .syntaxFault => "syntax"
  | .endOfText => "eof"
  | .data => "data"
  | .input => "io"

def Fault.category : Fault → Category
  | .incomplete => .endOfText
  | .malformed => .syntaxFault

/-- Why a document can not be taken from where it is read. -/
inductive ReadError where
  | contents (error : DecodeError)
  | rejected (reason : String)
  | unreadableFile
  deriving DecidableEq, Repr

namespace ReadError

/-- The error of a text with a fault. -/
def text (f : Fault) : ReadError := .contents (.fault f)

def category : ReadError → Category
  | .contents (.fault f) => f.category
  | .contents _ | .rejected _ => .data
  | .unreadableFile => .input

def message : ReadError → String
  | .contents e => e.message
  | .rejected reason => withoutPosition reason
  | .unreadableFile => "json io error"

end ReadError

end GraphDispatch.Json
