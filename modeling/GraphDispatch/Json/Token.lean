import GraphDispatch.Decimal.Layout
import GraphDispatch.Decimal.Reading

/-!
# Tokens of JSON texts

Numbers as a document holds them, and the tokens that a text is made of, each
with its text.
-/

namespace GraphDispatch.Json

open Decimal

/-- A number of a document. A whole number that fits into 64 bits is kept
exactly; `single` is a number held in single precision. -/
inductive Number where
  | natural (n : UInt64)
  | negative (n : Int64)
  | double (x : Float)
  | single (x : Float32)
  deriving DecidableEq, Repr

inductive Token where
  | beginArray
  | endArray
  | beginObject
  | endObject
  | comma
  | colon
  | null
  | bool (b : Bool)
  | number (n : Number)
  | string (s : String)
  deriving DecidableEq, Repr

/-- A character of a text, or none for a byte that belongs to no character. -/
abbrev Symbol := Option Char

def Number.doubleLayout : Layout := ⟨-5, 15, true, .even⟩
def Number.singleLayout : Layout := ⟨-6, 12, true, .even⟩

def Number.writeReading (l : Layout) (r : Reading) : String :=
  match r with
  | .notANumber | .infinite _ => "null"
  | r => l.text r

def Number.write : Number → String
  | .natural n => toString n.toNat
  | .negative n => toString n.toInt
  | .double x => writeReading doubleLayout (.ofFloat x)
  | .single x => writeReading singleLayout (.ofFloat32 x)

/-- A whole number of more than 64 bits, and minus zero, is read as a double; none
for a number beyond the range of doubles. -/
def Number.ofLiteral? (l : Literal) : Option Number :=
  let n := numeral l.whole
  if l.isWhole && n < wordLimit then
    if !l.negative then some (.natural (UInt64.ofNat n))
    else if 0 < n && n ≤ signLimit then some (.negative (Int64.ofInt (-n)))
    else some (.double (-(UInt64.ofNat n).toFloat))
  else l.toFloat?.map .double

def hexDigit (n : Nat) : Char :=
  if n < 10 then Char.ofNat ('0'.toNat + n) else Char.ofNat ('a'.toNat + n - 10)

def escape (c : Char) : List Char :=
  match c with
  | '"' => ['\\', '"']
  | '\\' => ['\\', '\\']
  | '\n' => ['\\', 'n']
  | '\r' => ['\\', 'r']
  | '\t' => ['\\', 't']
  | c =>
    if c = Char.ofNat 8 then ['\\', 'b']
    else if c = Char.ofNat 12 then ['\\', 'f']
    else if c.toNat < 32 then
      ['\\', 'u', '0', '0', hexDigit (c.toNat / 16), hexDigit (c.toNat % 16)]
    else [c]

def quote (s : String) : String :=
  String.ofList ('"' :: (s.toList.flatMap escape ++ ['"']))

def Token.text : Token → String
  | .beginArray => "["
  | .endArray => "]"
  | .beginObject => "\x7b"
  | .endObject => "\x7d"
  | .comma => ","
  | .colon => ":"
  | .null => "null"
  | .bool b => if b then "true" else "false"
  | .number n => n.write
  | .string s => quote s

end GraphDispatch.Json
