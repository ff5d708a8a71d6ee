import GraphDispatch.Json.Value

/-!
# Writing JSON texts

A value is written by way of its tokens, either without any blanks or with
every item and field on a line of its own.
-/

namespace GraphDispatch.Json

namespace Value

mutual
def tokens : Value → List Token
  | .null => [.null]
  | .bool b => [.bool b]
  | .number n => [.number n]
  | .string s => [.string s]
  | .array items => .beginArray :: (itemTokens items ++ [.endArray])
  | .object fields => .beginObject :: (fieldTokens fields ++ [.endObject])

def itemTokens : List Value → List Token
  | [] => []
  | [v] => tokens v
  | v :: rest => tokens v ++ .comma :: itemTokens rest

def fieldTokens : List (String × Value) → List Token
  | [] => []
  | [(k, v)] => .string k :: .colon :: tokens v
  | (k, v) :: rest => .string k :: .colon :: tokens v ++ .comma :: fieldTokens rest
end

end Value

def compactText (ts : List Token) : String := String.join (ts.map Token.text)

def lineBreak (width depth : Nat) : String :=
  String.ofList ('\n' :: List.replicate (width * depth) ' ')

/-- The pieces of the text of the tokens, indented by `width` for each open array
or object; an empty array or object stays on one line. -/
def indentedPieces (width : Nat) : Nat → List Token → List String
  | _, [] => []
  | depth, .beginArray :: .endArray :: rest => "[]" :: indentedPieces width depth rest
  | depth, .beginObject :: .endObject :: rest => "\x7b\x7d" :: indentedPieces width depth rest
  | depth, t :: rest =>
    match t with
    | .beginArray | .beginObject =>
      t.text :: lineBreak width (depth + 1) :: indentedPieces width (depth + 1) rest
    | .endArray | .endObject =>
      lineBreak width (depth - 1) :: t.text :: indentedPieces width (depth - 1) rest
    | .comma => "," :: lineBreak width depth :: indentedPieces width depth rest
    | .colon => ": " :: indentedPieces width depth rest
    | t => t.text :: indentedPieces width depth rest

def indentedText (width : Nat) (ts : List Token) : String :=
  String.join (indentedPieces width 0 ts)

def Value.compact (v : Value) : String := compactText v.tokens
def Value.indented (v : Value) (width : Nat) : String := indentedText width v.tokens

end GraphDispatch.Json
