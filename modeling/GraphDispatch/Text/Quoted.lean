/-!
# Quoted texts

The form in which a message quotes a text it was given: quotes, backslashes,
line breaks, tabs and the null character by a short escape, other characters
that have no glyph of their own by their code.
-/

namespace GraphDispatch.Text

def hexDigits (n : Nat) : List Char := Nat.toDigits 16 n

def escapeChar (hidden : Char → Bool) (c : Char) : List Char :=
  match c with
  | '"' => ['\\', '"']
  | '\\' => ['\\', '\\']
  | '\n' => ['\\', 'n']
  | '\r' => ['\\', 'r']
  | '\t' => ['\\', 't']
  | c =>
    if c = Char.ofNat 0 then ['\\', '0']
    else if hidden c then ['\\', 'u', '{'] ++ hexDigits c.toNat ++ ['}']
    else [c]

def quoted (hidden : Char → Bool) (s : String) : String :=
  String.ofList ('"' :: (s.toList.flatMap (escapeChar hidden) ++ ['"']))

end GraphDispatch.Text
