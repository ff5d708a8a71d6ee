import GraphDispatch.Decimal.Reading

/-!
# Positions at the end of a reason

The reason why a document is refused may quote a name of the document, and the
name may end like a position in a text, ` at line L column C`. Such an end
counts as a position and not as a part of the reason. What stands in front of it
stays, also where that is another position.
-/

namespace GraphDispatch.Json

open Decimal

namespace Position

def lineMark : List Char := " at line ".toList

def columnMark : List Char := " column ".toList

/-- A line or a column: decimal digits whose value is a word. -/
def isNumber (digits : List Char) : Bool :=
  !digits.isEmpty && digits.all Char.isDigit && Nat.ofDigitChars 10 digits 0 < wordLimit

/-- Two numbers that are a line and a column, with nothing behind them. -/
def isNumbers (text : List Char) : Bool :=
  let rest := text.dropWhile Char.isDigit
  isNumber (text.takeWhile Char.isDigit) && columnMark.isPrefixOf rest &&
    isNumber (rest.drop columnMark.length)

def isPosition (text : List Char) : Bool :=
  lineMark.isPrefixOf text && isNumbers (text.drop lineMark.length)

/-- A text without the position that it ends in. A position reaches to the end and
has no other inside, so a text ends in one at most. -/
def strip : List Char → List Char
  | [] => []
  | c :: cs => if isPosition (c :: cs) then [] else c :: strip cs

end Position

/-- A reason without the position that it ends in. -/
def withoutPosition (reason : String) : String :=
  String.ofList (Position.strip reason.toList)

end GraphDispatch.Json
