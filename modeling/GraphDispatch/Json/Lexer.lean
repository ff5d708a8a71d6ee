import GraphDispatch.Json.Fault
import GraphDispatch.Json.Token

/-!
# Splitting texts into lexemes

An automaton that reads one symbol at a time. A number ends only at the symbol
after it, so `Mode.finish` closes the last lexeme of a text. Behind a lexeme that
nobody can read to its end there are no others.
-/

namespace GraphDispatch.Json

/-- A token, the beginning of one or one that denotes nothing, or a symbol with
which no token begins. -/
inductive Lexeme where
  | token (t : Token)
  | broken (isString : Bool) (b : Break)
  | stray
  deriving DecidableEq, Repr

namespace Lexer

open Decimal

/-- A part of the contents of a string; a `unit` is half a surrogate pair or a
character given by its code. -/
inductive Piece where
  | char (c : Char)
  | unit (n : Nat)
  | stray
  deriving DecidableEq, Repr

def isLeading (n : Nat) : Bool := 0xD800 ≤ n && n ≤ 0xDBFF
def isTrailing (n : Nat) : Bool := 0xDC00 ≤ n && n ≤ 0xDFFF

def characters : List Piece → Option (List Char)
  | [] => some []
  | .char c :: rest => (characters rest).map (c :: ·)
  | .stray :: _ => none
  | .unit n :: rest =>
    if isTrailing n then none
    else if isLeading n then
      match rest with
      | .unit m :: rest =>
        if isTrailing m then
          (characters rest).map
            (Char.ofNat (0x10000 + (n - 0xD800) * 0x400 + (m - 0xDC00)) :: ·)
        else none
      | _ => none
    else (characters rest).map (Char.ofNat n :: ·)

/-- Whether half a surrogate pair has no counterpart, and more contents can not
bring it. -/
def isUnpaired : List Piece → Bool
  | [] => false
  | .unit n :: rest =>
    if isTrailing n then true
    else if isLeading n then
      match rest with
      | [] => false
      | .unit m :: rest => !isTrailing m || isUnpaired rest
      | _ => true
    else isUnpaired rest
  | _ :: rest => isUnpaired rest

/-- The part of a number that was read last. -/
inductive Stage where
  | sign
  | zero
  | whole
  | point
  | fraction
  | mark
  | markSign
  | power
  deriving DecidableEq, Repr

def Stage.complete : Stage → Bool
  | .zero | .whole | .fraction | .power => true
  | .sign | .point | .mark | .markSign => false

/-- The lists inside are latest first. -/
inductive Mode where
  | blank
  | stopped
  | string (pieces : List Piece)
  | escaped (pieces : List Piece)
  /-- Inside a code of four bytes, `size` of them read. -/
  | code (pieces : List Piece) (size : Nat) (value : Option Nat)
  | word (rest : List Char) (token : Token)
  | number (stage : Stage) (literal : Literal)
  deriving DecidableEq, Repr

def digit? (c : Char) : Option Nat :=
  if '0' ≤ c ∧ c ≤ '9' then some (c.toNat - '0'.toNat) else none

def hexDigit? (c : Char) : Option Nat :=
  if '0' ≤ c ∧ c ≤ '9' then some (c.toNat - '0'.toNat)
  else if 'a' ≤ c ∧ c ≤ 'f' then some (c.toNat - 'a'.toNat + 10)
  else if 'A' ≤ c ∧ c ≤ 'F' then some (c.toNat - 'A'.toNat + 10)
  else none

def isBlank (c : Char) : Bool := c = ' ' || c = '\n' || c = '\t' || c = '\r'

def numberLexeme (l : Literal) : Lexeme :=
  match Number.ofLiteral? l.ordered with
  | some n => .token (.number n)
  | none => .broken false ⟨.malformed, none⟩

def stringLexeme (pieces : List Piece) : Lexeme :=
  match characters pieces.reverse with
  | some cs => .token (.string (String.ofList cs))
  | none => .broken true ⟨.malformed, none⟩

/-- A string of which the text ends, for the fault `f`, behind these pieces. -/
def brokenString (pieces : List Piece) (f : Fault) : Lexeme :=
  .broken true ⟨if isUnpaired pieces.reverse then .malformed else f, some f⟩

/-- The mode after a symbol, and the lexemes that the symbol completes. -/
abbrev Step := Mode × List Lexeme

def start : Symbol → Step
  | none => (.stopped, [.stray])
  | some c =>
    if isBlank c then (.blank, [])
    else match c with
    | '[' => (.blank, [.token .beginArray])
    | ']' => (.blank, [.token .endArray])
    | '{' => (.blank, [.token .beginObject])
    | '}' => (.blank, [.token .endObject])
    | ',' => (.blank, [.token .comma])
    | ':' => (.blank, [.token .colon])
    | '"' => (.string [], [])
    | 't' => (.word ['r', 'u', 'e'] (.bool true), [])
    | 'f' => (.word ['a', 'l', 's', 'e'] (.bool false), [])
    | 'n' => (.word ['u', 'l', 'l'] .null, [])
    | '-' => (.number .sign ⟨true, [], none, none⟩, [])
    | c =>
      match digit? c with
      | some 0 => (.number .zero ⟨false, [0], none, none⟩, [])
      | some d => (.number .whole ⟨false, [d], none, none⟩, [])
      | none => (.stopped, [.stray])

/-- How a number goes on with `c`, or none where it ends before `c`. -/
def continueNumber (stage : Stage) (l : Literal) (c : Char) : Option (Stage × Literal) :=
  let isMark := c = 'e' || c = 'E'
  match stage, digit? c with
  | .sign, some 0 => some (.zero, l.pushWhole 0)
  | .sign, some d => some (.whole, l.pushWhole d)
  | .whole, some d => some (.whole, l.pushWhole d)
  | .zero, none | .whole, none =>
    if c = '.' then some (.point, l) else if isMark then some (.mark, l) else none
  | .point, some d | .fraction, some d => some (.fraction, l.pushFraction d)
  | .fraction, none => if isMark then some (.mark, l) else none
  | .mark, none =>
    if c = '+' then some (.markSign, l)
    else if c = '-' then some (.markSign, { l with exponent := some (true, []) })
    else none
  | .mark, some d | .markSign, some d | .power, some d => some (.power, l.pushPower d)
  | _, _ => none

def stepEscaped (pieces : List Piece) (c : Char) : Option Mode :=
  match c with
  | '"' | '\\' | '/' => some (.string (.char c :: pieces))
  | 'b' => some (.string (.char (Char.ofNat 8) :: pieces))
  | 'f' => some (.string (.char (Char.ofNat 12) :: pieces))
  | 'n' => some (.string (.char '\n' :: pieces))
  | 'r' => some (.string (.char '\r' :: pieces))
  | 't' => some (.string (.char '\t' :: pieces))
  | 'u' => some (.code pieces 0 (some 0))
  | _ => none

def stepCode (pieces : List Piece) (size : Nat) (value : Option Nat) (s : Symbol) : Step :=
  let size := size + (s.map Char.utf8Size).getD 1
  let value := do return (← value) * 16 + (← hexDigit? (← s))
  if size < 4 then (.code pieces size value, [])
  else match value with
    | some n => (.string (.unit n :: pieces), [])
    | none => (.stopped, [brokenString pieces .malformed])

def stepNumber (stage : Stage) (l : Literal) (s : Symbol) : Step :=
  match s.bind (continueNumber stage l) with
  | some (stage, l) => (.number stage l, [])
  | none =>
    if stage = .zero && (s.bind digit?).isSome || !stage.complete then
      (.stopped, [.broken false (.stop .malformed)])
    else
      -- the symbol after a number begins the next lexeme
      let (mode, lexemes) := start s
      (mode, numberLexeme l :: lexemes)

def step : Mode → Symbol → Step
  | .blank, s => start s
  | .stopped, _ => (.stopped, [])
  | .string pieces, none => (.string (.stray :: pieces), [])
  | .string pieces, some c =>
    if c = '"' then (.blank, [stringLexeme pieces])
    else if c = '\\' then (.escaped pieces, [])
    else if c.toNat < 32 then (.stopped, [brokenString pieces .malformed])
    else (.string (.char c :: pieces), [])
  | .escaped pieces, s =>
    match s.bind (stepEscaped pieces) with
    | some mode => (mode, [])
    | none => (.stopped, [brokenString pieces .malformed])
  | .code pieces size value, s => stepCode pieces size value s
  | .word rest token, s =>
    match rest with
    | w :: rest =>
      if s ≠ some w then (.stopped, [.broken false (.stop .malformed)])
      else if rest = [] then (.blank, [.token token])
      else (.word rest token, [])
    | [] => (.stopped, [.broken false (.stop .malformed)])
  | .number stage l, s => stepNumber stage l s

/-- The last lexeme of a text that ends in this mode. Who skips a number takes its
missing digits for a fault of the text, who needs it for the end of the text. -/
def Mode.finish : Mode → List Lexeme
  | .blank | .stopped => []
  | .string pieces | .escaped pieces | .code pieces _ _ => [brokenString pieces .incomplete]
  | .word _ _ => [.broken false (.stop .incomplete)]
  | .number stage l =>
    if stage.complete then [numberLexeme l]
    else [.broken false ⟨.incomplete, some .malformed⟩]

/-- The lexemes of the rest of a text, after those of `done`, which are latest
first. -/
def scan (mode : Mode) (done : List Lexeme) : List Symbol → List Lexeme
  | [] => done.reverse ++ mode.finish
  | s :: rest =>
    let (mode, lexemes) := step mode s
    scan mode (lexemes.reverse ++ done) rest

def lexemes (text : List Symbol) : List Lexeme := scan .blank [] text

end Lexer

end GraphDispatch.Json
