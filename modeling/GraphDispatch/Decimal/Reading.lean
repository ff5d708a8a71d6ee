/-!
# Reading decimal literals

The value of a decimal literal as a double, by the rule of the document
format: the leading digits that fit into 64 bits become the significand, the
power of ten is applied to it in one multiplication or division, and the result
is correctly rounded only where both of these are exact.
-/

namespace GraphDispatch.Decimal

/-- A decimal literal by its parts; the digits are numbers below ten. -/
structure Literal where
  negative : Bool
  whole : List Nat
  fraction : Option (List Nat)
  /-- Whether the exponent is negative, and its digits. -/
  exponent : Option (Bool × List Nat)
  deriving DecidableEq, Repr

def Literal.pushWhole (l : Literal) (d : Nat) : Literal := { l with whole := d :: l.whole }

def Literal.pushFraction (l : Literal) (d : Nat) : Literal :=
  { l with fraction := some (d :: l.fraction.getD []) }

def Literal.pushPower (l : Literal) (d : Nat) : Literal :=
  { l with exponent := some ((l.exponent.map (·.1)).getD false,
      d :: (l.exponent.map (·.2)).getD []) }

/-- The literal whose digit lists were built latest first. -/
def Literal.ordered (l : Literal) : Literal :=
  ⟨l.negative, l.whole.reverse, l.fraction.map List.reverse,
    l.exponent.map fun e => (e.1, e.2.reverse)⟩

/-- Words have 64 bits. -/
def wordLimit : Nat := 18446744073709551616

/-- Half of the words stand for negative numbers. -/
def signLimit : Nat := 9223372036854775808

/-- A significand of 64 bits, and the power of ten it stands for. -/
structure Significand where
  value : Nat
  exponent : Int
  deriving DecidableEq, Repr

/-- Takes digits of the whole part until the first that does not fit; each digit
from there on counts as a power of ten. -/
def Significand.ofWhole (s : Nat) : List Nat → Significand
  | [] => ⟨s, 0⟩
  | d :: ds =>
    if s * 10 + d < wordLimit then ofWhole (s * 10 + d) ds else ⟨s, (d :: ds).length⟩

/-- Takes digits of the fraction until the first that does not fit; the rest is
ignored. -/
def Significand.withFraction (s : Significand) : List Nat → Significand
  | [] => s
  | d :: ds =>
    if s.value * 10 + d < wordLimit then
      withFraction ⟨s.value * 10 + d, s.exponent - 1⟩ ds
    else s

def powerOfTen (n : Nat) : Float := Float.ofScientific 1 false n

/-- Divides by `10 ^ n`, at most `308` powers at a time. -/
def divideByPower (x : Float) (n : Nat) : Float :=
  if n ≤ 308 then x / powerOfTen n
  else if x == 0.0 then x
  else divideByPower (x / powerOfTen 308) (n - 308)
termination_by n

/-- The scaled significand, unless it is beyond the range of a double. -/
def Significand.scaled? (s : Significand) : Option Float :=
  let x := (UInt64.ofNat s.value).toFloat
  if s.exponent < 0 then some (divideByPower x s.exponent.natAbs)
  else if 308 < s.exponent then if s.value = 0 then some x else none
  else
    let y := x * powerOfTen s.exponent.natAbs
    if y.isInf then none else some y

def numeral (ds : List Nat) : Nat := ds.foldl (fun n d => n * 10 + d) 0

def Literal.isWhole (l : Literal) : Bool := l.fraction.isNone && l.exponent.isNone

def Literal.significand (l : Literal) : Significand :=
  let s := (Significand.ofWhole 0 l.whole).withFraction (l.fraction.getD [])
  match l.exponent with
  | none => s
  | some (negative, ds) =>
    ⟨s.value, s.exponent + (if negative then - (numeral ds : Int) else numeral ds)⟩

/-- The literal as a double, unless it is beyond the range of doubles. -/
def Literal.toFloat? (l : Literal) : Option Float :=
  l.significand.scaled?.map fun x => if l.negative then -x else x

end GraphDispatch.Decimal
