/-!
# Shortest decimals

The shortest decimal that a binary floating point number is the nearest
neighbour of: of all decimal grids, the coarsest one with a point in the
interval of reals that round to the number, and of its points in that interval
the nearest. All comparisons are on natural numbers.
-/

namespace GraphDispatch.Decimal

/-- Which of two equally near decimals is taken. -/
inductive Tie where
  | even
  | up
  deriving DecidableEq, Repr

/-- The number `digits * 10 ^ exponent`. -/
structure Digits where
  digits : Nat
  exponent : Int
  deriving DecidableEq, Repr

/-- The positive number `mantissa * 2 ^ exponent`. It is `narrow` when the next
smaller number of its format is half as far away as the next larger one. -/
structure Binary where
  mantissa : Nat
  exponent : Int
  narrow : Bool
  deriving DecidableEq, Repr

/-- The point of the grid `10 ^ k` that stands for `b`, if the grid has one. -/
def Binary.gridPoint (b : Binary) (tie : Tie) (k : Int) : Option Nat :=
  let up := Nat.pow 2 (b.exponent - 2).toNat * Nat.pow 10 (-k).toNat
  let down := Nat.pow 2 (2 - b.exponent).toNat * Nat.pow 10 k.toNat
  let value := 4 * b.mantissa * up
  let low := value - (if b.narrow then 1 else 2) * up
  let high := value + 2 * up
  let inside (d : Nat) : Bool :=
    if b.mantissa % 2 = 0 then low ≤ d * down && d * down ≤ high
    else low < d * down && d * down < high
  let below := value / down
  let twice := 2 * (value % down)
  let upper := down < twice || twice = down && (tie = .up || below % 2 = 1)
  match inside below, inside (below + 1) with
  | false, false => none
  | true, false => some below
  | false, true => some (below + 1)
  | true, true => some (if upper then below + 1 else below)

/-- A power of ten above the number: `30103 / 100000` is the logarithm of two. -/
def Binary.coarsest (b : Binary) : Int :=
  ((b.mantissa.log2 + b.exponent) * 30103).fdiv 100000 + 2

/-- Seventeen digits always suffice. -/
def Binary.shortest (b : Binary) (tie : Tie) : Digits :=
  ((List.range 20).findSome? fun i : Nat =>
    let k := b.coarsest - i
    (b.gridPoint tie k).map (⟨·, k⟩)).getD ⟨0, 0⟩

/-- What the bits of a floating point number say. -/
inductive Reading where
  | notANumber
  | infinite (negative : Bool)
  | zero (negative : Bool)
  | finite (negative : Bool) (value : Binary)
  deriving DecidableEq, Repr

/-- Splits bits with the given widths of exponent and fraction. -/
def Reading.ofBits (exponentBits fractionBits bits : Nat) : Reading :=
  let fraction := bits % Nat.pow 2 fractionBits
  let biased := bits / Nat.pow 2 fractionBits % Nat.pow 2 exponentBits
  let negative := bits / Nat.pow 2 (fractionBits + exponentBits) % 2 = 1
  let bias : Int := Nat.pow 2 (exponentBits - 1) - 1 + fractionBits
  if biased = Nat.pow 2 exponentBits - 1 then
    if fraction = 0 then .infinite negative else .notANumber
  else if biased = 0 then
    if fraction = 0 then .zero negative else .finite negative ⟨fraction, 1 - bias, false⟩
  else
    .finite negative
      ⟨Nat.pow 2 fractionBits + fraction, biased - bias, fraction = 0 && 1 < biased⟩

def Reading.ofFloat (x : Float) : Reading := .ofBits 11 52 x.toBits.toNat
def Reading.ofFloat32 (x : Float32) : Reading := .ofBits 8 23 x.toBits.toNat

end GraphDispatch.Decimal
