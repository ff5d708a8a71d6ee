import GraphDispatch.Decimal.Shortest

/-!
# Texts of floating point numbers

A layout says which powers of ten are written positionally and how the others
are. A positional number always has a fraction, a scientific one has one only
where it has more than one digit.
-/

namespace GraphDispatch.Decimal

structure Layout where
  /-- Numbers from `10 ^ least` to below `10 ^ (greatest + 1)` are positional. -/
  least : Int
  greatest : Int
  /-- A positive exponent is written with its sign. -/
  plus : Bool
  tie : Tie
  deriving DecidableEq, Repr

def zeros (n : Nat) : List Char := List.replicate n '0'

/-- Digits `ds`, the last of them at `10 ^ k`, without an exponent. -/
def positional (ds : List Char) (k : Int) : List Char :=
  if 0 ≤ k then ds ++ zeros k.toNat ++ ['.', '0']
  else
    let fraction := (-k).toNat
    if fraction < ds.length then
      ds.take (ds.length - fraction) ++ '.' :: ds.drop (ds.length - fraction)
    else ['0', '.'] ++ zeros (fraction - ds.length) ++ ds

def scientific (plus : Bool) (ds : List Char) (e : Int) : List Char :=
  ds.take 1 ++ (if 1 < ds.length then '.' :: ds.drop 1 else []) ++ 'e' ::
    ((if plus && 0 < e then ['+'] else []) ++ (toString e).toList)

def Layout.digits (l : Layout) (d : Digits) : List Char :=
  let ds := (toString d.digits).toList
  let e := d.exponent + ds.length - 1
  if l.least ≤ e && e ≤ l.greatest then positional ds d.exponent else scientific l.plus ds e

def Layout.text (l : Layout) : Reading → String
  | .notANumber => "NaN"
  | .infinite negative => if negative then "-inf" else "inf"
  | .zero negative => if negative then "-0.0" else "0.0"
  | .finite negative b =>
    String.ofList ((if negative then ['-'] else []) ++ l.digits (b.shortest l.tie))

end GraphDispatch.Decimal
