/-!
# Single and double precision

Every number in single precision is one in double precision; the other way a
number is rounded to the nearest, of two equally near ones to the even one.
-/

namespace GraphDispatch.Decimal

open Float.Model

def narrow (x : Float) : Float32 :=
  .ofModel <| .pack <| match x.toModel.unpack with
    | .finite sign mantissa exponent _ => .round .binary32 sign mantissa exponent
    | u => u

def widen (x : Float32) : Float :=
  .ofModel <| .pack <| match x.toModel.unpack with
    | .finite sign mantissa exponent _ => .round .binary64 sign mantissa exponent
    | u => u

end GraphDispatch.Decimal
