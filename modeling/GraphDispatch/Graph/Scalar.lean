/-!
# Element types

The arithmetic that graphs need of the numbers in their tensors. Graphs are
processed in single precision; every rewrite is written for any element type.
-/

namespace GraphDispatch

class Scalar (α : Type) extends Zero α, One α, Add α, Sub α, Mul α, Div α where
  sqrt : α → α
  ofInt : Int64 → α
  isZero : α → Bool
  /-- The least and the greatest finite element, bounds that clip nothing. -/
  lowest : α
  greatest : α
  /-- What keeps a variance away from zero where a graph does not say. -/
  epsilon : α

instance : Scalar Float32 where
  sqrt := Float32.sqrt
  ofInt := Int64.toFloat32
  isZero x := x == 0
  lowest := Float32.ofBits 0xff7fffff
  greatest := Float32.ofBits 0x7f7fffff
  epsilon := 1e-5

end GraphDispatch
