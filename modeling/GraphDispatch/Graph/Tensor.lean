import GraphDispatch.Graph.Scalar

/-!
# Tensors

Values of parameters and attributes, in row-major order. A tensor taken from a
document may have a shape that does not fit its elements.
-/

namespace GraphDispatch

inductive Elements (α : Type) where
  | floats (values : List α)
  | ints (values : List Int64)
  deriving DecidableEq, BEq, Repr

structure Tensor (α : Type) where
  shape : List UInt64
  elements : Elements α
  deriving DecidableEq, BEq, Repr

/-- Arithmetic on sizes that has no result: not an answer of the program, but its
end. -/
inductive SizeFault where
  /-- A product of dimensions that does not fit a word. -/
  | product
  | quotient
  | remainder
  /-- More elements than any memory holds. -/
  | capacity
  deriving DecidableEq, Repr

def SizeFault.message : SizeFault → String
  | .product => "attempt to multiply with overflow"
  | .quotient => "attempt to divide by zero"
  | .remainder => "attempt to calculate the remainder with a divisor of zero"
  | .capacity => "capacity overflow"

inductive TensorError where
  | shapeMismatch (shape : List UInt64) (size : Nat)
  | axisOutOfRange (axis : Nat) (shape : List UInt64)
  | factorCount (axis : Nat) (shape : List UInt64) (count : Nat)
  | fault (fault : SizeFault)
  deriving DecidableEq, Repr

def shapeText (shape : List UInt64) : String :=
  "[" ++ ", ".intercalate (shape.map fun d => toString d.toNat) ++ "]"

def TensorError.message : TensorError → String
  | .shapeMismatch shape size =>
    "shape " ++ shapeText shape ++ " does not match " ++ toString size ++ " elements"
  | .axisOutOfRange axis shape =>
    "axis " ++ toString axis ++ " out of range for shape " ++ shapeText shape
  | .factorCount axis shape count =>
    "dimension " ++ toString axis ++ " of shape " ++ shapeText shape ++ " does not match " ++
      toString count ++ " factors"
  | .fault f => f.message

variable {α : Type}

def Elements.size : Elements α → Nat
  | .floats values => values.length
  | .ints values => values.length

def product (m n : Nat) : Except TensorError Nat :=
  if m * n < UInt64.size then return m * n else throw (.fault .product)

/-- The product of the dimensions, taken from the first to the last. Each product on
the way has to fit a word, whatever dimensions follow. -/
def elementCount (shape : List UInt64) : Except TensorError Nat :=
  shape.foldlM (fun n d => product n d.toNat) 1

namespace Tensor

def size (t : Tensor α) : Nat := t.elements.size

def isEmpty (t : Tensor α) : Bool := t.size = 0

/-- A tensor whose shape fits its elements. -/
def ofElements (shape : List UInt64) (elements : Elements α) : Except TensorError (Tensor α) := do
  if (← elementCount shape) = elements.size then return ⟨shape, elements⟩
  else throw (.shapeMismatch shape elements.size)

def scalar (x : α) : Tensor α := ⟨[], .floats [x]⟩

def intScalar (n : Int64) : Tensor α := ⟨[], .ints [n]⟩

def vector (xs : List α) : Tensor α := ⟨[UInt64.ofNat xs.length], .floats xs⟩

def intVector (ns : List Int64) : Tensor α := ⟨[UInt64.ofNat ns.length], .ints ns⟩

/-- The limit `2 ^ 61` for a new tensor: an element takes four bytes, and memory has
at most `2 ^ 63`. -/
def capacity : Nat := 2305843009213693952

/-- A new tensor, its elements given by their number. -/
def filled (elements : Nat → List α) (shape : List UInt64) : Except TensorError (Tensor α) := do
  let n ← elementCount shape
  if n < capacity then return ⟨shape, .floats (elements n)⟩
  else throw (.fault .capacity)

variable [Scalar α]

def zeros : List UInt64 → Except TensorError (Tensor α) := filled (List.replicate · 0)

/-- The numbers `1, 2, …, n`. -/
def firstNumbers (n : Nat) : List α :=
  (List.range n).map fun i => Scalar.ofInt (Int64.ofNat (i + 1))

def counting : List UInt64 → Except TensorError (Tensor α) := filled firstNumbers

/-- The elements as scalars, integers converted. -/
def scalars (t : Tensor α) : List α :=
  match t.elements with
  | .floats values => values
  | .ints values => values.map Scalar.ofInt

/-- Multiplies the element at position `i` by the factor of its index on an axis of
`dim` slices, each made of `inner` consecutive elements. -/
def scaleSlices (inner dim : Nat) (factors values : List α) : List α :=
  values.mapIdx fun i x => x * factors.getD (i / inner % dim) 0

/-- Multiplies every slice along `axis` by its factor. -/
def scaleAlong (t : Tensor α) (axis : Nat) (factors : List α) :
    Except TensorError (Tensor α) := do
  let some dim := t.shape[axis]? | throw (.axisOutOfRange axis t.shape)
  if dim.toNat ≠ factors.length then throw (.factorCount axis t.shape factors.length)
  let inner ← elementCount (t.shape.drop (axis + 1))
  if t.scalars ≠ [] then
    if inner = 0 then throw (.fault .quotient)
    if dim = 0 then throw (.fault .remainder)
  ofElements t.shape (.floats (scaleSlices inner dim.toNat factors t.scalars))

end Tensor

end GraphDispatch
