import GraphDispatch.Text.Case

/-!
# Dispatching strategies

How the platform of an operation is proposed, and which kind of operation comes
first where one is both a shape computation and quantizable.
-/

namespace GraphDispatch

inductive Strategy where
  | conservative
  | aggressive
  | pointwise
  deriving DecidableEq, Repr, Inhabited

namespace Strategy

def all : List Strategy := [conservative, aggressive, pointwise]

def name : Strategy → String
  | conservative => "conservative"
  | aggressive => "aggressive"
  | pointwise => "pointwise"

/-- A strategy by its name in letters of any case. -/
def parse? (s : String) : Option Strategy := all.find? (·.name = Text.lower s)

end Strategy

inductive Precedence where
  | shapeOrIndexFirst
  | quantizationFirst
  deriving DecidableEq, Repr, Inhabited

namespace Precedence

def name : Precedence → String
  | shapeOrIndexFirst => "shape_or_index_first"
  | quantizationFirst => "quantization_first"

def named : List (String × Precedence) :=
  [shapeOrIndexFirst, quantizationFirst].map fun p => (p.name, p)

end Precedence

end GraphDispatch
