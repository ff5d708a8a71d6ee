/-!
# Faults of JSON texts

A text is read from its beginning, and reading ends at the first fault. What is
a fault depends on the reader: a number beyond all bounds or half a surrogate
pair does not trouble one that only passes over it.
-/

namespace GraphDispatch.Json

/-- Where reading a text ends: `incomplete` at its end, `malformed` before. -/
inductive Fault where
  | incomplete
  | malformed
  deriving DecidableEq, Repr

def Fault.message : Fault → String
  | .incomplete => "json eof error"
  | .malformed => "json syntax error"

/-- A place that denotes no value: the fault that a reader meets who needs the
value, and the one of a reader who skips it, or none if the text goes on. -/
structure Break where
  needed : Fault
  skipped : Option Fault
  deriving DecidableEq, Repr

/-- The break at a place where nobody can read on. -/
def Break.stop (f : Fault) : Break := ⟨f, some f⟩

end GraphDispatch.Json
