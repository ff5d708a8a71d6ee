import GraphDispatch.Graph.Basic

/-!
# Fresh names

Names derived from a base by the first number that is free. The search crosses
out each used name it meets, so it ends with the used names at the latest.
-/

namespace GraphDispatch

def numbered (base : String) (k : Nat) : String := base ++ "_" ++ toString k

def firstFree (base : String) (k : Nat) (used : List String) : String :=
  if numbered base k ∈ used then firstFree base (k + 1) (used.erase (numbered base k))
  else numbered base k
termination_by used.length
decreasing_by
  rename_i h
  have := List.length_pos_of_mem h
  rw [List.length_erase_of_mem h]
  omega

variable {α : Type}

def Graph.usedNames (g : Graph α) : List String := g.vars.names ++ g.operations.names

/-- The first `base_k` that names neither a variable nor an operation. -/
def Graph.freshName (g : Graph α) (base : String) : String := firstFree base 0 g.usedNames

end GraphDispatch
