/-!
# Reachable names

A search from a queue of names. A name is crossed out of the fresh ones when it
is visited, so each is visited at most once and names that never were fresh are
left alone.
-/

namespace GraphDispatch

/-- The fresh names that can be reached from the queue through fresh names. -/
def reach (next : String → List String) (fresh queue : List String) : List String :=
  match queue with
  | [] => []
  | n :: queue =>
    if n ∈ fresh then n :: reach next (fresh.erase n) (queue ++ next n)
    else reach next fresh queue
termination_by (fresh.length, queue.length)
decreasing_by
  · rename_i h
    have := List.length_pos_of_mem h
    rw [List.length_erase_of_mem h]
    exact Prod.Lex.left _ _ (by omega)
  · exact Prod.Lex.right _ (by simp)

end GraphDispatch
