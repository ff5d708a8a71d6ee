import GraphDispatch.Graph.Basic

/-!
# Orders of execution

Operations are listed once all that produce their inputs are. An operation
waits for as many others as it counts; it becomes ready when its count reaches
zero, and the operations that are ready are taken in turn.
-/

namespace GraphDispatch

inductive OrderError where
  | cycle (graph : String)
  | danglingConsumer (consumer op : String)
  deriving DecidableEq, Repr

def OrderError.message : OrderError → String
  | .cycle graph => "graph " ++ graph ++ " contains a cycle"
  | .danglingConsumer consumer op => "dangling consumer " ++ consumer ++ " of " ++ op

/-- An order under construction, latest first. -/
structure Sorting where
  /-- How many operations each operation waits for. -/
  pending : NameMap Int
  ready : List String
  order : List String
  deriving DecidableEq

variable {α : Type}

namespace Sorting

def start (g : Graph α) : Sorting :=
  let pending := g.operations.mapEntries fun op _ => ((g.upstream op).length : Int)
  ⟨pending, (pending.entries.filter (·.2 = 0)).map (·.1), []⟩

/-- Tells a consumer of `op` that `op` has been listed. -/
def settle (op : String) (s : Sorting) (consumer : String) : Except OrderError Sorting :=
  match s.pending.get? consumer with
  | none => throw (.danglingConsumer consumer op)
  | some n =>
    let pending := s.pending.insert consumer (n - 1)
    if n - 1 = 0 then return { s with pending, ready := s.ready ++ [consumer] }
    else return { s with pending }

/-- Lists the next operation that is ready, if there is one. -/
def round (g : Graph α) (s : Sorting) : Except OrderError Sorting :=
  match s.ready with
  | [] => return s
  | op :: ready =>
    (g.downstream op).foldlM (settle op) { s with ready, order := op :: s.order }

end Sorting

/-- The operations, producers before their consumers. An operation becomes ready
at most once, so one round for each is enough. -/
def Graph.executionOrder (g : Graph α) : Except OrderError (List String) := do
  let s ← g.operations.names.foldlM (fun s _ => s.round g) (Sorting.start g)
  if s.order.length = g.operations.size then return s.order.reverse
  else throw (.cycle g.name)

/-- `op` produces an input of `next`. -/
def Graph.Feeds (g : Graph α) (op next : String) : Prop := op ∈ g.upstream next

/-- Every operation once, each after all that produce its inputs. -/
structure Graph.ListsInOrder (g : Graph α) (order : List String) : Prop where
  nodup : order.Nodup
  mem_iff : ∀ op, op ∈ order ↔ op ∈ g.operations
  producers_first : ∀ before op after, order = before ++ op :: after →
    ∀ p, g.Feeds p op → p ∈ before

end GraphDispatch
