import GraphDispatch.Graph.Consistency
import GraphDispatch.Rewrite.BatchNorm
import GraphDispatch.Rewrite.Cast
import GraphDispatch.Rewrite.Clip
import GraphDispatch.Rewrite.Constant
import GraphDispatch.Rewrite.Isolated
import GraphDispatch.Rewrite.SharedParameter
import GraphDispatch.Rewrite.Slice

/-!
# Formatting

All rewrites in a fixed order: a formatted graph has no constant operation, no
shared parameter, canonical casts and slices, and no isolated node. Folding and
completing clips may leave something to a second run.
-/

namespace GraphDispatch

inductive FormatError (α : Type) where
  | processing (command : Command) (cause : RewriteError α)
  | inconsistent (cause : Inconsistency)
  deriving DecidableEq, Repr

abbrev Formatting (α β : Type) := Task (Graph α) (FormatError α) β

variable {α : Type} [Scalar α]

def Command.rewrite : Command → Rewrite α Nat
  | constants => Rewrite.constants
  | batchNorms => Rewrite.batchNorms
  | sharedParameters => Rewrite.sharedParameters
  | casts => Rewrite.casts
  | slices => Rewrite.slices
  | clips => Rewrite.clips
  | isolated => Rewrite.isolated

/-- Runs one command. -/
def process (c : Command) : Formatting α Nat := do
  let n ← Task.wrapError (.processing c) c.rewrite
  Task.note (.rewrote c n (← Task.state).name)
  return n

def format : Formatting α Unit := do
  Command.all.forM fun c => discard (process c)
  Task.ofExcept .inconsistent (← Task.state).check

end GraphDispatch
