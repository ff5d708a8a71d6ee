/-!
# Rewriting commands

The rewrites that bring a graph into the form that dispatching expects, and the
order in which they run.
-/

namespace GraphDispatch

inductive Command where
  | constants
  | batchNorms
  | sharedParameters
  | casts
  | slices
  | clips
  | isolated
  deriving DecidableEq, Repr

namespace Command

/-- The order in which a graph is formatted. -/
def all : List Command :=
  [constants, batchNorms, sharedParameters, casts, slices, clips, isolated]

@[simp] theorem mem_all (c : Command) : c ∈ all := by cases c <;> decide

/-- The name by which documents request a command. -/
def name : Command → String
  | constants => "FORMAT_CONSTANT_INPUT"
  | batchNorms => "FUSE_BN"
  | sharedParameters => "FORMAT_PARAMETERS"
  | casts => "FORMAT_CAST"
  | slices => "FORMAT_SLICE"
  | clips => "FORMAT_CLIP"
  | isolated => "DELETE_ISOLATED"

/-- The name that messages show. -/
def title : Command → String
  | constants => "FormatConstantInput"
  | batchNorms => "FuseBn"
  | sharedParameters => "FormatParameters"
  | casts => "FormatCast"
  | slices => "FormatSlice"
  | clips => "FormatClip"
  | isolated => "DeleteIsolated"

def named : List (String × Command) := all.map fun c => (c.name, c)

end Command

end GraphDispatch
