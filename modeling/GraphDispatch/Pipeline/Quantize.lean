import GraphDispatch.Pipeline.Load

/-!
# Quantizing a graph file

The graph is loaded, formatted and dispatched, and then handed to a backend
that quantizes it. All that can be said without the file is checked before the
file is read.
-/

namespace GraphDispatch.Pipeline

/-- Data that ranges of activations are calibrated with, in batches. -/
structure CalibrationSource where
  batches : UInt64
  deriving DecidableEq, Repr

structure QuantizeRequest where
  platform : Platform
  setting : Setting := {}
  calibration : Option CalibrationSource := none
  steps : UInt64 := 32
  /-- Whether the dispatched graph goes on to the backend. -/
  quantizes : Bool := true

/-- What a backend is told. -/
structure Assignment where
  platform : Platform
  /-- The operation types to quantize. -/
  types : List String
  setting : Setting
  calibration : CalibrationSource
  steps : UInt64

/-- Quantizes a graph, or says why it does not. -/
abbrev Backend (ρ : Type) := Assignment → Task (Graph Float32) String ρ

/-- What the backend is to be told, if it is to be called. -/
def QuantizeRequest.assignment? (r : QuantizeRequest) :
    Except (PipelineError Float32) (Option Assignment) := do
  if !r.platform.isQuantized then throw (.notQuantized r.platform)
  let some types := r.platform.quantizer?
    | throw (.dispatch (.unsupportedPlatform r.platform))
  if !r.quantizes then return none
  let some source := r.calibration | throw (.calibration .noSource)
  if r.steps = 0 then throw (.calibration .noSteps)
  if source.batches = 0 then throw (.calibration .emptySource)
  return some ⟨r.platform, types, r.setting, source, r.steps⟩

variable {ρ : Type}

def callBackend (backend : Backend ρ) (a : Assignment) :
    Task (Graph Float32) (PipelineError Float32) ρ := do
  let report ← Task.wrapError .refused (backend a)
  Task.note (.quantized (← Task.state).name a.platform)
  return report

/-- The graph that comes of a file, and the report of the backend if it was called. -/
def quantize (path : String) (r : QuantizeRequest) (backend : Backend ρ) :
    FileTask (Graph Float32 × Option ρ) := do
  let assignment ← Task.ofExcept id r.assignment?
  let (_, g) ← loadDispatched path r.platform r.setting
  match assignment with
  | none => return (g, none)
  | some a =>
    let (report, g) ← Task.on g (callBackend backend a)
    return (g, some report)

end GraphDispatch.Pipeline
