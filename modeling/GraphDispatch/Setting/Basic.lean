import GraphDispatch.Dispatch.Strategy
import GraphDispatch.Dispatch.Table

/-!
# Quantization settings

Everything that dispatching and quantizing a graph can be told, and what holds
where nothing is said.
-/

namespace GraphDispatch

structure Activation where
  /-- How ranges of activations are calibrated; the quantizer decides where nothing is said. -/
  calibration : Option String := none
  deriving DecidableEq, Repr

structure Fusion where
  convRelu : Bool := true
  convAdd : Bool := false
  /-- Inputs and outputs of an aligned operation share their quantization. -/
  forceOverlap : Bool := false
  align : Bool := true
  deriving DecidableEq, Repr

structure Equalization where
  iterations : UInt64 := 10
  threshold : Float32 := 0.5
  level : UInt64 := 1
  deriving DecidableEq, BEq, Repr

structure FineTuning where
  steps : UInt64 := 5000
  rate : Float32 := 1e-3
  limit : Float32 := 2
  /-- The variables that are looked at, the graph outputs where there are none. -/
  interestedOutputs : List String := []
  deriving DecidableEq, BEq, Repr

structure Setting where
  strategy : String := "conservative"
  precedence : Precedence := .shapeOrIndexFirst
  overrides : Overrides := ∅
  activation : Activation := {}
  fusion : Fusion := {}
  equalizes : Bool := false
  equalization : Equalization := {}
  fineTunes : Bool := false
  fineTuning : FineTuning := {}
  deriving DecidableEq

instance : Inhabited Setting := ⟨{}⟩

end GraphDispatch
