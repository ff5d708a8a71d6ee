import GraphDispatch.Setting.Basic

/-!
# Simple settings

The few things most users decide, and the full setting that follows from them.
-/

namespace GraphDispatch

structure SimpleSetting where
  platform : Platform
  fineTuningSteps : UInt64 := 5000
  fineTuningRate : Float32 := 3e-4
  interestedOutputs : Option (List String) := none
  calibration : String := "percentile"
  equalizes : Bool := true
  /-- Operations that stay in single precision whatever the strategy proposes. -/
  unquantized : Option (List String) := none
  deriving DecidableEq

namespace SimpleSetting

def fusion (s : SimpleSetting) : Fusion :=
  { convAdd := s.platform = .pplCudaInt4 || s.platform = .pplCudaInt8
    forceOverlap := s.platform = .metaxInt8C || s.platform = .metaxInt8T }

def fineTunes (s : SimpleSetting) : Bool := 0 < s.fineTuningSteps

def fineTuning (s : SimpleSetting) : FineTuning :=
  if s.fineTunes then ⟨s.fineTuningSteps, s.fineTuningRate, 2, s.interestedOutputs.getD []⟩
  else {}

def equalization (s : SimpleSetting) : Equalization := if s.equalizes then ⟨3, 0, 1⟩ else {}

def overrides (s : SimpleSetting) : Overrides :=
  .ofList ((s.unquantized.getD []).map fun op => (op, Platform.fp32.code))

/-- The full setting. -/
def expand (s : SimpleSetting) : Setting where
  overrides := s.overrides
  activation := ⟨some s.calibration⟩
  fusion := s.fusion
  equalizes := s.equalizes
  equalization := s.equalization
  fineTunes := s.fineTunes
  fineTuning := s.fineTuning

end SimpleSetting

end GraphDispatch
