import GraphDispatch.Graph.Encoding
import GraphDispatch.Setting.Simple

/-!
# Settings as JSON

Fields that are not there take their default; a simple setting always names its
platform.
-/

namespace GraphDispatch

open Json

namespace Encoding

def precedence (p : Precedence) : Value := .string p.name

def overrides (o : Overrides) : Value := .object (o.entries.map fun e => (e.1, int e.2))

def table (t : DispatchTable) : Value := .object (t.entries.map fun e => (e.1, platform e.2))

def option {α : Type} (encode : α → Value) (a : Option α) : Value := (a.map encode).getD .null

def activation (a : Activation) : Value :=
  .object [("calib_algorithm", option .string a.calibration)]

def fusion (f : Fusion) : Value :=
  .object [("fuse_conv_relu", .bool f.convRelu), ("fuse_conv_add", .bool f.convAdd),
    ("force_alignment_overlap", .bool f.forceOverlap), ("align_quantization", .bool f.align)]

def equalization (e : Equalization) : Value :=
  .object [("iterations", word e.iterations), ("value_threshold", single e.threshold),
    ("opt_level", word e.level)]

def fineTuning (f : FineTuning) : Value :=
  .object [("steps", word f.steps), ("lr", single f.rate), ("limit", single f.limit),
    ("interested_outputs", strings f.interestedOutputs)]

def setting (s : Setting) : Value :=
  .object [("dispatcher", .string s.strategy),
    ("dispatching_precedence", precedence s.precedence),
    ("dispatching_table", overrides s.overrides),
    ("quantize_activation_setting", activation s.activation),
    ("fusion_setting", fusion s.fusion),
    ("equalization", .bool s.equalizes),
    ("equalization_setting", equalization s.equalization),
    ("advanced_optimization", .bool s.fineTunes),
    ("advanced_optimization_setting", fineTuning s.fineTuning)]

/-- The fields of a simple setting, with numbers written by `rate`. -/
def simpleFields (rate : Float32 → Value) (s : SimpleSetting) : List (String × Value) :=
  [("platform", platform s.platform), ("finetune_steps", word s.fineTuningSteps),
    ("finetune_lr", rate s.fineTuningRate),
    ("interested_outputs", option strings s.interestedOutputs),
    ("calibration", .string s.calibration), ("equalization", .bool s.equalizes),
    ("non_quantable_op", option strings s.unquantized)]

def simple (s : SimpleSetting) : Value := .object (simpleFields single s)

def double (x : Float32) : Value := .number (.double (Decimal.widen x))

/-- A simple setting with its fields in the order of their names and its numbers
in double precision. -/
def sortedSimple (s : SimpleSetting) : Value :=
  .object (NameMap.ofList (simpleFields double s)).entries

end Encoding

namespace Decoding

def precedence : Decoder Precedence := Decoder.variant Precedence.named

def overrides : Decoder Overrides := Decoder.map Decoder.int64

def table : Decoder DispatchTable := Decoder.map platform

def activationFields : List (Record.Field Activation) :=
  [.optional "calib_algorithm" (Decoder.option Decoder.string) fun a calibration =>
    { a with calibration }]

def activation : Decoder Activation :=
  Record.decode "ActivationQuantizationSetting" {} activationFields

def fusionFields : List (Record.Field Fusion) :=
  [.optional "fuse_conv_relu" Decoder.bool fun f convRelu => { f with convRelu },
    .optional "fuse_conv_add" Decoder.bool fun f convAdd => { f with convAdd },
    .optional "force_alignment_overlap" Decoder.bool fun f forceOverlap =>
      { f with forceOverlap },
    .optional "align_quantization" Decoder.bool fun f align => { f with align }]

def fusion : Decoder Fusion := Record.decode "FusionSetting" {} fusionFields

def equalizationFields : List (Record.Field Equalization) :=
  [.optional "iterations" Decoder.word fun e iterations => { e with iterations },
    .optional "value_threshold" Decoder.single fun e threshold => { e with threshold },
    .optional "opt_level" Decoder.word fun e level => { e with level }]

def equalization : Decoder Equalization :=
  Record.decode "EqualizationSetting" {} equalizationFields

def fineTuningFields : List (Record.Field FineTuning) :=
  [.optional "steps" Decoder.word fun f steps => { f with steps },
    .optional "lr" Decoder.single fun f rate => { f with rate },
    .optional "limit" Decoder.single fun f limit => { f with limit },
    .optional "interested_outputs" strings fun f interestedOutputs =>
      { f with interestedOutputs }]

def fineTuning : Decoder FineTuning :=
  Record.decode "AdvancedOptimizationSetting" {} fineTuningFields

def settingFields : List (Record.Field Setting) :=
  [.optional "dispatcher" Decoder.string fun s strategy => { s with strategy },
    .optional "dispatching_precedence" precedence fun s precedence => { s with precedence },
    .optional "dispatching_table" overrides fun s overrides => { s with overrides },
    .optional "quantize_activation_setting" activation fun s activation =>
      { s with activation },
    .optional "fusion_setting" fusion fun s fusion => { s with fusion },
    .optional "equalization" Decoder.bool fun s equalizes => { s with equalizes },
    .optional "equalization_setting" equalization fun s equalization =>
      { s with equalization },
    .optional "advanced_optimization" Decoder.bool fun s fineTunes => { s with fineTunes },
    .optional "advanced_optimization_setting" fineTuning fun s fineTuning =>
      { s with fineTuning }]

def setting : Decoder Setting := Record.decode "QuantizationSetting" {} settingFields

/-- One text, or a list of texts. -/
def oneOrMany : Decoder (List String)
  | _, .string s => return [s]
  | m, o => (strings m o).mapError fun _ => .noAlternative "OneOrMany"

def simpleFields : List (Record.Field SimpleSetting) :=
  [.required "platform" platform fun s platform => { s with platform },
    .optional "finetune_steps" Decoder.word fun s fineTuningSteps => { s with fineTuningSteps },
    .optional "finetune_lr" Decoder.single fun s fineTuningRate => { s with fineTuningRate },
    .optional "interested_outputs" (Decoder.option oneOrMany) fun s interestedOutputs =>
      { s with interestedOutputs },
    .optional "calibration" Decoder.string fun s calibration => { s with calibration },
    .optional "equalization" Decoder.bool fun s equalizes => { s with equalizes },
    .optional "non_quantable_op" (Decoder.option oneOrMany) fun s unquantized =>
      { s with unquantized }]

def simple : Decoder SimpleSetting :=
  Record.decode "SimpleQuantizationSetting" { platform := .unspecified } simpleFields

end Decoding

end GraphDispatch
