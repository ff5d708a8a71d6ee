import GraphDispatch.Rewrite.Basic

/-!
# Folding batch normalizations

A batch normalization behind a linear operation is folded into its weight and
bias: with the factor `scale / sqrt (variance + epsilon)` of a channel, weights
are multiplied by the factor and the bias becomes
`bias * factor + (shift - mean * factor) / s`, where `s` is what the operation
multiplies its bias by.
-/

namespace GraphDispatch.Rewrite

variable {α : Type}

/-- The statistics of a batch normalization, one entry for each channel. -/
structure Statistics (α : Type) where
  scale : List α
  shift : List α
  mean : List α
  variance : List α
  deriving DecidableEq

namespace Statistics

def channels (s : Statistics α) : List Nat :=
  [s.scale.length, s.shift.length, s.mean.length, s.variance.length]

variable [Scalar α]

def factors (s : Statistics α) (epsilon : α) : List α :=
  s.scale.zipWith (fun scale variance => scale / Scalar.sqrt (variance + epsilon)) s.variance

def foldChannel (biasScale bias factor shift mean : α) : α :=
  bias * factor + (shift - mean * factor) / biasScale

def foldedBias (s : Statistics α) (biasScale : α) (bias factors : List α) : List α :=
  (bias.zip factors).zipWith (fun b m => foldChannel biasScale b.1 b.2 m.1 m.2)
    (s.shift.zip s.mean)

end Statistics

/-- The rewriting of one batch normalization and the operation in front of it. -/
structure Fusion (α : Type) where
  norm : String
  parent : String
  /-- What the parent produces and the normalization reads. -/
  intermediate : String
  output : String
  weight : String
  bias : Option String
  foldedWeight : Tensor α
  foldedBias : Tensor α
  deriving DecidableEq

inductive FusionPlan (α : Type) where
  | skip
  | statisticsNotParameters
  | statisticsMismatch (channels : Nat) (parent : String)
  | fold (fusion : Fusion α)
  deriving DecidableEq

/-- The value of a parameter. -/
def parameterValue (g : Graph α) (var : String) : Option (Tensor α) := do
  let v ← g.getVariable? var
  guard (v.isParameter && v.producer.isNone)
  v.value

/-- Removes a variable that nothing refers to. -/
def removeOrphan (var : String) : Edit α Unit := do
  let g ← get
  let orphan := (g.getVariable? var).any fun v =>
    v.producer.isNone && v.consumers.isEmpty && !g.inputs.contains var && !g.outputs.contains var
  if orphan then discard (Edit.removeVariable var)

/-- New variables take the folded values: others may still read the old ones. -/
def applyFusion (f : Fusion α) : Edit α Unit := do
  let statistics := (((← get).getOperation? f.norm).map (·.inputs.drop 1)).getD []
  discard (Edit.removeOperation f.norm)
  let weight := (← get).freshName (f.parent ++ ".fused_weight")
  discard (Edit.createVariable weight (some f.foldedWeight))
  Edit.replaceInput f.parent f.weight weight
  let bias := (← get).freshName (f.parent ++ ".fused_bias")
  discard (Edit.createVariable bias (some f.foldedBias))
  match f.bias with
  | some old => Edit.replaceInput f.parent old bias
  | none => Edit.appendInput f.parent bias
  Edit.replaceOutput f.parent f.intermediate f.output
  discard (Edit.removeVariable f.intermediate)
  (statistics ++ f.weight :: f.bias.toList).forM removeOrphan

variable [Scalar α]

/-- The axis of the output channels of a weight and the factor of the bias, for an
operation that normalizations can be folded into. -/
def channelAxis (o : Operation α) : Option (Nat × α) :=
  let int (key : String) (default : Int64) :=
    ((o.attributes.get? key).bind (·.asInt?)).getD default
  match o.type with
  | "Conv" => some (0, 1)
  | "ConvTranspose" => if int "group" 1 = 1 then some (1, 1) else none
  | "Gemm" =>
    let beta := ((o.attributes.get? "beta").bind (·.asFloat?)).getD 1
    -- a zero factor drops the bias altogether
    if Scalar.isZero beta then none else some (if int "transB" 0 = 0 then 1 else 0, beta)
  | _ => none

/-- Whether nothing but the normalization depends on what the parent produces. -/
def isPrivate (g : Graph α) (parent : Operation α) (intermediate : String) : Bool :=
  parent.outputs.length = 1 && (g.consumersOf intermediate).length = 1 &&
    !g.outputs.contains intermediate &&
    (parent.inputs.length = 2 || parent.inputs.length = 3)

def epsilonOf (o : Operation α) : α :=
  ((o.attributes.get? "epsilon").bind (·.asFloat?)).getD Scalar.epsilon

/-- How the normalization `norm` is folded into the operation in front of it. -/
def planFusion (g : Graph α) (norm : String) : Except (RewriteError α) (FusionPlan α) := do
  let some o := g.getOperation? norm | throw (.edit (.unknownOperation norm))
  let ([intermediate, scale, shift, mean, variance], [output]) := (o.inputs, o.outputs)
    | return .skip
  let some parent := g.producer? intermediate | return .skip
  let some (axis, biasScale) := (g.getOperation? parent).bind channelAxis | return .skip
  let some p := g.getOperation? parent | throw (.edit (.unknownOperation parent))
  if !isPrivate g p intermediate then return .skip
  let some [scale, shift, mean, variance] :=
      [scale, shift, mean, variance].mapM fun var => (parameterValue g var).map Tensor.scalars
    | return .statisticsNotParameters
  let statistics : Statistics α := ⟨scale, shift, mean, variance⟩
  let weightName := p.inputs.getD 1 ""
  let some weight := parameterValue g weightName | return .skip
  let some channels := weight.shape[axis]? | return .skip
  if statistics.channels.any (· ≠ channels.toNat) then
    return .statisticsMismatch channels.toNat parent
  let biasName := p.inputs[2]?
  let some bias :=
      match biasName with
      | none => some (List.replicate channels.toNat 0)
      | some var => (parameterValue g var).bind fun b =>
          if b.size = channels.toNat then some b.scalars else none
    | return .skip
  let factors := statistics.factors (epsilonOf o)
  let foldedWeight ← (weight.scaleAlong axis factors).mapError .tensor
  let foldedBias ← (Tensor.ofElements [channels]
    (.floats (statistics.foldedBias biasScale bias factors))).mapError .tensor
  return .fold ⟨norm, parent, intermediate, output, weightName, biasName, foldedWeight, foldedBias⟩

def foldBatchNorm (norm : String) : Rewrite α Bool := do
  match ← Task.ofExcept id (planFusion (← Task.state) norm) with
  | .skip => return false
  | .statisticsNotParameters =>
    Task.note (.statisticsNotParameters norm)
    return false
  | .statisticsMismatch channels parent =>
    Task.note (.statisticsMismatch norm channels parent)
    return false
  | .fold f =>
    Task.note (.folding f.norm f.parent)
    edit (applyFusion f)
    return true

def batchNorms : Rewrite α Nat := countChanges "BatchNormalization" foldBatchNorm

end GraphDispatch.Rewrite
