import Mathlib.Algebra.BigOperators.Ring.List
import Mathlib.Algebra.Field.Rat
import Mathlib.Data.Rat.Sqrt
import Mathlib.Tactic.FieldSimp
import Mathlib.Tactic.Ring
import GraphDispatch.Proofs.Rewrite.BatchNorms
import GraphDispatch.Proofs.Tensors

/-!
# Folding keeps the function

Over a field, where nothing is rounded, an operation into which a batch normalization is
folded computes in every channel what the normalization has made of it before
(`foldBatchNorm_folds`).
-/

namespace GraphDispatch

section Slots

variable {α : Type} {g : Graph α} {o : Operation α} {slot : Nat} {var : String} {t : Tensor α}

def Operation.intAttribute (o : Operation α) (key : String) (default : Int64) : Int64 :=
  ((o.attributes.get? key).bind (·.asInt?)).getD default

def Operation.floatAttribute [Scalar α] (o : Operation α) (key : String) (default : α) : α :=
  ((o.attributes.get? key).bind (·.asFloat?)).getD default

namespace Graph

/-- The tensor that an operation reads in an input slot. -/
def Holds (g : Graph α) (o : Operation α) (slot : Nat) (t : Tensor α) : Prop :=
  ∃ var v, o.inputs[slot]? = some var ∧ g.getVariable? var = some v ∧ v.value = some t

/-- Element `c` of the tensor in an input slot. -/
def HoldsAt [Scalar α] (g : Graph α) (o : Operation α) (slot c : Nat) (x : α) : Prop :=
  ∃ t, g.Holds o slot t ∧ t.scalars[c]? = some x

theorem holds_of_parameterValue (hvar : o.inputs[slot]? = some var)
    (value : Rewrite.parameterValue g var = some t) : g.Holds o slot t := by
  unfold Rewrite.parameterValue at value
  obtain ⟨v, hv, found⟩ := Option.bind_eq_some_iff.1 value
  obtain ⟨-, -, found⟩ := Option.bind_eq_some_iff.1 found
  exact ⟨var, v, hvar, hv, found⟩

theorem holds_of_declared (hvar : o.inputs[slot]? = some var)
    (declared : g.content.declarations.get? var = some ⟨var, some t, true⟩) :
    g.Holds o slot t := by
  obtain ⟨v, hv, same⟩ := declared_iff.1 declared
  exact ⟨var, v, hvar, hv, congrArg Declaration.value same⟩

end Graph

end Slots

/-- A field as element type. The root is any function: no law ties it to the product. -/
class RootField (K : Type) extends Field K where
  sqrt : K → K
  lowest : K
  greatest : K
  epsilon : K

instance {K : Type} [RootField K] [DecidableEq K] : Scalar K where
  sqrt := RootField.sqrt
  ofInt n := (n.toInt : K)
  isZero x := x = 0
  lowest := RootField.lowest
  greatest := RootField.greatest
  epsilon := RootField.epsilon

variable {K : Type} [RootField K] [DecidableEq K]

namespace Tensor

/-- The product with `x`, summed over the elements whose index on `axis` is `c`. -/
def sliceDot (t : Tensor K) (axis c : Nat) (x : List Nat → K) : K :=
  ((t.cells.filter fun e => e.1[axis]? = some c).map fun e => e.2 * x e.1).sum

theorem cells_scaleAlong {t t' : Tensor K} {axis : Nat} {factors : List K}
    (h : t.scaleAlong axis factors = .ok t') :
    t'.cells = t.cells.map fun e => (e.1, e.2 * factors.getD (e.1.getD axis 0) 0) := by
  obtain ⟨-, dim, -, scalars⟩ := scaleAlong_eq_ok h
  apply List.ext_getElem?
  intro k
  rw [cells, cells, dims_scaled h, scalars, scaleSlices, List.getElem?_map, List.zip_eq_zipWith,
    List.zip_eq_zipWith, List.getElem?_zipWith, List.getElem?_zipWith, List.getElem?_mapIdx]
  cases place : (indices t.dims)[k]? with
  | none => rfl
  | some index =>
    have entry := indices_entry place dim
    cases t.scalars[k]? with
    | none => rfl
    | some y => simp [List.getD_eq_getElem?_getD, entry]

theorem sliceDot_scaleAlong {t t' : Tensor K} {axis c : Nat} {factors : List K} {m : K}
    (h : t.scaleAlong axis factors = .ok t') (hm : factors[c]? = some m) (x : List Nat → K) :
    t'.sliceDot axis c x = m * t.sliceDot axis c x := by
  rw [sliceDot, cells_scaleAlong h, List.filter_map, List.map_map, sliceDot,
    ← List.sum_map_mul_left]
  congr 1
  apply List.map_congr_left
  intro e he
  have entry : e.1[axis]? = some c := by simpa using (List.mem_filter.1 he).2
  have factor : factors.getD (e.1.getD axis 0) 0 = m := by
    simp [List.getD_eq_getElem?_getD, entry, hm]
  change e.2 * factors.getD (e.1.getD axis 0) 0 * x e.1 = m * (e.2 * x e.1)
  rw [factor]
  ring

end Tensor

namespace Operation

/-- An operation that multiplies its data by a weight, with the output channels of the weight
on the given axis, and adds its bias times the given factor. -/
inductive Linear (o : Operation K) : Nat → K → Prop where
  | conv : o.type = "Conv" → Linear o 0 1
  | convTranspose : o.type = "ConvTranspose" → o.intAttribute "group" 1 = 1 → Linear o 1 1
  | gemm : o.type = "Gemm" → o.intAttribute "transB" 0 = 0 → o.floatAttribute "beta" 1 ≠ 0 →
    Linear o 1 (o.floatAttribute "beta" 1)
  | gemmTransposed : o.type = "Gemm" → o.intAttribute "transB" 0 ≠ 0 →
    o.floatAttribute "beta" 1 ≠ 0 → Linear o 0 (o.floatAttribute "beta" 1)

theorem Linear.factor_ne {o : Operation K} {axis : Nat} {s : K} (h : o.Linear axis s) : s ≠ 0 := by
  cases h with
  | conv _ => exact one_ne_zero
  | convTranspose _ _ => exact one_ne_zero
  | gemm _ _ nonzero => exact nonzero
  | gemmTransposed _ _ nonzero => exact nonzero

end Operation

namespace Rewrite

theorem linear_of_channelAxis {o : Operation K} {axis : Nat} {s : K}
    (h : channelAxis o = some (axis, s)) : o.Linear axis s := by
  unfold channelAxis at h
  dsimp only at h
  split at h
  · cases h
    exact .conv ‹_›
  · split at h
    · cases h
      exact .convTranspose ‹_› ‹_›
    · cases h
  · split at h
    · cases h
    · rename_i type nonzero
      have nonzero : o.floatAttribute "beta" 1 ≠ 0 := fun zero => nonzero (decide_eq_true zero)
      cases h
      split
      · exact .gemm type ‹_› nonzero
      · exact .gemmTransposed type ‹_› nonzero
  · cases h

section Channels

variable {g g' : Graph K} {f : Fusion K} {o p p' : Operation K} {axis : Nat} {s : K}
  {statistics : Statistics K} {channels : UInt64} {weight : Tensor K} {bias : List K}

/-- Channel `c` of `p` in `g`, normalized by `o`, is channel `c` of `p'` in `g'`: for every row `x`
that meets the slice of the weight, and every factor `a` of their product. -/
def SameChannel (g g' : Graph K) (o p p' : Operation K) (axis : Nat) (s : K) (w w' : Tensor K)
    (c : Nat) : Prop :=
  ∃ scale shift mean variance b b' : K,
    g.HoldsAt o 1 c scale ∧ g.HoldsAt o 2 c shift ∧ g.HoldsAt o 3 c mean ∧
    g.HoldsAt o 4 c variance ∧ (g.HoldsAt p 2 c b ∨ p.inputs.length = 2 ∧ b = 0) ∧
    g'.HoldsAt p' 2 c b' ∧
    ∀ (a : K) (x : List Nat → K), a * w'.sliceDot axis c x + s * b' =
      scale / RootField.sqrt (variance + o.floatAttribute "epsilon" RootField.epsilon) *
        (a * w.sliceDot axis c x + s * b - mean) + shift

/-- In place of `p` and the normalization `o` behind it, `g'` has `p'` with a new weight and
a new bias, which computes the same. -/
structure Folded (g g' : Graph K) (o p p' : Operation K) : Prop where
  type : p'.type = p.type
  attributes : p'.attributes = p.attributes
  inputs : ∃ data weight bias, p.inputs[0]? = some data ∧ p'.inputs = [data, weight, bias] ∧
    weight ∉ g.vars ∧ bias ∉ g.vars ∧ weight ≠ bias
  outputs : p'.outputs = o.outputs
  channels : ∃ axis s w w' channels, p.Linear axis s ∧ g.Holds p 1 w ∧ g'.Holds p' 1 w' ∧
    w'.dims = w.dims ∧ w.dims[axis]? = some channels ∧
    ∀ c < channels, SameChannel g g' o p p' axis s w w' c

theorem holdsAt_of_lists {var : String} {slot c : Nat} {xs : List K}
    (hvar : o.inputs[slot]? = some var) (lists : Lists g var xs) (inside : c < xs.length) :
    g.HoldsAt o slot c xs[c] := by
  obtain ⟨t, value, rfl⟩ := lists
  exact ⟨t, Graph.holds_of_parameterValue hvar value, List.getElem?_eq_getElem inside⟩

theorem foldChannel_affine (hs : s ≠ 0) (a b m shift mean u : K) :
    a * (m * u) + s * Statistics.foldChannel s b m shift mean =
      m * (a * u + s * b - mean) + shift := by
  change a * (m * u) + s * (b * m + (shift - mean * m) / s) = _
  field_simp
  ring

/-- What the fold reads for a channel and puts there. -/
theorem Planned.channel_values {c : Nat}
    (plan : Planned g f o p axis s statistics channels weight bias) (inside : c < channels.toNat) :
    ∃ scale shift mean variance b : K,
      g.HoldsAt o 1 c scale ∧ g.HoldsAt o 2 c shift ∧ g.HoldsAt o 3 c mean ∧
      g.HoldsAt o 4 c variance ∧ bias[c]? = some b ∧
      (statistics.factors (epsilonOf o))[c]? =
        some (scale / RootField.sqrt (variance + o.floatAttribute "epsilon" RootField.epsilon)) ∧
      f.foldedBias.scalars[c]? = some (Statistics.foldChannel s b
        (scale / RootField.sqrt (variance + o.floatAttribute "epsilon" RootField.epsilon))
        shift mean) := by
  obtain ⟨_, _, _, _, slots, hscale, hshift, hmean, hvariance⟩ := plan.inputs
  have fits := plan.fits
  simp only [Statistics.channels, List.mem_cons, List.not_mem_nil, or_false, forall_eq_or_imp,
    forall_eq] at fits
  obtain ⟨scales, shifts, means, variances⟩ := fits
  have in_scale : c < statistics.scale.length := scales ▸ inside
  have in_shift : c < statistics.shift.length := shifts ▸ inside
  have in_mean : c < statistics.mean.length := means ▸ inside
  have in_variance : c < statistics.variance.length := variances ▸ inside
  have in_bias : c < bias.length := plan.biasLength ▸ inside
  have factor : (statistics.factors (epsilonOf o))[c]? = some (statistics.scale[c] /
      RootField.sqrt (statistics.variance[c] + o.floatAttribute "epsilon" RootField.epsilon)) := by
    rw [Statistics.factors, List.getElem?_zipWith, List.getElem?_eq_getElem in_scale,
      List.getElem?_eq_getElem in_variance]
    rfl
  refine ⟨statistics.scale[c], statistics.shift[c], statistics.mean[c], statistics.variance[c],
    bias[c], holdsAt_of_lists (by simp [slots]) hscale in_scale,
    holdsAt_of_lists (by simp [slots]) hshift in_shift,
    holdsAt_of_lists (by simp [slots]) hmean in_mean,
    holdsAt_of_lists (by simp [slots]) hvariance in_variance, List.getElem?_eq_getElem in_bias,
    factor, ?_⟩
  rw [(Tensor.ofElements_eq_ok plan.foldedBias).1]
  change (Statistics.foldedBias _ _ _ _)[c]? = _
  rw [Statistics.foldedBias, List.getElem?_zipWith, List.zip_eq_zipWith, List.zip_eq_zipWith,
    List.getElem?_zipWith, List.getElem?_zipWith, factor, List.getElem?_eq_getElem in_bias,
    List.getElem?_eq_getElem in_shift, List.getElem?_eq_getElem in_mean]

theorem sameChannel_of_planned {c : Nat}
    (plan : Planned g f o p axis s statistics channels weight bias) (hs : s ≠ 0)
    (folded : g'.Holds p' 2 f.foldedBias) (inside : c < channels.toNat) :
    SameChannel g g' o p p' axis s weight f.foldedWeight c := by
  obtain ⟨scale, shift, mean, variance, b, hscale, hshift, hmean, hvariance, hb, factor, new⟩ :=
    plan.channel_values inside
  have old : g.HoldsAt p 2 c b ∨ p.inputs.length = 2 ∧ b = 0 := by
    rcases plan.biasValue with ⟨absent, rfl⟩ | ⟨var, found, t, value, rfl⟩
    · have short : p.inputs.length ≤ 2 := by
        rw [← List.getElem?_eq_none_iff, plan.biasName, absent]
      obtain ⟨-, -, -, few⟩ := isPrivate_iff.1 plan.alone
      exact Or.inr ⟨by omega, List.eq_of_mem_replicate (List.mem_of_getElem? hb)⟩
    · exact Or.inl ⟨t, Graph.holds_of_parameterValue (plan.biasName.trans found) value, hb⟩
  refine ⟨scale, shift, mean, variance, b, _, hscale, hshift, hmean, hvariance, old,
    ⟨f.foldedBias, folded, new⟩, fun a x => ?_⟩
  rw [Tensor.sliceDot_scaleAlong plan.foldedWeight factor]
  exact foldChannel_affine hs a _ _ _ _ _

end Channels

/-- A batch normalization that is folded into an operation with different inputs leaves an
operation behind that computes, in each channel, what both have computed. -/
theorem foldBatchNorm_folds {g : Graph K} (hg : g.Linked) {norm : String} {f : Fusion K}
    (planned : planFusion g norm = .ok (.fold f))
    (distinct : ∀ p, g.getOperation? f.parent = some p → p.inputs.Nodup) :
    Task.Leads (foldBatchNorm norm) g fun folded g' => folded = true ∧
      ∃ o p p', g.getOperation? norm = some o ∧ g.getOperation? f.parent = some p ∧
        g'.getOperation? f.parent = some p' ∧ Folded g g' o p p' := by
  obtain ⟨rfl, o, p, axis, s, statistics, channels, weight, bias, plan⟩ :=
    planFusion_eq_fold planned
  have folds := foldBatchNorm_leads hg planned plan (distinct p plan.parent)
  refine folds.mono fun folded g' done => ?_
  obtain ⟨changed, data, newWeight, newBias, pair, fused⟩ := done
  have known : f.intermediate ∈ g.vars := hg.produces_known pair.intermediate_made
  have linear := linear_of_channelAxis plan.channel
  have dimension : weight.dims[axis]? = some channels.toNat := by
    rw [Tensor.dims, List.getElem?_map, plan.dimension]
    rfl
  refine ⟨changed, o, p, _, plan.norm, plan.parent, fused.parent, rfl, rfl, ?_, ?_, ?_⟩
  · exact ⟨data, newWeight, newBias, by rw [pair.inputs]; rfl, rfl, fused.weight_fresh,
      fused.bias_fresh, fused.distinct⟩
  · exact plan.outputs.symm
  · have old : g.Holds p 1 weight :=
      Graph.holds_of_parameterValue (by rw [pair.inputs]; rfl) plan.weightValue
    refine ⟨axis, s, weight, f.foldedWeight, channels.toNat, linear, old,
      Graph.holds_of_declared rfl (fused.weight_declared known),
      Tensor.dims_scaled plan.foldedWeight, dimension, fun c inside => ?_⟩
    apply sameChannel_of_planned plan linear.factor_ne _ inside
    exact Graph.holds_of_declared rfl (fused.bias_declared known)

end Rewrite

instance : RootField ℚ where
  sqrt := Rat.sqrt
  lowest := -1
  greatest := 1
  epsilon := 1 / 100000

def scaledGemm : Document ℚ where
  name := "net"
  inputs := ["x"]
  outputs := ["y"]
  vars := [⟨"x", none, false⟩, ⟨"w", some ⟨[3, 2], .floats [1, 2, 3, 4, 5, 6]⟩, false⟩,
    ⟨"b", some ⟨[2], .floats [1, 2]⟩, false⟩, ⟨"z", none, false⟩,
    ⟨"scale", some ⟨[2], .floats [2, 1]⟩, false⟩, ⟨"shift", some ⟨[2], .floats [1, -1]⟩, false⟩,
    ⟨"mean", some ⟨[2], .floats [1, 0]⟩, false⟩, ⟨"variance", some ⟨[2], .floats [3, 0]⟩, false⟩,
    ⟨"y", none, false⟩]
  operations := [⟨"fc", "Gemm", .ofList [("beta", .float 2)], ["x", "w", "b"], ["z"], .unspecified⟩,
    ⟨"bn", "BatchNormalization", .ofList [("epsilon", .float 1)],
      ["z", "scale", "shift", "mean", "variance"], ["y"], .unspecified⟩]

def gemmGraph : Graph ℚ :=
  match scaledGemm.build with
  | .ok g => g
  | .error _ => .empty ""

theorem foldBatchNorm_folds_gemm : scaledGemm.build = .ok gemmGraph ∧ ∃ f,
    Rewrite.planFusion gemmGraph "bn" = .ok (.fold f) ∧
    Task.Leads (Rewrite.foldBatchNorm "bn") gemmGraph fun folded g' => folded = true ∧
      ∃ o p p', gemmGraph.getOperation? "bn" = some o ∧ gemmGraph.getOperation? f.parent = some p ∧
        g'.getOperation? f.parent = some p' ∧ Rewrite.Folded gemmGraph g' o p p' := by
  have built : scaledGemm.build = .ok gemmGraph := rfl
  refine ⟨built, _, rfl, ?_⟩
  refine Rewrite.foldBatchNorm_folds (Graph.linked_of_build built) rfl fun p hp => ?_
  cases hp
  decide

end GraphDispatch
