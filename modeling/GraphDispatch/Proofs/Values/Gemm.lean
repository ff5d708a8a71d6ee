import Mathlib.LinearAlgebra.Matrix.Notation
import GraphDispatch.Proofs.Rewrite.Formatted
import GraphDispatch.Proofs.Values.Folding

/-!
# Folding into a matrix product

The bias of a `Gemm` is broadcast to the product, its dimensions aligned at the end. Folding takes
its elements to be one for each column, which they are unless the bias is a column itself
(`planFusion_gemm`): then there is one for each row.
-/

namespace GraphDispatch

section Broadcast

/-- The dimensions can be broadcast to the target, both aligned at the end. -/
def BroadcastsTo (ds target : List Nat) : Prop :=
  ds.length ≤ target.length ∧
    List.Forall₂ (fun d n => d = 1 ∨ d = n) ds (target.drop (target.length - ds.length))

/-- The index from which an element is broadcast. -/
def broadcastIndex (ds index : List Nat) : List Nat :=
  (ds.zip (index.drop (index.length - ds.length))).map fun e => if e.1 = 1 then 0 else e.2

/-- A bias with one element for each column that is not a column itself is broadcast row by row. -/
theorem offset_broadcastIndex {ds : List Nat} {rows columns m n : Nat}
    (broadcasts : BroadcastsTo ds [rows, columns]) (count : ds.prod = columns)
    (row : ds = [columns, 1] → columns = 1) (hn : n < columns) :
    offset ds (broadcastIndex ds [m, n]) = n := by
  obtain ⟨few, aligned⟩ := broadcasts
  match ds with
  | [] =>
    have one : 1 = columns := by simpa using count
    simp only [offset]
    omega
  | [d] =>
    have one : d = columns := by simpa using count
    by_cases single : d = 1 <;> simp [broadcastIndex, offset, single]
    omega
  | [d, e] =>
    have sizes : (d = 1 ∨ d = rows) ∧ (e = 1 ∨ e = columns) := by simpa using aligned
    have product : d * e = columns := by simpa using count
    by_cases column : e = 1
    · -- a column, which has one element only
      subst column
      have single : columns = 1 := row (by rw [← product, Nat.mul_one])
      have only : d = 1 := by rw [← single, ← product, Nat.mul_one]
      simp [broadcastIndex, offset, only]
      omega
    · -- with as many elements as columns, a single row
      have width : e = columns := sizes.2.resolve_left column
      have only : d = 1 := by
        rw [width] at product
        exact Nat.eq_of_mul_eq_mul_right (by omega) (product.trans (Nat.one_mul _).symm)
      simp [broadcastIndex, offset, column, only]
  | d :: e :: f :: ds => simp at few

end Broadcast

variable {K : Type} [RootField K] [DecidableEq K]

namespace Tensor

/-- The element that is broadcast to an index. -/
def broadcast (t : Tensor K) (index : List Nat) : K := t.entry (broadcastIndex t.dims index)

theorem entry_scaleAlong {t t' : Tensor K} {axis c : Nat} {factors : List K} {index : List Nat}
    {m : K} (h : t.scaleAlong axis factors = .ok t') (inside : Inside t.dims index)
    (hc : index[axis]? = some c) (hm : factors[c]? = some m) :
    t'.entry index = t.entry index * m := by
  obtain ⟨-, dim, -, scalars⟩ := scaleAlong_eq_ok h
  have slice := indices_entry (getElem?_indices_offset inside) dim
  rw [hc, Option.some.injEq] at slice
  rw [entry, entry, dims_scaled h, scalars, scaleSlices, List.getD_eq_getElem?_getD,
    List.getD_eq_getElem?_getD, List.getElem?_mapIdx, ← slice]
  cases t.scalars[offset t.dims index]? with
  | none => exact (zero_mul m).symm
  | some x => simp [List.getD_eq_getElem?_getD, hm]

end Tensor

/-- The elements of the bias go to the columns of an `M` by `N` matrix. -/
structure AlongRows (c : Tensor K) (M N : Nat) : Prop where
  size : c.size = c.dims.prod
  broadcasts : BroadcastsTo c.dims [M, N]
  row : c.dims = [N, 1] → N = 1

namespace Operation

variable {M N L : Nat}

/-- The second factor of the product. -/
def factorMatrix (p : Operation K) (w : Tensor K) : Matrix (Fin L) (Fin N) K :=
  .of fun k n => if p.intAttribute "transB" 0 = 0 then w.entry [k, n] else w.entry [n, k]

def biasMatrix (bias : Option (Tensor K)) : Matrix (Fin M) (Fin N) K :=
  .of fun m n => bias.elim 0 fun c => c.broadcast [m, n]

/-- What a `Gemm` computes from the matrix that it reads as data, its weight and its bias. -/
def gemm (p : Operation K) (A : Matrix (Fin M) (Fin L) K) (w : Tensor K)
    (bias : Option (Tensor K)) : Matrix (Fin M) (Fin N) K :=
  .of fun m n => p.floatAttribute "alpha" 1 * ∑ k, A m k * p.factorMatrix w k n +
    p.floatAttribute "beta" 1 * biasMatrix bias m n

theorem biasMatrix_apply {c : Tensor K} (broadcasts : BroadcastsTo c.dims [M, N])
    (count : c.dims.prod = N) (row : c.dims = [N, 1] → N = 1) {m : Fin M} {n : Fin N} {x : K}
    (hx : c.scalars[n.val]? = some x) : biasMatrix (some c) m n = x := by
  change c.scalars.getD (offset c.dims (broadcastIndex c.dims [m, n])) 0 = x
  rw [offset_broadcastIndex broadcasts count row n.isLt, List.getD_eq_getElem?_getD, hx]
  rfl

section Scaling

variable {p : Operation K} {w w' : Tensor K} {axis : Nat} {factors : List K} {n : Fin N} {s : K}
  (h : w.scaleAlong axis factors = .ok w')
  (dims : w.dims = if p.intAttribute "transB" 0 = 0 then [L, N] else [N, L])
  (haxis : axis = if p.intAttribute "transB" 0 = 0 then 1 else 0)
include h dims haxis

theorem factorMatrix_scaleAlong (k : Fin L) (hs : factors[n.val]? = some s) :
    p.factorMatrix w' k n = (p.factorMatrix w k n : K) * s := by
  have inside : ∀ i j : Nat, w.dims = [i, j] → ∀ a b, a < i → b < j → Inside w.dims [a, b] := by
    intro i j hij a b ha hb
    simp [Inside, hij, ha, hb]
  simp only [factorMatrix, Matrix.of_apply]
  by_cases plain : p.intAttribute "transB" 0 = 0
  · rw [if_pos plain] at dims haxis
    rw [if_pos plain, if_pos plain]
    exact Tensor.entry_scaleAlong h (inside L N dims k n k.isLt n.isLt) (by simp [haxis]) hs
  · rw [if_neg plain] at dims haxis
    rw [if_neg plain, if_neg plain]
    exact Tensor.entry_scaleAlong h (inside N L dims n k n.isLt k.isLt) (by simp [haxis]) hs

/-- Scaling the weight scales a column of the product. -/
theorem product_scaleAlong (A : Matrix (Fin M) (Fin L) K) (m : Fin M)
    (hs : factors[n.val]? = some s) :
    ∑ k, A m k * p.factorMatrix w' k n = s * ∑ k, A m k * p.factorMatrix w k n := by
  rw [Finset.mul_sum]
  refine Finset.sum_congr rfl fun k _ => ?_
  rw [factorMatrix_scaleAlong h dims haxis k hs]
  ring

end Scaling

end Operation

/-- The normalization `o` takes `x` in channel `c` to `y`. -/
def Graph.Normalizes (g : Graph K) (o : Operation K) (c : Nat) (x y : K) : Prop :=
  ∃ scale shift mean variance : K, g.HoldsAt o 1 c scale ∧ g.HoldsAt o 2 c shift ∧
    g.HoldsAt o 3 c mean ∧ g.HoldsAt o 4 c variance ∧
    y = scale / RootField.sqrt (variance + o.floatAttribute "epsilon" RootField.epsilon) *
      (x - mean) + shift

section Unique

variable {g : Graph K} {o : Operation K}

theorem Graph.HoldsAt.unique {slot c : Nat} {x y : K} (hx : g.HoldsAt o slot c x)
    (hy : g.HoldsAt o slot c y) : x = y := by
  obtain ⟨t, ⟨var, v, read, hv, value⟩, at_x⟩ := hx
  obtain ⟨u, ⟨var', v', read', hv', value'⟩, at_y⟩ := hy
  cases read.symm.trans read'
  cases hv.symm.trans hv'
  cases value.symm.trans value'
  exact Option.some.inj (at_x.symm.trans at_y)

theorem Graph.Normalizes.unique {c : Nat} {x y z : K} (hy : g.Normalizes o c x y)
    (hz : g.Normalizes o c x z) : y = z := by
  obtain ⟨scale, shift, mean, variance, a, b, d, e, rfl⟩ := hy
  obtain ⟨scale', shift', mean', variance', a', b', d', e', rfl⟩ := hz
  rw [a.unique a', b.unique b', d.unique d', e.unique e']

end Unique

namespace Rewrite

variable {M N L : Nat} {g : Graph K} {f : Fusion K} {o p : Operation K}

theorem channelAxis_gemm {axis : Nat} {s : K} (type : p.type = "Gemm")
    (h : channelAxis p = some (axis, s)) :
    axis = (if p.intAttribute "transB" 0 = 0 then 1 else 0) ∧ s = p.floatAttribute "beta" 1 := by
  cases linear_of_channelAxis h with
  | conv other => exact absurd (type.symm.trans other) (by decide)
  | convTranspose other => exact absurd (type.symm.trans other) (by decide)
  | gemm _ plain => exact ⟨(if_pos plain).symm, rfl⟩
  | gemmTransposed _ transposed => exact ⟨(if_neg transposed).symm, rfl⟩

section Planned

variable {axis : Nat} {s : K} {statistics : Statistics K} {channels : UInt64} {w : Tensor K}
  {bias : List K}

/-- The weight has a column for each channel. -/
theorem channels_of_planned
    (plan : Planned g f o p axis s statistics channels w bias) (type : p.type = "Gemm")
    (dims : w.dims = if p.intAttribute "transB" 0 = 0 then [L, N] else [N, L]) :
    channels.toNat = N := by
  have dim : w.dims[axis]? = some channels.toNat := by
    rw [Tensor.dims, List.getElem?_map, plan.dimension]
    rfl
  rw [dims, (channelAxis_gemm type plan.channel).1] at dim
  split at dim <;> simpa using dim.symm

theorem biasMatrix_of_planned {m : Fin M} {n : Fin N} {b : K}
    (plan : Planned g f o p axis s statistics channels w bias) (columns : channels.toNat = N)
    (rows : ∀ c, f.bias.bind (parameterValue g) = some c → AlongRows c M N)
    (hb : bias[n.val]? = some b) :
    Operation.biasMatrix (f.bias.bind (parameterValue g)) m n = b := by
  rcases plan.biasValue with ⟨absent, rfl⟩ | ⟨var, found, c, value, rfl⟩
  · rw [absent]
    exact (List.eq_of_mem_replicate (List.mem_of_getElem? hb)).symm
  · have present : f.bias.bind (parameterValue g) = some c := by rw [found, Option.bind_some, value]
    have along := rows c present
    have count : c.dims.prod = N := by
      rw [← along.size, ← Tensor.length_scalars, plan.biasLength, columns]
    rw [present]
    exact Operation.biasMatrix_apply along.broadcasts count along.row hb

theorem foldedBias_of_planned {m : Fin M} {n : Fin N} {b : K}
    (plan : Planned g f o p axis s statistics channels w bias) (columns : channels.toNat = N)
    (hb : f.foldedBias.scalars[n.val]? = some b) :
    Operation.biasMatrix (some f.foldedBias) m n = b := by
  have dims : f.foldedBias.dims = [N] := by
    rw [(Tensor.ofElements_eq_ok plan.foldedBias).1, ← columns]
    rfl
  refine Operation.biasMatrix_apply ?_ ?_ ?_ hb
  · simp [dims, BroadcastsTo]
  · simp [dims]
  · simp [dims]

end Planned

/-- The normalization `o` is to be folded into the `Gemm` `p`, which reads a weight for products
with `L` by `N` matrices and perhaps a bias. -/
structure PlansGemm (g : Graph K) (norm : String) (f : Fusion K) (o p : Operation K) (w : Tensor K)
    (bias : Option (Tensor K)) (L N : Nat) : Prop where
  planned : planFusion g norm = .ok (.fold f)
  norm : g.getOperation? norm = some o
  parent : g.getOperation? f.parent = some p
  type : p.type = "Gemm"
  weight : parameterValue g f.weight = some w
  dims : w.dims = if p.intAttribute "transB" 0 = 0 then [L, N] else [N, L]
  bias : f.bias.bind (parameterValue g) = bias

/-- A `Gemm` into which a normalization is folded computes in every row and column what both have
computed, as long as its bias is not a column. -/
theorem planFusion_gemm {norm : String} {w : Tensor K} {bias : Option (Tensor K)}
    (plans : PlansGemm g norm f o p w bias L N) (along : ∀ c, bias = some c → AlongRows c M N)
    (A : Matrix (Fin M) (Fin L) K) (m : Fin M) (n : Fin N) :
    g.Normalizes o n (p.gemm A w bias m n) (p.gemm A f.foldedWeight (some f.foldedBias) m n) := by
  obtain ⟨rfl, o', p', axis, s, statistics, channels, weight, values, plan⟩ :=
    planFusion_eq_fold plans.planned
  cases plans.norm.symm.trans plan.norm
  cases plans.parent.symm.trans plan.parent
  cases plans.weight.symm.trans plan.weightValue
  cases plans.bias
  obtain ⟨haxis, rfl⟩ := channelAxis_gemm plans.type plan.channel
  have nonzero := (linear_of_channelAxis plan.channel).factor_ne
  have columns := channels_of_planned plan plans.type plans.dims
  obtain ⟨scale, shift, mean, variance, b, hscale, hshift, hmean, hvariance, hb, factor, new⟩ :=
    plan.channel_values (Nat.lt_of_lt_of_eq n.isLt columns.symm)
  refine ⟨scale, shift, mean, variance, hscale, hshift, hmean, hvariance, ?_⟩
  rw [Operation.gemm, Operation.gemm, Matrix.of_apply, Matrix.of_apply,
    biasMatrix_of_planned plan columns along hb, foldedBias_of_planned plan columns new,
    Operation.product_scaleAlong plan.foldedWeight plans.dims haxis A m factor]
  exact foldChannel_affine nonzero _ _ _ _ _ _

end Rewrite

theorem planFusion_gemm_scaledGemm : scaledGemm.build = .ok gemmGraph ∧ ∃ f o p w c,
    Rewrite.PlansGemm gemmGraph "bn" f o p w (some c) 3 2 ∧ AlongRows c 2 2 ∧
    gemmGraph.Normalizes o 1 (p.gemm !![1, 0, 2; 0, 1, 1] w (some c) (0 : Fin 2) (1 : Fin 2))
      (p.gemm !![1, 0, 2; 0, 1, 1] f.foldedWeight (some f.foldedBias) (0 : Fin 2) (1 : Fin 2)) := by
  have plans : ∃ f o p w, Rewrite.PlansGemm gemmGraph "bn" f o p w
      (some ⟨[2], .floats [1, 2]⟩) 3 2 :=
    ⟨_, _, _, _, rfl, rfl, rfl, rfl, rfl, rfl, rfl⟩
  have along : AlongRows (⟨[2], .floats [1, 2]⟩ : Tensor ℚ) 2 2 := by
    refine ⟨rfl, ⟨by decide, ?_⟩, by decide⟩
    simp [Tensor.dims]
  obtain ⟨f, o, p, w, plans⟩ := plans
  refine ⟨rfl, f, o, p, w, _, plans, along, Rewrite.planFusion_gemm plans ?_ _ 0 1⟩
  rintro c ⟨⟩
  exact along

/-- A bias with an element for each of two rows. -/
def columnGemm : Document ℚ where
  name := "net"
  inputs := ["x"]
  outputs := ["y"]
  vars := [⟨"x", none, false⟩, ⟨"w", some ⟨[2, 2], .floats [1, 0, 0, 1]⟩, true⟩,
    ⟨"c", some ⟨[2, 1], .floats [0, 1]⟩, true⟩, ⟨"z", none, false⟩,
    ⟨"ones", some ⟨[2], .floats [1, 1]⟩, true⟩, ⟨"zeros", some ⟨[2], .floats [0, 0]⟩, true⟩,
    ⟨"y", none, false⟩]
  operations := [⟨"fc", "Gemm", ∅, ["x", "w", "c"], ["z"], .unspecified⟩,
    ⟨"bn", "BatchNormalization", .ofList [("epsilon", .float 0)],
      ["z", "ones", "zeros", "zeros", "ones"], ["y"], .unspecified⟩]

theorem columnGemm_normalizes {o : Operation ℚ}
    (ho : columnGemm.graph.getOperation? "bn" = some o) :
    columnGemm.graph.Normalizes o 1 0 0 := by
  have reads : ∀ (slot : Nat) (var : String) (t : Tensor ℚ) {x : ℚ}, o.inputs[slot]? = some var →
      Rewrite.parameterValue columnGemm.graph var = some t → t.scalars[1]? = some x →
      columnGemm.graph.HoldsAt o slot 1 x :=
    fun _ _ t _ hvar value hx => ⟨t, Graph.holds_of_parameterValue hvar value, hx⟩
  cases ho
  refine ⟨1, 0, 0, 1, ?_, ?_, ?_, ?_, ?_⟩
  · exact reads 1 "ones" ⟨[2], .floats [1, 1]⟩ rfl rfl rfl
  · exact reads 2 "zeros" ⟨[2], .floats [0, 0]⟩ rfl rfl rfl
  · exact reads 3 "zeros" ⟨[2], .floats [0, 0]⟩ rfl rfl rfl
  · exact reads 4 "ones" ⟨[2], .floats [1, 1]⟩ rfl rfl rfl
  · norm_num

/-- The bias can be broadcast, and it has as many elements as there are columns. The second one
belongs to the second row, but it is folded as that of the second column. -/
theorem planFusion_transposes_column : columnGemm.build = .ok columnGemm.graph ∧ ∃ f o p w c,
    Rewrite.PlansGemm columnGemm.graph "bn" f o p w (some c) 2 2 ∧
    BroadcastsTo c.dims [2, 2] ∧ c.size = 2 ∧
    ¬columnGemm.graph.Normalizes o 1 (p.gemm !![1, 0; 0, 1] w (some c) (0 : Fin 2) (1 : Fin 2))
      (p.gemm !![1, 0; 0, 1] f.foldedWeight (some f.foldedBias) (0 : Fin 2) (1 : Fin 2)) := by
  have values : ∃ f o p w c, Rewrite.PlansGemm columnGemm.graph "bn" f o p w (some c) 2 2 ∧
      c.dims = [2, 1] ∧ c.size = 2 ∧
      p.gemm !![1, 0; 0, 1] w (some c) (0 : Fin 2) (1 : Fin 2) = 0 ∧
      p.gemm !![1, 0; 0, 1] f.foldedWeight (some f.foldedBias) (0 : Fin 2) (1 : Fin 2) = 1 := by
    refine ⟨_, _, _, _, _, ⟨rfl, rfl, rfl, rfl, rfl, rfl, rfl⟩, rfl, rfl, ?_, ?_⟩ <;>
      decide +kernel
  obtain ⟨f, o, p, w, c, plans, dims, size, before, after⟩ := values
  refine ⟨rfl, f, o, p, w, c, plans, ?_, size, fun folded => ?_⟩
  · simp [BroadcastsTo, dims]
  · rw [before, after] at folded
    exact zero_ne_one ((columnGemm_normalizes plans.norm).unique folded)

end GraphDispatch
