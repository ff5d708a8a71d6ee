import GraphDispatch.Proofs.Scaling
import GraphDispatch.Proofs.Rewrite.Idle
import GraphDispatch.Rewrite.BatchNorm

/-!
# Where batch normalizations are folded

A `Site` is a normalization behind a linear operation, with what is read of both. A graph that
has it (`Site.In`) folds the normalization there unless the weight cannot be scaled; where it has
none, the normalization stays (`planFusion_spec`). `Planned` says what a plan to fold has found
in the graph.
-/

namespace GraphDispatch.Rewrite

open GraphDispatch.Graph

variable {α : Type} [Scalar α] {g : Graph α}

/-- No switch takes a normalization in. -/
theorem type_of_channelAxis {p : Operation α} {axis : Nat} {biasScale : α}
    (h : channelAxis p = some (axis, biasScale)) :
    p.type ≠ switchType ∧ p.type ≠ "BatchNormalization" := by
  unfold channelAxis at h
  split at h
  case h_4 => cases h
  all_goals
    rename_i type
    rw [type]
    decide

omit [Scalar α] in
theorem isPrivate_iff {p : Operation α} {intermediate : String} :
    isPrivate g p intermediate = true ↔
      p.outputs.length = 1 ∧ (g.consumersOf intermediate).length = 1 ∧
        intermediate ∉ g.outputs ∧ (p.inputs.length = 2 ∨ p.inputs.length = 3) := by
  simp [isPrivate, and_assoc]

omit [Scalar α] in
/-- Data, weight and at most a bias. -/
theorem slots_of_isPrivate {p : Operation α} {intermediate : String}
    (h : isPrivate g p intermediate = true) :
    ∃ data, p.inputs = data :: p.inputs.getD 1 "" :: p.inputs[2]?.toList := by
  obtain ⟨-, -, -, few⟩ := isPrivate_iff.1 h
  rcases few with few | few
  · obtain ⟨a, b, hab⟩ := List.length_eq_two.1 few
    exact ⟨a, by simp [hab]⟩
  · obtain ⟨a, b, c, habc⟩ := List.length_eq_three.1 few
    exact ⟨a, by simp [habc]⟩

/-- The elements of a parameter. -/
def Lists (g : Graph α) (var : String) (xs : List α) : Prop :=
  ∃ t, parameterValue g var = some t ∧ t.scalars = xs

theorem lists_of_map {var : String} {xs : List α}
    (h : (parameterValue g var).map Tensor.scalars = some xs) : Lists g var xs :=
  Option.map_eq_some_iff.1 h

/-- The normalization `o` is folded into `p`, whose weight has its channels on `axis`. -/
structure Planned (g : Graph α) (f : Fusion α) (o p : Operation α) (axis : Nat) (biasScale : α)
    (statistics : Statistics α) (channels : UInt64) (weight : Tensor α) (bias : List α) : Prop where
  norm : g.getOperation? f.norm = some o
  inputs : ∃ scale shift mean variance, o.inputs = [f.intermediate, scale, shift, mean, variance] ∧
    Lists g scale statistics.scale ∧ Lists g shift statistics.shift ∧
    Lists g mean statistics.mean ∧ Lists g variance statistics.variance
  outputs : o.outputs = [f.output]
  made : g.producer? f.intermediate = some f.parent
  parent : g.getOperation? f.parent = some p
  channel : channelAxis p = some (axis, biasScale)
  alone : isPrivate g p f.intermediate = true
  weightName : p.inputs.getD 1 "" = f.weight
  weightValue : parameterValue g f.weight = some weight
  dimension : weight.shape[axis]? = some channels
  fits : ∀ n ∈ statistics.channels, n = channels.toNat
  biasName : p.inputs[2]? = f.bias
  biasValue : f.bias = none ∧ bias = List.replicate channels.toNat 0 ∨
    ∃ var, f.bias = some var ∧ Lists g var bias
  biasLength : bias.length = channels.toNat
  foldedWeight : weight.scaleAlong axis (statistics.factors (epsilonOf o)) = .ok f.foldedWeight
  foldedBias : Tensor.ofElements [channels] (.floats (statistics.foldedBias biasScale bias
    (statistics.factors (epsilonOf o)))) = .ok f.foldedBias

theorem lists_of_mapM {scale shift mean variance : String} {a b c d : List α}
    (h : [scale, shift, mean, variance].mapM
      (fun var => (parameterValue g var).map Tensor.scalars) = some [a, b, c, d]) :
    Lists g scale a ∧ Lists g shift b ∧ Lists g mean c ∧ Lists g variance d := by
  simp only [List.mapM_cons, List.mapM_nil, Option.pure_def, Option.bind_eq_bind,
    Option.bind_eq_some_iff, Option.some.injEq, List.cons.injEq] at h
  obtain ⟨_, ha, _, ⟨_, hb, _, ⟨_, hc, _, ⟨_, hd, _, rfl, rfl⟩, rfl⟩, rfl⟩,
    rfl, rfl, rfl, rfl, -⟩ := h
  exact ⟨lists_of_map ha, lists_of_map hb, lists_of_map hc, lists_of_map hd⟩

theorem bias_of_plan {name : Option String} {channels : Nat} {bias : List α}
    (h : (match name with
      | none => some (List.replicate channels 0)
      | some var => (parameterValue g var).bind fun b =>
        if b.size = channels then some b.scalars else none) = some bias) :
    (name = none ∧ bias = List.replicate channels 0 ∨ ∃ var, name = some var ∧ Lists g var bias) ∧
      bias.length = channels := by
  cases name with
  | none =>
    cases h
    exact ⟨Or.inl ⟨rfl, rfl⟩, List.length_replicate⟩
  | some var =>
    obtain ⟨t, value, fits⟩ := Option.bind_eq_some_iff.1 h
    split at fits
    · cases fits
      exact ⟨Or.inr ⟨var, rfl, t, value, rfl⟩, (Tensor.length_scalars t).trans ‹_›⟩
    · cases fits

/-- Two operations that may become one, with what is read of them and of their parameters. -/
structure Site (α : Type) where
  norm : String
  parent : String
  normalization : Operation α
  linear : Operation α
  intermediate : String
  output : String
  axis : Nat
  biasScale : α
  statistics : Statistics α
  channels : UInt64
  weight : Tensor α
  bias : List α

namespace Site

def weightName (s : Site α) : String := s.linear.inputs.getD 1 ""

def biasName (s : Site α) : Option String := s.linear.inputs[2]?

def factors (s : Site α) : List α := s.statistics.factors (epsilonOf s.normalization)

def foldedBias (s : Site α) : List α := s.statistics.foldedBias s.biasScale s.bias s.factors

/-- The fold at a site. Only the weight can make it fail. -/
def plan (s : Site α) : Except (RewriteError α) (FusionPlan α) := do
  let foldedWeight ← (s.weight.scaleAlong s.axis s.factors).mapError .tensor
  let foldedBias ← (Tensor.ofElements [s.channels] (.floats s.foldedBias)).mapError .tensor
  return .fold ⟨s.norm, s.parent, s.intermediate, s.output, s.weightName, s.biasName, foldedWeight,
    foldedBias⟩

/-- The graph has the site: all that is asked of a fold but that the weight can be scaled. -/
structure In (s : Site α) (g : Graph α) : Prop where
  norm : g.getOperation? s.norm = some s.normalization
  inputs : ∃ scale shift mean variance,
    s.normalization.inputs = [s.intermediate, scale, shift, mean, variance] ∧
    Lists g scale s.statistics.scale ∧ Lists g shift s.statistics.shift ∧
    Lists g mean s.statistics.mean ∧ Lists g variance s.statistics.variance
  outputs : s.normalization.outputs = [s.output]
  made : g.producer? s.intermediate = some s.parent
  parent : g.getOperation? s.parent = some s.linear
  channel : channelAxis s.linear = some (s.axis, s.biasScale)
  alone : isPrivate g s.linear s.intermediate = true
  weightValue : parameterValue g s.weightName = some s.weight
  dimension : s.weight.shape[s.axis]? = some s.channels
  fits : ∀ n ∈ s.statistics.channels, n = s.channels.toNat
  biasValue : s.biasName = none ∧ s.bias = List.replicate s.channels.toNat 0 ∨
    ∃ var, s.biasName = some var ∧ Lists g var s.bias
  biasLength : s.bias.length = s.channels.toNat

end Site

/-- A normalization is folded at its site, or there is none and it is left alone. -/
theorem planFusion_spec {norm : String} {o : Operation α} (ho : g.getOperation? norm = some o) :
    (∃ s : Site α, s.norm = norm ∧ s.In g ∧ planFusion g norm = s.plan) ∨ Stays g norm := by
  unfold Stays planFusion
  rw [ho]
  dsimp only
  split
  case h_2 => exact Or.inr ⟨_, rfl, nofun⟩
  rename_i intermediate scale shift mean variance output slots
  obtain ⟨inputs, outputs⟩ := Prod.mk.inj slots
  cases made : g.producer? intermediate with
  | none => exact Or.inr ⟨_, rfl, nofun⟩
  | some parent =>
    dsimp only
    cases hp : g.getOperation? parent with
    | none => exact Or.inr ⟨_, rfl, nofun⟩
    | some p =>
      rw [Option.bind_some]
      cases channel : channelAxis p with
      | none => exact Or.inr ⟨_, rfl, nofun⟩
      | some c =>
        dsimp only
        split
        · exact Or.inr ⟨_, rfl, nofun⟩
        rename_i shared
        split
        case h_2 => exact Or.inr ⟨_, rfl, nofun⟩
        rename_i scales shifts means variances lists
        split
        case h_2 => exact Or.inr ⟨_, rfl, nofun⟩
        rename_i weight value
        split
        case h_2 => exact Or.inr ⟨_, rfl, nofun⟩
        rename_i channels dimension
        split
        · exact Or.inr ⟨_, rfl, nofun⟩
        rename_i fits
        split
        case h_2 => exact Or.inr ⟨_, rfl, nofun⟩
        rename_i bias values
        obtain ⟨hscale, hshift, hmean, hvariance⟩ := lists_of_mapM lists
        obtain ⟨biasValue, biasLength⟩ := bias_of_plan values
        have every : ∀ n ∈ Statistics.channels ⟨scales, shifts, means, variances⟩,
            n = channels.toNat := by
          intro n hn
          refine Decidable.byContradiction fun other => ?_
          exact fits (List.any_eq_true.2 ⟨n, hn, decide_eq_true other⟩)
        refine Or.inl ⟨⟨norm, parent, o, p, intermediate, output, c.1, c.2,
          ⟨scales, shifts, means, variances⟩, channels, weight, bias⟩, rfl, ?_, rfl⟩
        exact ⟨ho, ⟨scale, shift, mean, variance, inputs, hscale, hshift, hmean, hvariance⟩,
          outputs, made, hp, channel, by simpa using shared, value, dimension, every, biasValue,
          biasLength⟩

theorem Site.In.planFusion_eq {s : Site α} (h : s.In g) : planFusion g s.norm = s.plan := by
  obtain ⟨scale, shift, mean, variance, inputs, ⟨a, ha, hscale⟩, ⟨b, hb, hshift⟩, ⟨c, hc, hmean⟩,
    ⟨d, hd, hvariance⟩⟩ := h.inputs
  have lists : ([scale, shift, mean, variance].mapM
      fun var => (parameterValue g var).map Tensor.scalars) = some [s.statistics.scale,
        s.statistics.shift, s.statistics.mean, s.statistics.variance] := by
    simp [ha, hb, hc, hd, hscale, hshift, hmean, hvariance]
  have fits : ¬s.statistics.channels.any (· ≠ s.channels.toNat) := by
    simpa using h.fits
  unfold planFusion
  rw [h.norm]
  dsimp only
  rw [inputs, h.outputs]
  dsimp only
  rw [h.made]
  dsimp only
  rw [h.parent, Option.bind_some, h.channel]
  dsimp only
  rw [h.alone, lists]
  dsimp only
  rw [show parameterValue g (s.linear.inputs.getD 1 "") = some s.weight from h.weightValue]
  dsimp only
  rw [h.dimension]
  dsimp only
  rw [if_neg fits, Site.plan, Site.foldedBias]
  rcases h.biasValue with ⟨absent, value⟩ | ⟨var, found, t, ht, value⟩
  · rw [show s.linear.inputs[2]? = none from absent, absent, value]
    rfl
  · have size : t.size = s.channels.toNat := by
      rw [← Tensor.length_scalars, value, h.biasLength]
    rw [show s.linear.inputs[2]? = some var from found, found]
    dsimp only
    rw [ht, Option.bind_some, if_pos size, value]
    rfl

namespace Site

variable {s : Site α} {w : Tensor α}

/-- The weight and the bias of the linear operation are one variable. -/
def Shared (s : Site α) : Prop := s.biasName = some s.weightName

/-- The fold with the scaled weight. -/
def fusion (s : Site α) (scaled : Tensor α) : Fusion α :=
  ⟨s.norm, s.parent, s.intermediate, s.output, s.weightName, s.biasName, scaled,
    ⟨[s.channels], .floats s.foldedBias⟩⟩

theorem plan_of_error {e : TensorError}
    (scaled : s.weight.scaleAlong s.axis s.factors = .error e) : s.plan = .error (.tensor e) := by
  unfold plan
  rw [scaled]
  rfl

namespace In

variable (site : s.In g)
include site

theorem length_factors : s.factors.length = s.channels.toNat := by
  have fits := site.fits
  simp only [Statistics.channels, List.mem_cons, List.not_mem_nil, or_false, forall_eq_or_imp,
    forall_eq] at fits
  obtain ⟨scales, -, -, variances⟩ := fits
  rw [factors, Statistics.factors, List.length_zipWith, scales, variances, Nat.min_self]

theorem length_foldedBias : s.foldedBias.length = s.channels.toNat := by
  have fits := site.fits
  simp only [Statistics.channels, List.mem_cons, List.not_mem_nil, or_false, forall_eq_or_imp,
    forall_eq] at fits
  obtain ⟨-, shifts, means, -⟩ := fits
  simp [foldedBias, Statistics.foldedBias, shifts, means, site.biasLength, site.length_factors]

/-- There is a factor for every slice of the weight. -/
theorem dims : s.weight.dims[s.axis]? = some s.factors.length := by
  rw [Tensor.dims, List.getElem?_map, site.dimension, site.length_factors]
  rfl

/-- Nothing but the weight can be in the way of a fold. -/
theorem plan_of_ok (scaled : s.weight.scaleAlong s.axis s.factors = .ok w) :
    s.plan = .ok (.fold (s.fusion w)) := by
  have bias : Tensor.ofElements [s.channels] (.floats s.foldedBias) =
      .ok ⟨[s.channels], .floats s.foldedBias⟩ :=
    Tensor.ofElements_list site.length_foldedBias
  unfold plan
  rw [scaled, bias]
  rfl

theorem not_stays (scaled : s.weight.scaleAlong s.axis s.factors = .ok w) : ¬Stays g s.norm := by
  rintro ⟨plan, planned, keep⟩
  rw [site.planFusion_eq, site.plan_of_ok scaled] at planned
  cases planned
  exact keep _ rfl

/-- The normalization decides what it is folded into. -/
theorem linear_eq {t : Site α} (other : t.In g) (same : t.norm = s.norm) : t.linear = s.linear := by
  have norms := Option.some.inj (other.norm.symm.trans (same ▸ site.norm))
  obtain ⟨_, _, _, _, inputs, -⟩ := site.inputs
  obtain ⟨_, _, _, _, inputs', -⟩ := other.inputs
  have data := (List.cons.inj (inputs'.symm.trans (norms ▸ inputs))).1
  have parents := Option.some.inj (other.made.symm.trans (data ▸ site.made))
  exact Option.some.inj (other.parent.symm.trans (parents ▸ site.parent))

theorem planned (scaled : s.weight.scaleAlong s.axis s.factors = .ok w) :
    Planned g (s.fusion w) s.normalization s.linear s.axis s.biasScale s.statistics s.channels
      s.weight s.bias := by
  refine ⟨site.norm, site.inputs, site.outputs, site.made, site.parent, site.channel, site.alone,
    rfl, site.weightValue, site.dimension, site.fits, rfl, site.biasValue, site.biasLength, scaled,
    Tensor.ofElements_list site.length_foldedBias⟩

end In

end Site

theorem planFusion_eq_fold {norm : String} {f : Fusion α} (h : planFusion g norm = .ok (.fold f)) :
    f.norm = norm ∧ ∃ o p axis biasScale statistics channels weight bias,
      Planned g f o p axis biasScale statistics channels weight bias := by
  cases ho : g.getOperation? norm with
  | none =>
    unfold planFusion at h
    rw [ho] at h
    cases h
  | some o =>
    rcases planFusion_spec ho with ⟨s, rfl, site, plan⟩ | ⟨plan, planned, other⟩
    · rw [plan] at h
      cases scaled : s.weight.scaleAlong s.axis s.factors with
      | error e =>
        rw [Site.plan_of_error scaled] at h
        cases h
      | ok w =>
        rw [site.plan_of_ok scaled] at h
        cases h
        exact ⟨rfl, _, _, _, _, _, _, _, _, site.planned scaled⟩
    · rw [h] at planned
      cases planned
      exact absurd rfl (other f)

end GraphDispatch.Rewrite
