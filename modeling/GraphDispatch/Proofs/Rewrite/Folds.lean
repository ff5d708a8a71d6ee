import GraphDispatch.Proofs.Documents.Buildable
import GraphDispatch.Proofs.Rewrite.BatchNorms

/-!
# One fold after the other

A fold leaves the sites alone that have another linear operation (`Site.Folds.in_iff`).
`batchNorms_meets` is the rule for what all the folds of a run keep, with `Underway` for what
they always keep.
-/

namespace GraphDispatch.Rewrite

open GraphDispatch.Graph

variable {α : Type} {g g' : Graph α}

/-- Every value of a variable satisfies `Q`. -/
def AllValues (Q : Tensor α → Prop) (g : Graph α) : Prop :=
  ∀ var d t, g.content.declarations.get? var = some d → d.value = some t → Q t

theorem allValues_of_build {Q : Tensor α → Prop} {d : Document α} (built : d.build = .ok g)
    (values : ∀ v ∈ d.vars, ∀ t, v.value = some t → Q t) : AllValues Q g := by
  intro var e t declared value
  obtain ⟨v, hv, rfl⟩ := Document.declared_of_build built declared
  exact values v hv t value

section Parameters

variable {var : String} {value : Tensor α}

theorem parameterValue_eq_some (hg : g.Linked) : parameterValue g var = some value ↔
    (∃ d, g.content.declarations.get? var = some d ∧ d.isParameter = true ∧
      d.value = some value) ∧ ∀ op, ¬g.Produces op var := by
  unfold parameterValue
  rw [get?_declarations]
  cases hv : g.getVariable? var with
  | none => simp
  | some v =>
    have unmade : v.producer = none ↔ ∀ op, ¬g.Produces op var := by
      rw [Option.eq_none_iff_forall_not_mem]
      exact forall_congr' fun op => not_congr (hg.producer_iff hv op)
    simp only [Option.map_some, Option.some.injEq, exists_eq_left', ← unmade]
    by_cases parameter : v.isParameter = true <;> cases producer : v.producer <;>
      simp [Variable.declaration, parameter, producer, guard, failure]

theorem AllValues.parameter {Q : Tensor α → Prop} (values : AllValues Q g) (hg : g.Linked)
    (h : parameterValue g var = some value) : Q value := by
  obtain ⟨⟨d, declared, -, found⟩, -⟩ := (parameterValue_eq_some hg).1 h
  exact values var d value declared found

theorem parameterValue_unmade (hg : g.Linked) (h : parameterValue g var = some value)
    (op : String) : ¬g.Produces op var :=
  ((parameterValue_eq_some hg).1 h).2 op

theorem parameterValue_congr (hg : g.Linked) (hg' : g'.Linked)
    (declared : g'.content.declarations.get? var = g.content.declarations.get? var)
    (made : (∀ op, ¬g'.Produces op var) ↔ ∀ op, ¬g.Produces op var) :
    parameterValue g' var = parameterValue g var := by
  ext value
  rw [parameterValue_eq_some hg, parameterValue_eq_some hg', declared, made]

end Parameters

namespace Site

variable [Scalar α] {s t : Site α}

/-- The parameters that a fold reads. -/
def parameters (s : Site α) : List String := s.normalization.inputs.drop 1 ++ s.linear.inputs.drop 1

namespace In

variable (site : s.In g)
include site

theorem slots : ∃ data, s.linear.inputs = data :: s.weightName :: s.biasName.toList :=
  slots_of_isPrivate site.alone

theorem not_shared_of_nodup (distinct : s.linear.inputs.Nodup) : ¬s.Shared := by
  intro shared
  obtain ⟨data, slots⟩ := site.slots
  rw [slots, show s.biasName = _ from shared] at distinct
  simp at distinct

theorem weightName_mem : s.weightName ∈ s.parameters := by
  obtain ⟨data, slots⟩ := site.slots
  simp [parameters, slots]

theorem biasName_mem {var : String} (h : s.biasName = some var) : var ∈ s.parameters := by
  obtain ⟨data, slots⟩ := site.slots
  simp [parameters, slots, h]

theorem parameter {var : String} (h : var ∈ s.parameters) : ∃ t, parameterValue g var = some t := by
  obtain ⟨data, slots⟩ := site.slots
  obtain ⟨scale, shift, mean, variance, inputs, ⟨a, ha, -⟩, ⟨b, hb, -⟩, ⟨c, hc, -⟩, ⟨d, hd, -⟩⟩ :=
    site.inputs
  simp only [parameters, inputs, slots, List.drop_succ_cons, List.drop_zero, List.cons_append,
    List.nil_append, List.mem_cons, Option.mem_toList] at h
  rcases h with rfl | rfl | rfl | rfl | rfl | found
  · exact ⟨a, ha⟩
  · exact ⟨b, hb⟩
  · exact ⟨c, hc⟩
  · exact ⟨d, hd⟩
  · exact ⟨_, site.weightValue⟩
  · rcases site.biasValue with ⟨absent, -⟩ | ⟨name, present, t, ht, -⟩
    · rw [absent] at found
      cases found
    · rw [present] at found
      cases found
      exact ⟨t, ht⟩

theorem unmade (hg : g.Linked) {var : String} (h : var ∈ s.parameters) (op : String) :
    ¬g.Produces op var := by
  obtain ⟨t, value⟩ := site.parameter h
  exact parameterValue_unmade hg value op

theorem reads_parameter {var : String} (h : var ∈ s.parameters) :
    ∃ n, (n = s.norm ∨ n = s.parent) ∧ g.Reads n var := by
  rcases List.mem_append.1 h with h | h
  · exact ⟨s.norm, Or.inl rfl, _, site.norm, List.mem_of_mem_drop h⟩
  · exact ⟨s.parent, Or.inr rfl, _, site.parent, List.mem_of_mem_drop h⟩

theorem made_intermediate (hg : g.Linked) : g.Produces s.parent s.intermediate :=
  hg.producer?_eq_some.1 site.made

/-- Whether a graph has a site depends on its two operations, on who else depends on what lies
between them, and on their parameters. -/
theorem transfer (hg : g.Linked) (hg' : g'.Linked)
    (norm : g'.getOperation? s.norm = g.getOperation? s.norm)
    (parent : g'.getOperation? s.parent = g.getOperation? s.parent)
    (consumers : g'.consumersOf s.intermediate = g.consumersOf s.intermediate)
    (outputs : g'.outputs = g.outputs)
    (values : ∀ var ∈ s.parameters, parameterValue g' var = parameterValue g var) : s.In g' := by
  have lists : ∀ {var xs}, var ∈ s.parameters → Lists g var xs → Lists g' var xs := by
    rintro var xs hvar ⟨t, value, rfl⟩
    exact ⟨t, (values var hvar).trans value, rfl⟩
  have made : g'.Produces s.parent s.intermediate := by
    obtain ⟨p, hp, hout⟩ := site.made_intermediate hg
    exact ⟨p, parent.trans hp, hout⟩
  constructor
  case norm => exact norm.trans site.norm
  case inputs =>
    obtain ⟨scale, shift, mean, variance, inputs, hscale, hshift, hmean, hvariance⟩ := site.inputs
    refine ⟨scale, shift, mean, variance, inputs, lists ?_ hscale, lists ?_ hshift,
      lists ?_ hmean, lists ?_ hvariance⟩ <;> simp [parameters, inputs]
  case outputs => exact site.outputs
  case made => exact hg'.producer?_eq_some.2 made
  case parent => exact parent.trans site.parent
  case channel => exact site.channel
  case alone =>
    rw [isPrivate_iff, consumers, outputs]
    exact isPrivate_iff.1 site.alone
  case weightValue => exact (values _ site.weightName_mem).trans site.weightValue
  case dimension => exact site.dimension
  case fits => exact site.fits
  case biasValue =>
    rcases site.biasValue with absent | ⟨var, found, value⟩
    · exact Or.inl absent
    · exact Or.inr ⟨var, found, lists (site.biasName_mem found) value⟩
  case biasLength => exact site.biasLength

end In

variable {scaled : Tensor α} {data weight bias : String}

namespace Folds

variable (h : s.Folds g g' scaled data weight bias)
include h

theorem after : g'.Linked := h.fused.linked

theorem getOperation?_eq (n : String) : g'.getOperation? n =
    if n = s.parent then some { s.linear with
      inputs := [(s.fusion scaled).firstSlot data weight bias, weight, bias]
      outputs := [s.output] }
    else if n = s.norm then none else g.getOperation? n := by
  obtain ⟨k, gone, trimmed, content⟩ := h.fused.rest
  rw [trimmed.operations, if_neg List.not_mem_nil, getOperation?,
    show k.operations = _ from congrArg Content.operations content, NameMap.get?_insert,
    NameMap.get?_erase]
  rfl

theorem parent_ne : s.parent ≠ s.norm := h.pair.parent_ne

theorem linear_outputs : s.linear.outputs = [s.intermediate] := h.pair.outputs

theorem reader {n : String} (reads : g.Reads n s.intermediate) : n = s.norm :=
  h.pair.reader n reads

theorem parent_after : g'.getOperation? s.parent = some { s.linear with
    inputs := [(s.fusion scaled).firstSlot data weight bias, weight, bias]
    outputs := [s.output] } := h.fused.parent

theorem norm_gone : g'.getOperation? s.norm = none := by
  rw [h.getOperation?_eq, if_neg h.parent_ne.symm, if_pos rfl]

theorem getOperation?_other {n : String} (parent : n ≠ s.parent) (norm : n ≠ s.norm) :
    g'.getOperation? n = g.getOperation? n := by
  rw [h.getOperation?_eq, if_neg parent, if_neg norm]

theorem outputs_eq : g'.outputs = g.outputs := by
  obtain ⟨-, -, unlisted, -⟩ := isPrivate_iff.1 h.site.alone
  obtain ⟨k, gone, trimmed, content⟩ := h.fused.rest
  rw [trimmed.outputs, show k.outputs = _ from congrArg Content.outputs content]
  exact filter_ne_of_not_mem unlisted

/-- A variable that was there and still is, is declared as before. -/
theorem declarations_get? {var : String} (known : var ∈ g.vars) (kept : var ∈ g'.vars) :
    var ≠ s.intermediate ∧
      g'.content.declarations.get? var = g.content.declarations.get? var := by
  have weight_ne : var ≠ weight := fun same => h.fused.weight_fresh (same ▸ known)
  have bias_ne : var ≠ bias := fun same => h.fused.bias_fresh (same ▸ known)
  obtain ⟨k, gone, trimmed, content⟩ := h.fused.rest
  obtain ⟨there, stays⟩ := trimmed.mem_vars.1 kept
  have hidden : var ≠ (s.fusion scaled).intermediate := by
    rw [← mem_declarations, content, NameMap.mem_erase] at there
    exact there.1
  refine ⟨hidden, ?_⟩
  rw [trimmed.declarations, if_neg stays, content, NameMap.get?_erase, if_neg hidden,
    NameMap.get?_insert, if_neg bias_ne, NameMap.get?_insert, if_neg weight_ne]

/-- The folded values come to the ones that were there. -/
theorem allValues {Q : Tensor α → Prop} (values : AllValues Q g) (hscaled : Q scaled)
    (hbias : Q ⟨[s.channels], .floats s.foldedBias⟩) : AllValues Q g' := by
  intro var d t declared value
  obtain ⟨k, gone, trimmed, content⟩ := h.fused.rest
  rw [trimmed.declarations] at declared
  split at declared
  · cases declared
  · rw [content, NameMap.get?_erase, NameMap.get?_insert, NameMap.get?_insert] at declared
    split at declared
    · cases declared
    · split at declared
      · cases declared
        cases value
        exact hbias
      · split at declared
        · cases declared
          cases value
          exact hscaled
        · exact values var d t declared value

theorem produces_iff {n var : String} (output : var ≠ s.output) (hidden : var ≠ s.intermediate) :
    g'.Produces n var ↔ g.Produces n var := by
  by_cases parent : n = s.parent
  · simp [Produces, h.getOperation?_eq, parent, h.site.parent, h.linear_outputs, output, hidden]
  · by_cases norm : n = s.norm
    · have normalization : s.normalization.outputs = [s.output] := h.site.outputs
      simp [Produces, h.getOperation?_eq, norm, h.site.norm, normalization, output]
    · simp [Produces, h.getOperation?_other parent norm]

theorem output_made : g.Produces s.norm s.output ∧ g'.Produces s.parent s.output := by
  refine ⟨⟨_, h.site.norm, by simp [h.site.outputs]⟩, _, h.parent_after, ?_⟩
  exact List.mem_singleton_self _

theorem parameterValue_eq {var : String} (known : var ∈ g.vars) (kept : var ∈ g'.vars) :
    parameterValue g' var = parameterValue g var := by
  obtain ⟨hidden, declared⟩ := h.declarations_get? known kept
  refine parameterValue_congr h.before h.after declared ?_
  obtain ⟨before, after⟩ := h.output_made
  by_cases output : var = s.output
  · subst output
    exact ⟨fun none => absurd after (none _), fun none => absurd before (none _)⟩
  · exact forall_congr' fun op => not_congr (h.produces_iff output hidden)

/-- No slot comes to name a variable of `g` that is none of the parameters, or loses it. -/
theorem count_parent {var : String} (known : var ∈ g.vars) (other : var ∉ s.parameters) :
    [(s.fusion scaled).firstSlot data weight bias, weight, bias].count var =
      s.linear.inputs.count var := by
  have weight_ne : weight ≠ var := fun same => h.fused.weight_fresh (same ▸ known)
  have bias_ne : bias ≠ var := fun same => h.fused.bias_fresh (same ▸ known)
  have slots : s.linear.inputs = data :: s.weightName :: s.biasName.toList := h.pair.inputs
  have rest : (s.weightName :: s.biasName.toList).count var = 0 := by
    refine List.count_eq_zero.2 fun hvar => other (List.mem_append_right _ ?_)
    rw [slots]
    exact hvar
  have weightName_ne : s.weightName ≠ var := by
    rintro rfl
    exact other h.site.weightName_mem
  have biasName_ne : s.biasName ≠ some var := fun same => other (h.site.biasName_mem same)
  have first : (s.fusion scaled).firstSlot data weight bias = var ↔ data = var := by
    unfold Fusion.firstSlot
    split
    · rename_i same
      exact ⟨fun new => absurd new weight_ne,
        fun old => absurd (same.symm.trans old) weightName_ne⟩
    · split
      · rename_i same
        exact ⟨fun new => absurd new bias_ne, fun old => absurd (old ▸ same) biasName_ne⟩
      · exact Iff.rfl
  rw [slots, List.count_cons (l := s.weightName :: _), rest]
  simp [List.count_cons, weight_ne, bias_ne, first]

/-- Who reads what another operation produces, does so after the fold. -/
theorem consumersOf_eq {n var : String} (made : g.Produces n var) (other : n ≠ s.parent) :
    g'.consumersOf var = g.consumersOf var := by
  have known : var ∈ g.vars := h.before.produces_known made
  have unused : var ∉ s.parameters := fun hvar => h.site.unmade h.before hvar n made
  have unread : s.normalization.inputs.count var = 0 := by
    obtain ⟨scale, shift, mean, variance, inputs, -⟩ := h.site.inputs
    rw [List.count_eq_zero, inputs]
    intro hvar
    rcases List.mem_cons.1 hvar with rfl | statistic
    · exact other (h.before.produces_unique made h.pair.intermediate_made)
    · refine unused (List.mem_append_left _ ?_)
      rw [inputs]
      exact statistic
  apply eq_of_count_eq (h.after.consumersOf_sorted var) (h.before.consumersOf_sorted var)
  intro op
  rw [h.after.count_consumersOf, h.before.count_consumersOf, h.getOperation?_eq]
  by_cases parent : op = s.parent
  · rw [if_pos parent, parent, h.site.parent]
    exact h.count_parent known unused
  · rw [if_neg parent]
    by_cases norm : op = s.norm
    · rw [if_pos norm, norm, h.site.norm, Option.map_some, unread]
      rfl
    · rw [if_neg norm]

/-- A site with other operations is there before the fold and after it, or neither. -/
theorem in_iff (norm : t.norm ≠ s.norm ∧ t.norm ≠ s.parent)
    (parent : t.parent ≠ s.norm ∧ t.parent ≠ s.parent) : t.In g' ↔ t.In g := by
  have sameNorm := h.getOperation?_other norm.2 norm.1
  have sameParent := h.getOperation?_other parent.2 parent.1
  have consumers : g.Produces t.parent t.intermediate →
      g'.consumersOf t.intermediate = g.consumersOf t.intermediate :=
    fun made => h.consumersOf_eq made parent.2
  have look : ∀ n, n = t.norm ∨ n = t.parent → g'.getOperation? n = g.getOperation? n := by
    rintro n (rfl | rfl)
    · exact sameNorm
    · exact sameParent
  constructor
  · intro site
    have made : g.Produces t.parent t.intermediate := by
      obtain ⟨p, hp, hout⟩ := site.made_intermediate h.after
      exact ⟨p, sameParent ▸ hp, hout⟩
    refine site.transfer h.after h.before sameNorm.symm sameParent.symm (consumers made).symm
      h.outputs_eq.symm fun var hvar => ?_
    obtain ⟨n, hn, o, ho, read⟩ := site.reads_parameter hvar
    exact (h.parameterValue_eq (h.before.input_known (look n hn ▸ ho) read)
      (h.after.input_known ho read)).symm
  · intro site
    refine site.transfer h.before h.after sameNorm sameParent
      (consumers (site.made_intermediate h.before)) h.outputs_eq fun var hvar => ?_
    obtain ⟨n, hn, o, ho, read⟩ := site.reads_parameter hvar
    exact h.parameterValue_eq (h.before.input_known ho read)
      (h.after.input_known ((look n hn).trans ho) read)

/-- The type of an operation tells a normalization from what it is folded into. -/
theorem ne_of_types {n : String} {o : Operation α} (ho : g.getOperation? n = some o)
    (type : o.type = "BatchNormalization") : n ≠ s.parent := by
  rintro rfl
  cases h.site.parent.symm.trans ho
  exact (type_of_channelAxis h.site.channel).2 type

variable (type' : t.normalization.type = "BatchNormalization")
include type'

/-- Every other site stays. -/
theorem keeps (type : s.normalization.type = "BatchNormalization") (site : t.In g)
    (other : t.norm ≠ s.norm) : t.In g' := by
  have norm : t.norm ≠ s.parent := h.ne_of_types site.norm type'
  have parent : t.parent ≠ s.norm := by
    intro same
    have both : t.linear = s.normalization :=
      Option.some.inj (site.parent.symm.trans (same ▸ h.site.norm))
    exact (type_of_channelAxis site.channel).2 (both ▸ type)
  have apart : t.parent ≠ s.parent := by
    intro same
    have made := site.made_intermediate h.before
    rw [same] at made
    obtain ⟨p, hp, made⟩ := made
    cases h.site.parent.symm.trans hp
    rw [h.linear_outputs, List.mem_singleton] at made
    obtain ⟨_, _, _, _, inputs, -⟩ := site.inputs
    exact other (h.reader ⟨_, site.norm, by simp [inputs, made]⟩)
  exact (h.in_iff ⟨other, norm⟩ ⟨parent, apart⟩).2 site

/-- A site that was not there reads what has been normalized. -/
theorem stems (site : t.In g') (behind : t.intermediate ≠ s.output) : t.In g := by
  have present : ∀ {n o}, g'.getOperation? n = some o → n ≠ s.norm := by
    rintro n o ho rfl
    rw [h.norm_gone] at ho
    cases ho
  have norm : t.norm ≠ s.parent := by
    intro same
    have both := Option.some.inj (site.norm.symm.trans (same ▸ h.parent_after))
    rw [both] at type'
    exact (type_of_channelAxis h.site.channel).2 type'
  have apart : t.parent ≠ s.parent := by
    intro same
    have made := site.made_intermediate h.after
    rw [same] at made
    obtain ⟨p, hp, made⟩ := made
    cases h.parent_after.symm.trans hp
    exact behind (List.mem_singleton.1 made)
  exact (h.in_iff ⟨present site.norm, norm⟩ ⟨present site.parent, apart⟩).1 site

end Folds

end Site

section Run

variable {h h' : Graph α} {n : String} {l : List String}

/-- A run that has started from `g` is at `h`, with the normalizations in `l` still to come. -/
structure Underway (g : Graph α) (l : List String) (h : Graph α) : Prop where
  linked : h.Linked
  order : ∃ visited, g.operationsOfType "BatchNormalization" = visited ++ l
  norms : ∀ n o, h.getOperation? n = some o → o.type = "BatchNormalization" →
    g.getOperation? n = some o
  waiting : ∀ n ∈ l, ∃ o, h.getOperation? n = some o ∧ o.type = "BatchNormalization"

namespace Underway

theorem start (hg : g.Linked) : Underway g (g.operationsOfType "BatchNormalization") g where
  linked := hg
  order := ⟨[], rfl⟩
  norms _ _ ho _ := ho
  waiting _ hn := hg.mem_operationsOfType.1 hn

/-- The first normalization stays. -/
theorem stay (u : Underway g (n :: l) h) : Underway g l h where
  linked := u.linked
  order := by
    obtain ⟨visited, order⟩ := u.order
    exact ⟨visited ++ [n], by rw [order, List.append_assoc]; rfl⟩
  norms := u.norms
  waiting m hm := u.waiting m (List.mem_cons_of_mem _ hm)

theorem nodup (u : Underway g l h) (hg : g.Linked) : l.Nodup := by
  obtain ⟨visited, order⟩ := u.order
  have all := hg.operationsOfType_nodup "BatchNormalization"
  rw [order] at all
  exact (List.nodup_append.1 all).2.1

/-- What has been visited comes before what has not. -/
theorem lt_of_visited (u : Underway g (n :: l) h) (hg : g.Linked) {m : String} {o : Operation α}
    (ho : h.getOperation? m = some o) (type : o.type = "BatchNormalization")
    (visited : m ∉ n :: l) : m < n := by
  obtain ⟨front, order⟩ := u.order
  have listed := hg.mem_operationsOfType.2 ⟨o, u.norms m o ho type, type⟩
  have ascending := hg.operationsOfType_ascending "BatchNormalization"
  rw [order] at listed ascending
  have before := (List.mem_append.1 listed).resolve_right visited
  exact (List.pairwise_append.1 ascending).2.2 m before n List.mem_cons_self

variable [Scalar α] {s : Site α} {scaled : Tensor α} {data weight bias : String}

theorem type (u : Underway g l h) (waiting : s.norm ∈ l) (site : s.In h) :
    s.normalization.type = "BatchNormalization" := by
  obtain ⟨o, ho, type⟩ := u.waiting s.norm waiting
  cases site.norm.symm.trans ho
  exact type

/-- The first normalization is folded. -/
theorem fold (u : Underway g (s.norm :: l) h) (hg : g.Linked)
    (f : s.Folds h h' scaled data weight bias) : Underway g l h' := by
  constructor
  case linked => exact f.after
  case order => exact u.stay.order
  case norms =>
    intro m o ho type
    rw [f.getOperation?_eq] at ho
    split at ho
    · cases ho
      exact absurd type (type_of_channelAxis f.site.channel).2
    · split at ho
      · cases ho
      · exact u.norms m o ho type
  case waiting =>
    intro m hm
    obtain ⟨o, ho, type⟩ := u.waiting m (List.mem_cons_of_mem _ hm)
    have norm : m ≠ s.norm := fun same => (List.nodup_cons.1 (u.nodup hg)).1 (same ▸ hm)
    exact ⟨o, (f.getOperation?_other (f.ne_of_types ho type) norm).trans ho, type⟩

end Underway

/-- What a run of folds keeps. `I l` holds where the normalizations in `l` are still to come. -/
theorem batchNorms_meets [Scalar α] (hg : g.Linked) (I : List String → Graph α → Prop)
    (E : RewriteError α → Prop) (start : I (g.operationsOfType "BatchNormalization") g)
    (stays : ∀ n l h, Underway g (n :: l) h → I (n :: l) h → Stays h n → I l h)
    (folds : ∀ (s : Site α) l h h' scaled data weight bias, Underway g (s.norm :: l) h →
      I (s.norm :: l) h → s.Folds h h' scaled data weight bias → I l h')
    (fails : ∀ (s : Site α) l h e, Underway g (s.norm :: l) h → I (s.norm :: l) h → s.In h →
      s.Fails e → E e) :
    Task.Meets batchNorms g (fun _ g' => Underway g [] g' ∧ I [] g') E := by
  refine countChanges_meets (fun l h => Underway g l h ∧ I l h) (fun n l h state => ?_)
    ⟨.start hg, start⟩
  obtain ⟨u, holds⟩ := state
  obtain ⟨o, ho, -⟩ := u.waiting n List.mem_cons_self
  refine (foldBatchNorm_meets u.linked ho).mono (fun _ h' step => ?_) fun e failed => ?_
  · rcases step with ⟨stay, rfl⟩ | ⟨s, scaled, data, weight, bias, rfl, f⟩
    · exact ⟨u.stay, stays n l h' u holds stay⟩
    · exact ⟨u.fold hg f, folds s l h h' scaled data weight bias u holds f⟩
  · obtain ⟨s, rfl, site, failed⟩ := failed
    exact fails s l h e u holds site failed

end Run

end GraphDispatch.Rewrite
