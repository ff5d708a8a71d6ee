import GraphDispatch.Proofs.Outcomes
import GraphDispatch.Proofs.Rewrite.Isolated
import GraphDispatch.Proofs.Rewrite.Sites
import GraphDispatch.Proofs.FreshName
import Mathlib.Data.List.Basic

/-!
# Batch normalizations are folded

`Fused` says what a fold makes of the graph. It comes through unless the parent has one variable
as weight and as bias, in which case it stops half-way (`applyFusion_stops`).
-/

namespace GraphDispatch.Rewrite

open GraphDispatch.Graph

variable {α : Type} {g g' : Graph α}

section Orphans

theorem removeOrphan_runs (hg : g.Linked) (var : String) :
    ∃ g' gone, removeOrphan var g = .ok () g' ∧ Trimmed g g' [] gone := by
  cases hv : g.getVariable? var with
  | none => exact ⟨g, [], by simp only [removeOrphan, run_bind, run_get, hv]; rfl, .refl hg⟩
  | some v =>
    by_cases orphan : (v.producer.isNone && v.consumers.isEmpty && !g.inputs.contains var &&
        !g.outputs.contains var) = true
    · have parts := orphan
      simp only [Bool.and_eq_true, Option.isNone_iff_eq_none, List.isEmpty_iff, Bool.not_eq_true',
        List.contains_eq_mem, decide_eq_false_iff_not] at parts
      obtain ⟨⟨unlinked, input⟩, output⟩ := parts
      obtain ⟨w, g', run, linked, content⟩ := Edit.removeVariable_yields hg
        (mem_vars_iff.2 ⟨v, hv⟩) ((Edit.unlinked_iff hg hv).2 unlinked)
      refine ⟨g', [var], ?_, trimmed_of_erase linked ⟨input, output⟩ content⟩
      simp only [removeOrphan, run_bind, run_get, hv, Option.any_some, orphan, if_true]
      exact discard_of_ok run
    · refine ⟨g, [], ?_, .refl hg⟩
      simp only [removeOrphan, run_bind, run_get, hv, Option.any_some, orphan]
      rfl

theorem removeOrphans_runs (hg : g.Linked) (vars : List String) :
    ∃ g' gone, vars.forM removeOrphan g = .ok () g' ∧ Trimmed g g' [] gone := by
  induction vars generalizing g with
  | nil => exact ⟨g, [], rfl, .refl hg⟩
  | cons var vars ih =>
    obtain ⟨h, gone, first, trimmed⟩ := removeOrphan_runs hg var
    obtain ⟨g', gone', rest, trimmed'⟩ := ih trimmed.linked
    exact ⟨g', gone ++ gone', (forM_cons_of_ok first).trans rest, trimmed.trans trimmed'⟩

end Orphans

section Fold

variable {h h' : Graph α} {f : Fusion α} {o p q : Operation α} {data weight bias : String}
  {declarations : NameMap (Declaration α)}

/-- What the parent reads in its first slot after the fold. Slots follow the names in them, so
this one goes along where it names the weight or the bias. -/
def Fusion.firstSlot (f : Fusion α) (data weight bias : String) : String :=
  if data = f.weight then weight else if f.bias = some data then bias else data

/-- The normalization `o` reads what `p` produces, and nothing else does. -/
structure Pair (g : Graph α) (f : Fusion α) (o p : Operation α) (data : String) : Prop where
  norm : g.getOperation? f.norm = some o
  parent : g.getOperation? f.parent = some p
  parent_ne : f.parent ≠ f.norm
  normOutputs : o.outputs = [f.output]
  inputs : p.inputs = data :: f.weight :: f.bias.toList
  outputs : p.outputs = [f.intermediate]
  reader : ∀ n, g.Reads n f.intermediate → n = f.norm

namespace Pair

variable (pair : Pair g f o p data)
include pair

theorem made : g.Produces f.norm f.output := ⟨o, pair.norm, by simp [pair.normOutputs]⟩

theorem intermediate_made : g.Produces f.parent f.intermediate :=
  ⟨p, pair.parent, by simp [pair.outputs]⟩

theorem output_ne (hg : g.Linked) : f.output ≠ f.intermediate := by
  intro same
  exact pair.parent_ne (hg.produces_unique pair.intermediate_made (same ▸ pair.made))

theorem redirect (apart : f.bias ≠ some f.weight) (weight : String) :
    p.redirect f.weight weight = { p with
      inputs := (if data = f.weight then weight else data) :: weight :: f.bias.toList } := by
  have others : f.bias.toList.map (fun var => if var = f.weight then weight else var) =
      f.bias.toList := by
    refine (List.map_congr_left fun var hvar => if_neg ?_).trans (List.map_id _)
    rintro rfl
    exact apart (Option.mem_toList.1 hvar)
  simp only [Operation.redirect, pair.inputs, List.map_cons, if_true, others]

theorem bias_known (hg : g.Linked) {var : String} (h : f.bias = some var) : var ∈ g.vars :=
  hg.input_known pair.parent (by simp [pair.inputs, h])

theorem apart_of_nodup (distinct : p.inputs.Nodup) : f.bias ≠ some f.weight := by
  intro shared
  rw [pair.inputs, shared] at distinct
  simp at distinct

theorem firstSlot_of_nodup (distinct : p.inputs.Nodup) : f.firstSlot data weight bias = data := by
  rw [pair.inputs] at distinct
  simp only [List.nodup_cons, List.mem_cons, not_or, Option.mem_toList] at distinct
  obtain ⟨⟨weight_ne, bias_ne⟩, -⟩ := distinct
  rw [Fusion.firstSlot, if_neg weight_ne, if_neg bias_ne]

end Pair

/-- In the place of the normalization and of its parent `h` has `q`. -/
structure Revised (g h : Graph α) (f : Fusion α) (q : Operation α)
    (declarations : NameMap (Declaration α)) : Prop where
  linked : h.Linked
  content : h.content = { g.content with
    operations := (g.operations.erase f.norm).insert f.parent q
    declarations := declarations }

namespace Revised

variable (r : Revised g h f q declarations)
include r

theorem operations : h.operations = (g.operations.erase f.norm).insert f.parent q :=
  congrArg Content.operations r.content

theorem getOperation?_eq (n : String) : h.getOperation? n =
    if n = f.parent then some q else if n = f.norm then none else g.getOperation? n := by
  rw [getOperation?, r.operations, NameMap.get?_insert, NameMap.get?_erase]
  rfl

theorem parent : h.getOperation? f.parent = some q := by
  rw [r.getOperation?_eq, if_pos rfl]

theorem mem_vars {var : String} : var ∈ h.vars ↔ var ∈ declarations := by
  rw [← mem_declarations, r.content]

theorem reads_cases {n var : String} (reads : h.Reads n var) :
    n = f.parent ∧ var ∈ q.inputs ∨ n ≠ f.norm ∧ g.Reads n var := by
  obtain ⟨o', ho', hvar⟩ := reads
  rw [r.getOperation?_eq] at ho'
  split at ho'
  · cases ho'
    exact Or.inl ⟨‹_›, hvar⟩
  · split at ho'
    · cases ho'
    · exact Or.inr ⟨‹_›, o', ho', hvar⟩

theorem produces_cases {n var : String} (produces : h.Produces n var) :
    n = f.parent ∧ var ∈ q.outputs ∨ n ≠ f.parent ∧ n ≠ f.norm ∧ g.Produces n var := by
  obtain ⟨o', ho', hvar⟩ := produces
  rw [r.getOperation?_eq] at ho'
  split at ho'
  · cases ho'
    exact Or.inl ⟨‹_›, hvar⟩
  · split at ho'
    · cases ho'
    · exact Or.inr ⟨‹_›, ‹_›, o', ho', hvar⟩

theorem declare {var : String} (value : Tensor α) (fresh : var ∉ h.vars) :
    ∃ h', discard (Edit.createVariable var (some value)) h = .ok () h' ∧
      Revised g h' f q (declarations.insert var ⟨var, some value, true⟩) := by
  have created : Edit.Yields (Edit.createVariable var (some value)) h _ _ :=
    Edit.createVariable_yields r.linked fresh
  obtain ⟨h', run, linked, content⟩ := created
  refine ⟨h', discard_of_ok run, linked, ?_⟩
  rw [content, r.content]
  rfl

theorem update {m : Edit α Unit} {k : Operation α → Operation α} (yields : Edit.Yields m h ()
    { h.content with operations := h.operations.modify f.parent k }) :
    ∃ h', m h = .ok () h' ∧ Revised g h' f (k q) declarations := by
  obtain ⟨h', run, linked, content⟩ := yields
  refine ⟨h', run, linked, ?_⟩
  rw [content, r.operations, NameMap.modify_insert, r.content]

theorem setBias_runs (slots : q.inputs = data :: weight :: f.bias.toList)
    (apart : f.bias ≠ some weight) (known : bias ∈ h.vars) :
    ∃ h', setBias f bias h = .ok () h' ∧ Revised g h' f { q with
      inputs := [if f.bias = some data then bias else data, weight, bias] } declarations := by
  unfold setBias
  cases hbias : f.bias with
  | none =>
    obtain ⟨h', run, r'⟩ := r.update
      (Edit.appendInput_yields r.linked (mem_operations_iff.2 ⟨q, r.parent⟩) known)
    refine ⟨h', run, ?_⟩
    simpa [slots, hbias] using r'
  | some old =>
    rw [hbias, Option.toList_some] at slots
    have reads : h.Reads f.parent old := ⟨q, r.parent, by simp [slots]⟩
    obtain ⟨h', run, r'⟩ := r.update (Edit.replaceInput_yields r.linked reads known)
    refine ⟨h', run, ?_⟩
    have weight_ne : weight ≠ old := fun same => apart (hbias.trans (congrArg some same.symm))
    simpa [Operation.redirect, slots, weight_ne, eq_comm] using r'

theorem unmade (hg : g.Linked) (pair : Pair g f o p data) (slots : q.outputs = [f.intermediate])
    (n : String) : ¬h.Produces n f.output := by
  intro produces
  rcases r.produces_cases produces with ⟨-, made⟩ | ⟨-, other, made⟩
  · rw [slots, List.mem_singleton] at made
    exact pair.output_ne hg made
  · exact other (hg.produces_unique made pair.made)

theorem unlinked (hg : g.Linked) (pair : Pair g f o p data) (inputs : f.intermediate ∉ q.inputs)
    (outputs : q.outputs = [f.output]) : Edit.Unlinked h f.intermediate := by
  intro n
  constructor
  · intro reads
    rcases r.reads_cases reads with ⟨-, read⟩ | ⟨other, read⟩
    · exact inputs read
    · exact other (pair.reader n read)
  · intro produces
    rcases r.produces_cases produces with ⟨-, made⟩ | ⟨other, -, made⟩
    · rw [outputs, List.mem_singleton] at made
      exact pair.output_ne hg made.symm
    · exact other (hg.produces_unique made pair.intermediate_made)

end Revised

/-- In `g'` the parent has the folded weight and bias in its slots and produces what the
normalization produced in `g`. -/
structure Fused (g g' : Graph α) (f : Fusion α) (p : Operation α) (data weight bias : String) :
    Prop where
  weight_fresh : weight ∉ g.vars
  bias_fresh : bias ∉ g.vars
  distinct : weight ≠ bias
  rest : ∃ h gone, Trimmed h g' [] gone ∧ h.content = { g.content with
    operations := (g.operations.erase f.norm).insert f.parent
      { p with inputs := [data, weight, bias], outputs := [f.output] }
    declarations := ((g.content.declarations.insert weight
      ⟨weight, some f.foldedWeight, true⟩).insert bias ⟨bias, some f.foldedBias, true⟩).erase
        f.intermediate
    inputs := g.inputs.filter (· ≠ f.intermediate)
    outputs := g.outputs.filter (· ≠ f.intermediate) }

/-- What is left of a fold once its variables are there. -/
def settle (f : Fusion α) (statistics : List String) (bias : String) : Edit α Unit := do
  setBias f bias
  Edit.replaceOutput f.parent f.intermediate f.output
  dropFolded f statistics

/-- A fold up to the new bias, which the parent does not read yet. -/
theorem applyFusion_prepares (hg : g.Linked) (pair : Pair g f o p data) :
    ∃ h statistics weight bias, weight ∉ g.vars ∧ bias ∉ g.vars ∧ weight ≠ bias ∧
      Revised g h f (p.redirect f.weight weight) ((g.content.declarations.insert weight
        ⟨weight, some f.foldedWeight, true⟩).insert bias ⟨bias, some f.foldedBias, true⟩) ∧
      applyFusion f g = settle f statistics bias h := by
  obtain ⟨h₁, run₁, linked₁, content₁⟩ := Edit.removeOperation_yields hg pair.norm
  have kept : (g.operations.erase f.norm).get? f.parent = some p := by
    rw [NameMap.get?_erase, if_neg pair.parent_ne]
    exact pair.parent
  have r₁ : Revised g h₁ f p g.content.declarations :=
    ⟨linked₁, by rw [content₁, NameMap.insert_eq_self kept]⟩
  -- the weight
  let weight := h₁.freshName (f.parent ++ ".fused_weight")
  have new_weight : weight ∉ h₁.vars := (h₁.freshName_not_mem _).1
  have weight_fresh : weight ∉ g.vars := by
    rw [← mem_declarations, ← r₁.mem_vars]
    exact new_weight
  obtain ⟨h₂, run₂, r₂⟩ := r₁.declare f.foldedWeight new_weight
  have weight_read : h₂.Reads f.parent f.weight := ⟨p, r₂.parent, by simp [pair.inputs]⟩
  obtain ⟨h₃, run₃, r₃⟩ := r₂.update (Edit.replaceInput_yields r₂.linked weight_read
    (r₂.mem_vars.2 (NameMap.mem_insert.2 (Or.inl rfl))))
  -- the bias
  let bias := h₃.freshName (f.parent ++ ".fused_bias")
  have new_bias : bias ∉ h₃.vars := (h₃.freshName_not_mem _).1
  have apart : bias ≠ weight ∧ bias ∉ g.vars := by
    rw [r₃.mem_vars, NameMap.mem_insert, not_or, mem_declarations] at new_bias
    exact new_bias
  obtain ⟨h₄, run₄, r₄⟩ := r₃.declare f.foldedBias new_bias
  let statistics := ((g.getOperation? f.norm).map (·.inputs.drop 1)).getD []
  refine ⟨h₄, statistics, weight, bias, weight_fresh, apart.2, apart.1.symm, r₄, ?_⟩
  rw [applyFusion_eq, bind_of_ok (run_get g), bind_of_ok (discard_of_ok run₁), absorb,
    bind_of_ok (run_get h₁), bind_of_ok run₂, bind_of_ok run₃, bind_of_ok (run_get h₃),
    bind_of_ok run₄]
  rfl

theorem applyFusion_runs (hg : g.Linked) (pair : Pair g f o p data)
    (apart : f.bias ≠ some f.weight) : ∃ g' weight bias, applyFusion f g = .ok () g' ∧
      Fused g g' f p (f.firstSlot data weight bias) weight bias := by
  obtain ⟨h, statistics, weight, bias, weight_fresh, bias_fresh, distinct, r, run⟩ :=
    applyFusion_prepares hg pair
  have bias_ne : f.bias ≠ some weight := fun same => weight_fresh (pair.bias_known hg same)
  have first : (if f.bias = some (if data = f.weight then weight else data) then bias
      else if data = f.weight then weight else data) = f.firstSlot data weight bias := by
    unfold Fusion.firstSlot
    by_cases same : data = f.weight
    · simp [same, bias_ne]
    · simp [same]
  rw [pair.redirect apart] at r
  -- the bias
  obtain ⟨h₅, run₅, r₅⟩ := r.setBias_runs rfl bias_ne
    (r.mem_vars.2 (NameMap.mem_insert.2 (Or.inl rfl)))
  dsimp only at r₅
  rw [first] at r₅
  -- the output
  have output_made : h₅.Produces f.parent f.intermediate := ⟨_, r₅.parent, by simp [pair.outputs]⟩
  have known : ∀ var ∈ g.vars, var ∈ h₅.vars := by
    intro var hvar
    simp only [r₅.mem_vars, NameMap.mem_insert, mem_declarations]
    exact Or.inr (Or.inr hvar)
  obtain ⟨h₆, run₆, r₆⟩ := r₅.update (Edit.replaceOutput_yields r₅.linked output_made
    (known _ (hg.produces_known pair.made)) (r₅.unmade hg pair pair.outputs))
  have replaced : p.outputs.replace f.intermediate f.output = [f.output] := by
    simp [pair.outputs]
  have hidden := hg.produces_known pair.intermediate_made
  have weight_ne : f.intermediate ≠ weight := fun same => weight_fresh (same ▸ hidden)
  have bias_ne' : f.intermediate ≠ bias := fun same => bias_fresh (same ▸ hidden)
  have data_ne : f.intermediate ≠ data := fun same =>
    pair.parent_ne (pair.reader _ ⟨p, pair.parent, by simp [pair.inputs, same]⟩)
  have unread : f.intermediate ∉ [f.firstSlot data weight bias, weight, bias] := by
    have first_ne : f.intermediate ≠ f.firstSlot data weight bias := by
      unfold Fusion.firstSlot
      split
      · exact weight_ne
      · split
        · exact bias_ne'
        · exact data_ne
    simp [first_ne, weight_ne, bias_ne']
  obtain ⟨v, h₇, run₇, linked₇, content₇⟩ := Edit.removeVariable_yields r₆.linked
    (r₆.mem_vars.2 (r₅.mem_vars.1 (known _ hidden))) (r₆.unlinked hg pair unread replaced)
  obtain ⟨g', gone, run₈, trimmed⟩ :=
    removeOrphans_runs linked₇ (statistics ++ f.weight :: f.bias.toList)
  refine ⟨g', weight, bias, ?_, weight_fresh, bias_fresh, distinct, h₇, gone, trimmed, ?_⟩
  · rw [run, settle, bind_of_ok run₅, bind_of_ok run₆, dropFolded, bind_of_ok (discard_of_ok run₇)]
    exact run₈
  · have interface : h₆.inputs = g.inputs ∧ h₆.outputs = g.outputs :=
      ⟨congrArg Content.inputs r₆.content, congrArg Content.outputs r₆.content⟩
    rw [content₇, interface.1, interface.2, r₆.content, replaced]

/-- With one variable as weight and as bias, the new weight takes both slots and the old bias is
no longer read. -/
theorem applyFusion_stops (hg : g.Linked) (pair : Pair g f o p data)
    (shared : f.bias = some f.weight) :
    ∃ h, applyFusion f g = .error (.notRead f.parent f.weight) h := by
  obtain ⟨h, statistics, weight, bias, weight_fresh, -, -, r, run⟩ := applyFusion_prepares hg pair
  have renamed : weight ≠ f.weight := fun same =>
    weight_fresh (same ▸ pair.bias_known hg shared)
  have stops : setBias f bias h = .error (.notRead f.parent f.weight) h := by
    unfold setBias
    rw [shared]
    exact Edit.replaceInput_notRead r.parent (Operation.not_mem_redirect renamed _)
      (r.mem_vars.2 (NameMap.mem_insert.2 (Or.inl rfl)))
  exact ⟨h, run.trans (bind_of_error stops)⟩

namespace Fused

variable (fused : Fused g g' f p data weight bias)
include fused

theorem linked : g'.Linked := by
  obtain ⟨_, _, trimmed, _⟩ := fused.rest
  exact trimmed.linked

theorem parent : g'.getOperation? f.parent =
    some { p with inputs := [data, weight, bias], outputs := [f.output] } := by
  obtain ⟨h, gone, trimmed, content⟩ := fused.rest
  rw [trimmed.operations, if_neg List.not_mem_nil, getOperation?,
    show h.operations = _ from congrArg Content.operations content, NameMap.get?_insert_self]

/-- What is read in `g'` has not gone. -/
theorem declarations_get? {n : String} {d : Declaration α} (read : n ∈ [data, weight, bias])
    (found : (((g.content.declarations.insert weight
      ⟨weight, some f.foldedWeight, true⟩).insert bias
        ⟨bias, some f.foldedBias, true⟩).erase f.intermediate).get? n = some d) :
    g'.content.declarations.get? n = some d := by
  have present : n ∈ g'.content.declarations :=
    mem_declarations.2 (fused.linked.input_known fused.parent read)
  obtain ⟨h, gone, trimmed, content⟩ := fused.rest
  obtain ⟨e, he⟩ := NameMap.mem_iff.1 present
  rw [trimmed.declarations] at he ⊢
  split at he
  · cases he
  · rw [if_neg ‹_›, content]
    exact found

theorem weight_declared (known : f.intermediate ∈ g.vars) :
    g'.content.declarations.get? weight = some ⟨weight, some f.foldedWeight, true⟩ := by
  have apart : weight ≠ f.intermediate := fun same => fused.weight_fresh (same ▸ known)
  apply fused.declarations_get? (by simp)
  rw [NameMap.get?_erase, if_neg apart, NameMap.get?_insert, if_neg fused.distinct,
    NameMap.get?_insert_self]

theorem bias_declared (known : f.intermediate ∈ g.vars) :
    g'.content.declarations.get? bias = some ⟨bias, some f.foldedBias, true⟩ := by
  have apart : bias ≠ f.intermediate := fun same => fused.bias_fresh (same ▸ known)
  apply fused.declarations_get? (by simp)
  rw [NameMap.get?_erase, if_neg apart, NameMap.get?_insert_self]

end Fused

theorem reads_unique {var : String} (hg : g.Linked) (one : (g.consumersOf var).length = 1)
    {n m : String} (hn : g.Reads n var) (hm : g.Reads m var) : n = m := by
  have listed : ∀ {n}, g.Reads n var → n ∈ g.consumersOf var := by
    intro n reads
    obtain ⟨v, hv⟩ := mem_vars_iff.1 (hg.reads_known reads)
    rw [consumersOf, hv]
    exact (hg.mem_consumers hv).2 reads
  obtain ⟨c, hc⟩ := List.length_eq_one_iff.1 one
  have only : ∀ {n}, g.Reads n var → n = c := by
    intro n reads
    have hn := listed reads
    rw [hc, List.mem_singleton] at hn
    exact hn
  rw [only hn, only hm]

section Planned

variable [Scalar α] {axis : Nat} {biasScale : α} {statistics : Statistics α} {channels : UInt64}
  {weight : Tensor α} {bias : List α}

theorem Planned.pair (hg : g.Linked)
    (plan : Planned g f o p axis biasScale statistics channels weight bias) :
    ∃ data, Pair g f o p data := by
  obtain ⟨single, one, -, few⟩ := isPrivate_iff.1 plan.alone
  obtain ⟨_, _, _, _, inputs, -⟩ := plan.inputs
  have made : g.Produces f.parent f.intermediate := hg.producer?_eq_some.1 plan.made
  have outputs : p.outputs = [f.intermediate] := by
    obtain ⟨p', hp', hout⟩ := made
    cases plan.parent.symm.trans hp'
    obtain ⟨x, hx⟩ := List.length_eq_one_iff.1 single
    rw [hx, List.mem_singleton] at hout
    rw [hx, hout]
  obtain ⟨data, slots⟩ := slots_of_isPrivate plan.alone
  rw [plan.weightName, plan.biasName] at slots
  refine ⟨data, plan.norm, plan.parent, ?_, plan.outputs, slots, outputs, fun n reads => ?_⟩
  · intro same
    cases plan.norm.symm.trans (same ▸ plan.parent)
    rw [inputs] at few
    simp at few
  · exact reads_unique hg one reads ⟨o, plan.norm, by simp [inputs]⟩

/-- A planned fold happens where the inputs of the parent are different variables. -/
theorem foldBatchNorm_leads {norm : String} (hg : g.Linked)
    (h : planFusion g norm = .ok (.fold f))
    (plan : Planned g f o p axis biasScale statistics channels weight bias)
    (distinct : p.inputs.Nodup) :
    Task.Leads (foldBatchNorm norm) g fun folded g' => folded = true ∧
      ∃ data weight bias, Pair g f o p data ∧ Fused g g' f p data weight bias := by
  obtain ⟨data, pair⟩ := plan.pair hg
  obtain ⟨g', weight, bias, run, fused⟩ := applyFusion_runs hg pair (pair.apart_of_nodup distinct)
  rw [pair.firstSlot_of_nodup distinct] at fused
  unfold foldBatchNorm
  apply Task.leads_state_bind
  rw [h]
  apply Task.leads_ofExcept_bind
  apply Task.leads_note_bind
  apply Task.leads_edit_bind run
  exact Task.leads_pure ⟨rfl, data, weight, bias, pair, fused⟩

end Planned

section Outcome

variable [Scalar α] {s : Site α}

/-- What ends a fold at the site. -/
inductive Site.Fails (s : Site α) : RewriteError α → Prop where
  | scaling {e : TensorError} : s.weight.scaleAlong s.axis s.factors = .error e →
    s.Fails (.tensor e)
  | shared : s.Shared → s.Fails (.edit (.notRead s.parent s.weightName))

/-- `g'` is `g` with the site folded. -/
structure Site.Folds (s : Site α) (g g' : Graph α) (scaled : Tensor α)
    (data weight bias : String) : Prop where
  before : g.Linked
  site : s.In g
  scaling : s.weight.scaleAlong s.axis s.factors = .ok scaled
  apart : ¬s.Shared
  pair : Pair g (s.fusion scaled) s.normalization s.linear data
  fused : Fused g g' (s.fusion scaled) s.linear ((s.fusion scaled).firstSlot data weight bias)
    weight bias

/-- A normalization stays or it is folded at its site, if nothing goes wrong there. -/
theorem foldBatchNorm_meets {norm : String} (hg : g.Linked) (ho : g.getOperation? norm = some o) :
    Task.Meets (foldBatchNorm norm) g
      (fun _ g' => Stays g norm ∧ g' = g ∨ ∃ (s : Site α) (scaled : Tensor α)
        (data weight bias : String), s.norm = norm ∧ s.Folds g g' scaled data weight bias)
      (fun e => ∃ s : Site α, s.norm = norm ∧ s.In g ∧ s.Fails e) := by
  rcases planFusion_spec ho with ⟨s, rfl, site, plan⟩ | stays
  · unfold foldBatchNorm
    apply Task.Meets.state_bind
    rw [plan]
    cases scaled : s.weight.scaleAlong s.axis s.factors with
    | error e =>
      rw [Site.plan_of_error scaled]
      exact fun _ => ⟨s, rfl, site, .scaling scaled⟩
    | ok w =>
      obtain ⟨data, pair⟩ := (site.planned scaled).pair hg
      rw [site.plan_of_ok scaled]
      apply Task.Meets.ofExcept_bind
      apply Task.Meets.note_bind
      by_cases shared : s.Shared
      · obtain ⟨h, run⟩ := applyFusion_stops hg pair shared
        exact (Task.meets_edit_error run ⟨s, rfl, site, .shared shared⟩).bind
          fun _ _ none => none.elim
      · obtain ⟨g', weight, bias, run, fused⟩ := applyFusion_runs hg pair shared
        apply Task.Leads.meets
        apply Task.leads_edit_bind run
        refine Task.leads_pure (Or.inr ⟨s, w, data, weight, bias, rfl, ?_⟩)
        exact ⟨hg, site, scaled, shared, pair, fused⟩
  · exact ((foldBatchNorm_stays stays).mono fun _ g' same => Or.inl ⟨stays, same.2⟩).meets

end Outcome

end Fold

end GraphDispatch.Rewrite
