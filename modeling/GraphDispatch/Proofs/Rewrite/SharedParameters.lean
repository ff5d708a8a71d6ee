import GraphDispatch.Proofs.FreshName
import GraphDispatch.Proofs.Rewrite.Basic
import GraphDispatch.Rewrite.SharedParameter

/-!
# Shared parameters are copied
-/

namespace GraphDispatch.Rewrite

open GraphDispatch.Graph

variable {α : Type} {g g' : Graph α} {op var copy : String} {value : Option (Tensor α)}

/-- In `g'` the operation `op` reads a copy of `var` of its own. -/
structure Copied (g g' : Graph α) (op var copy : String) (value : Option (Tensor α)) : Prop where
  before : g.Linked
  after : g'.Linked
  reads : g.Reads op var
  fresh : copy ∉ g.vars
  content : g'.content = { g.content with
    operations := g.operations.modify op (Operation.redirect var copy)
    declarations := g.content.declarations.insert copy ⟨copy, value, value.isSome⟩ }

theorem copyFor_ensures (hg : g.Linked) (var : String) (value : Option (Tensor α)) (op : String) :
    Ensures (copyFor var value op) g fun _ g' => ∃ copy, Copied g g' op var copy value := by
  unfold copyFor
  apply Ensures.get_bind
  refine ((Edit.createVariable_effects _ _).discard.ensures hg).bind fun _ h hh => ?_
  obtain ⟨linked, fresh, content⟩ := hh
  have operations : h.operations = g.operations := congrArg Content.operations content
  refine ((Edit.replaceInput_effects _ _ _).ensures linked).mono fun _ g' hg' => ?_
  obtain ⟨linked', reads, content'⟩ := hg'
  refine ⟨g.freshName var, hg, linked', ?_, fresh, ?_⟩
  · rw [Reads, getOperation?, ← operations]
    exact reads
  · rw [content', operations, content]

namespace Copied

variable (h : Copied g g' op var copy value)
include h

theorem inputs : g'.inputs = g.inputs := congrArg Content.inputs h.content

theorem outputs : g'.outputs = g.outputs := congrArg Content.outputs h.content

theorem getOperation?_eq (n : String) : g'.getOperation? n =
    if n = op then (g.getOperation? n).map (Operation.redirect var copy)
    else g.getOperation? n := by
  have operations : g'.operations = g.operations.modify op (Operation.redirect var copy) :=
    congrArg Content.operations h.content
  rw [getOperation?, operations, NameMap.get?_modify]
  rfl

theorem mem_operations {n : String} : n ∈ g'.operations ↔ n ∈ g.operations := by
  have operations : g'.operations = g.operations.modify op (Operation.redirect var copy) :=
    congrArg Content.operations h.content
  rw [operations, NameMap.mem_modify]

theorem declarations_get? (n : String) : g'.content.declarations.get? n =
    if n = copy then some ⟨copy, value, value.isSome⟩ else g.content.declarations.get? n := by
  rw [h.content, NameMap.get?_insert]

theorem declared {n : String} {d : Declaration α} (hd : g.content.declarations.get? n = some d) :
    g'.content.declarations.get? n = some d := by
  have hn : n ≠ copy := by
    rintro rfl
    exact h.fresh (mem_declarations.1 (NameMap.mem_of_get? hd))
  rw [h.declarations_get?, if_neg hn, hd]

theorem produces_iff {n x : String} : g'.Produces n x ↔ g.Produces n x := by
  unfold Produces
  rw [h.getOperation?_eq]
  by_cases hn : n = op
  · subst hn
    rw [if_pos rfl]
    cases g.getOperation? n <;> simp [Operation.redirect]
  · simp [hn]

end Copied

/-- What a sharing says about its parameter. -/
theorem sharing_of_mem {s : Sharing α} (hg : g.Linked) (h : s ∈ g.vars.values.filterMap sharing?) :
    ∃ v first, g.getVariable? s.var = some v ∧ v.value = s.value ∧ v.isParameter = true ∧
      v.producer = none ∧ v.consumerNames = first :: s.others := by
  obtain ⟨v, hv, found⟩ := List.mem_filterMap.1 h
  obtain ⟨var, hvar⟩ := NameMap.mem_values.1 hv
  have name : v.name = var := hg.variable_name hvar
  unfold sharing? at found
  split at found
  · rename_i first op others consumers
    split at found
    · rename_i spare
      rw [Bool.and_eq_true, Option.isNone_iff_eq_none] at spare
      cases found
      exact ⟨v, first, name ▸ hvar, rfl, spare.1, spare.2, consumers⟩
    · cases found
  · cases found

theorem var_of_sharing? {v : Variable α} {s : Sharing α} (h : sharing? v = some s) :
    s.var = v.name := by
  unfold sharing? at h
  split at h
  · split at h <;> cases h
    rfl
  · cases h

/-- All consumers but the first are to read copies. -/
theorem sharing_mem (hg : g.Linked) {v : Variable α} (hv : g.getVariable? var = some v)
    (parameter : v.isParameter = true) (producer : v.producer = none)
    (later : op ∈ v.consumerNames.tail) :
    ∃ s ∈ g.vars.values.filterMap sharing?, s.var = var ∧ op ∈ s.others := by
  rcases consumers : v.consumerNames with _ | ⟨first, _ | ⟨second, others⟩⟩
  · simp [consumers] at later
  · simp [consumers] at later
  · rw [consumers] at later
    refine ⟨⟨v.name, v.value, second :: others⟩, ?_, hg.variable_name hv, later⟩
    refine List.mem_filterMap.2 ⟨v, NameMap.mem_values.2 ⟨var, hv⟩, ?_⟩
    simp [sharing?, consumers, parameter, producer]

end GraphDispatch.Rewrite
