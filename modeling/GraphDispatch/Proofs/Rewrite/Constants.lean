import GraphDispatch.Proofs.Rewrite.Flaws

/-!
# Constants become parameters
-/

namespace GraphDispatch

open GraphDispatch.Graph

variable {α : Type} {g g' : Graph α} {op output : String} {t : Tensor α}

/-- The tensor that an attribute holds. -/
inductive Attribute.Carries : Attribute α → Tensor α → Prop where
  | tensor (t : Tensor α) : Carries (.tensor t) t
  | float (x : α) : Carries (.float x) ⟨[], .floats [x]⟩
  | int (n : Int64) : Carries (.int n) ⟨[], .ints [n]⟩
  | floats (xs : List α) : Carries (.floats xs) ⟨[UInt64.ofNat xs.length], .floats xs⟩
  | ints (ns : List Int64) : Carries (.ints ns) ⟨[UInt64.ofNat ns.length], .ints ns⟩

namespace Rewrite

theorem constantValue_eq_ok {a : Attribute α} : constantValue a = .ok t ↔ a.Carries t := by
  constructor
  · intro h
    cases a with
    | string s => cases h
    | tensor t =>
      cases h
      exact .tensor t
    | float x =>
      cases h
      exact .float x
    | int n =>
      cases h
      exact .int n
    | floats xs =>
      cases h
      exact .floats xs
    | ints ns =>
      cases h
      exact .ints ns
  · intro h
    cases h <;> rfl

/-- `o` reads nothing, and all it produces is `output`, whose value is `t`. -/
structure Constant (o : Operation α) (output : String) (t : Tensor α) : Prop where
  inputs : o.inputs = []
  outputs : o.outputs = [output]
  value : ∃ a, constantKeys.findSome? o.attributes.get? = some a ∧ a.Carries t

theorem constant_of_readConstant {o : Operation α} (h : readConstant o = .ok (output, t)) :
    Constant o output t := by
  unfold readConstant at h
  split at h
  · rename_i only slots
    obtain ⟨inputs, outputs⟩ := Prod.mk.inj slots
    split at h
    · rename_i a found
      cases carried : constantValue a with
      | ok u =>
        rw [carried] at h
        cases h
        exact ⟨inputs, outputs, a, found, constantValue_eq_ok.1 carried⟩
      | error e =>
        rw [carried] at h
        cases h
    · cases h
  · cases h

/-- In `g'` what the constant `op` has produced is a parameter. -/
structure Inlined (g g' : Graph α) (op output : String) (t : Tensor α) : Prop where
  before : g.Linked
  after : g'.Linked
  constant : ∃ o, g.getOperation? op = some o ∧ Constant o output t
  content : g'.content = { g.content with
    operations := g.operations.erase op
    declarations := g.content.declarations.modify output
      fun d => { d with value := some t, isParameter := true } }

theorem replaceConstant_decided {o : Operation α} (hg : g.Linked)
    (ho : g.getOperation? op = some o) :
    Decided (replaceConstant op) g (Flawed o .constants)
      fun g' => ∃ output t, Inlined g g' op output t := by
  unfold replaceConstant
  refine .getOperation_bind ho (.ofExcept_bind (fun _ => readConstant_eq_error.1) ?_)
  rintro ⟨output, t⟩ read
  refine .inr ⟨fun e flaw => ?_, ?_⟩
  · cases read.symm.trans (readConstant_eq_error.2 flaw)
  have constant := constant_of_readConstant read
  have made : g.Produces op output := ⟨o, ho, by simp [constant.outputs]⟩
  obtain ⟨h, run, linked, content⟩ := Edit.removeOperation_yields hg ho
  have operations : h.operations = g.operations.erase op := congrArg Content.operations content
  have known : output ∈ h.vars :=
    (Graph.mem_vars_congr (by rw [content])).2 (hg.produces_known made)
  have unmade : ∀ n, ¬h.Produces n output := by
    rintro n ⟨p, hp, hvar⟩
    rw [Graph.getOperation?, operations, NameMap.get?_erase] at hp
    split at hp
    · cases hp
    · exact ‹n ≠ op› (hg.produces_unique ⟨p, hp, hvar⟩ made)
  have valued : Edit.Yields (Edit.setValue output t) h () _ :=
    Edit.setValue_yields linked known unmade
  obtain ⟨g', run', linked', content'⟩ := valued
  have both : (do discard (Edit.removeOperation op); Edit.setValue output t) g = .ok () g' :=
    (bind_of_ok (discard_of_ok run)).trans run'
  refine (Task.leads_edit both ?_).bind fun _ _ inlined => Task.leads_pure ⟨output, t, inlined⟩
  refine ⟨hg, linked', ⟨o, ho, constant⟩, ?_⟩
  rw [content', content]

theorem replaceConstant_ensures (hg : g.Linked) (op : String) :
    Task.Ensures (replaceConstant op) g fun _ g' => ∃ output t, Inlined g g' op output t := by
  cases ho : g.getOperation? op with
  | some o => exact (replaceConstant_decided hg ho).ensures
  | none =>
    refine (getOperation_ensures "constant" op).bind fun o _ found => ?_
    cases ho.symm.trans found.1

namespace Inlined

variable (h : Inlined g g' op output t)
include h

theorem getOperation?_eq (n : String) :
    g'.getOperation? n = if n = op then none else g.getOperation? n := by
  have operations : g'.operations = g.operations.erase op := congrArg Content.operations h.content
  rw [Graph.getOperation?, operations, NameMap.get?_erase]
  rfl

theorem declarations_get? (n : String) : g'.content.declarations.get? n =
    if n = output then (g.content.declarations.get? n).map
      fun d => { d with value := some t, isParameter := true }
    else g.content.declarations.get? n := by
  rw [h.content, NameMap.get?_modify]

theorem produces : g.Produces op output := by
  obtain ⟨o, ho, constant⟩ := h.constant
  exact ⟨o, ho, by simp [constant.outputs]⟩

theorem produces_iff {n var : String} : g'.Produces n var ↔ n ≠ op ∧ g.Produces n var := by
  unfold Graph.Produces
  rw [h.getOperation?_eq]
  by_cases hn : n = op <;> simp [hn]

/-- A constant reads nothing, so without it nothing is read less. -/
theorem consumersOf_eq (var : String) : g'.consumersOf var = g.consumersOf var := by
  refine eq_of_count_eq (h.after.consumersOf_sorted var) (h.before.consumersOf_sorted var) ?_
  intro n
  rw [h.after.count_consumersOf, h.before.count_consumersOf, h.getOperation?_eq]
  split
  · obtain ⟨o, ho, constant⟩ := h.constant
    subst n
    simp [ho, constant.inputs]
  · rfl

theorem getVariable?_eq {var : String} (other : var ≠ output) :
    g'.getVariable? var = g.getVariable? var := by
  have producer : g'.producer? var = g.producer? var := by
    refine h.after.producer?_congr h.before fun n => ?_
    rw [h.produces_iff, and_iff_right_iff_imp]
    rintro ⟨o, ho, made⟩ rfl
    obtain ⟨p, hp, constant⟩ := h.constant
    cases ho.symm.trans hp
    rw [constant.outputs, List.mem_singleton] at made
    exact other made
  refine Option.ext fun v => ?_
  rw [getVariable?_eq_some_iff, getVariable?_eq_some_iff, h.declarations_get?, if_neg other,
    producer, h.consumersOf_eq]

theorem getVariable?_output : ∃ v, g.getVariable? output = some v ∧ g'.getVariable? output =
    some { v with value := some t, isParameter := true, producer := none } := by
  obtain ⟨v, hv⟩ := mem_vars_iff.1 (h.before.produces_known h.produces)
  obtain ⟨declared, -, consumers⟩ := getVariable?_eq_some_iff.1 hv
  refine ⟨v, hv, getVariable?_eq_some_iff.2 ⟨?_, ?_, ?_⟩⟩
  · rw [h.declarations_get?, if_pos rfl, declared]
    rfl
  · refine Option.eq_none_iff_forall_ne_some.2 fun n made => ?_
    obtain ⟨apart, produces⟩ := h.produces_iff.1 (h.after.producer?_eq_some.1 made)
    exact apart (h.before.produces_unique produces h.produces)
  · rw [h.consumersOf_eq, consumers]

end Inlined

end Rewrite

end GraphDispatch
