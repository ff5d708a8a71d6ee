import GraphDispatch.Proofs.Acyclic
import GraphDispatch.Proofs.Lists
import GraphDispatch.Proofs.Rewrite.Constants

/-!
# What a graph computes

An interpretation says what operations make of the values they read. On a linked graph
without cycles it gives every variable one value (`Graph.Linked.exists_value`,
`Evaluates.unique`), and a graph that simulates another one computes the same.
-/

namespace GraphDispatch

variable {α V : Type}

/-- What operations compute. -/
structure Interpretation (α V : Type) where
  /-- The value of a variable that gets none. -/
  absent : V
  tensor : Tensor α → V
  /-- The value in an output slot, by the type, the attributes and the values read. -/
  output : String → NameMap (Attribute α) → List V → Nat → V

namespace Interpretation

/-- A constant yields what the first of its value attributes carries. -/
def YieldsConstants (I : Interpretation α V) : Prop :=
  ∀ attributes a t, Rewrite.constantKeys.findSome? attributes.get? = some a → a.Carries t →
    I.output "Constant" attributes [] 0 = I.tensor t

/-- What a variable is worth that no operation produces, by its declaration. -/
def given (I : Interpretation α V) (feed : String → V) (g : Graph α) (d : Declaration α) : V :=
  match d.value with
  | some t => I.tensor t
  | none => if d.name ∈ g.inputs then feed d.name else I.absent

end Interpretation

/-- The variable has the value when the graph inputs are fed. -/
inductive Evaluates (I : Interpretation α V) (feed : String → V) (g : Graph α) :
    String → V → Prop where
  | given {var d} : g.content.declarations.get? var = some d → (∀ op, ¬g.Produces op var) →
    Evaluates I feed g var (I.given feed g d)
  | made {op o slot var} {xs : List V} : g.getOperation? op = some o →
    o.outputs[slot]? = some var → xs.length = o.inputs.length →
    (∀ (i : Nat) (a : String) (x : V), o.inputs[i]? = some a → xs[i]? = some x →
      Evaluates I feed g a x) →
    Evaluates I feed g var (I.output o.type o.attributes xs slot)

variable {I : Interpretation α V} {feed : String → V} {g g' : Graph α} {var : String} {x y : V}

theorem produces_of_slot {op : String} {o : Operation α} {slot : Nat}
    (ho : g.getOperation? op = some o) (hvar : o.outputs[slot]? = some var) :
    g.Produces op var := ⟨o, ho, List.mem_of_getElem? hvar⟩

theorem Evaluates.unique (hg : g.Linked) (h : Evaluates I feed g var x)
    (h' : Evaluates I feed g var y) : x = y := by
  induction h generalizing y with
  | given hd unmade =>
    cases h' with
    | given hd' _ =>
      rw [hd] at hd'
      cases hd'
      rfl
    | made ho hvar _ _ => exact absurd (produces_of_slot ho hvar) (unmade _)
  | @made op o slot var xs ho hvar length _ ih =>
    cases h' with
    | given _ unmade => exact absurd (produces_of_slot ho hvar) (unmade _)
    | @made op' o' slot' _ ys ho' hvar' length' inputs =>
      cases hg.produces_unique (produces_of_slot ho hvar) (produces_of_slot ho' hvar')
      cases ho.symm.trans ho'
      have bound : slot < o.outputs.length := (List.getElem?_eq_some_iff.1 hvar).1
      have same : slot = slot' :=
        (List.getElem?_inj bound (hg.outputs_nodup ho)).1 (hvar.trans hvar'.symm)
      have values : xs = ys := by
        apply List.ext_getElem (length.trans length'.symm)
        intro i hi hi'
        have inside : i < o.inputs.length := length ▸ hi
        have known : o.inputs[i]? = some o.inputs[i] := List.getElem?_eq_getElem inside
        apply ih i _ _ known (List.getElem?_eq_getElem hi)
        exact inputs i _ _ known (List.getElem?_eq_getElem hi')
      rw [same, values]

theorem exists_given (known : var ∈ g.vars) (unmade : ¬∃ op, g.Produces op var) :
    ∃ x, Evaluates I feed g var x := by
  obtain ⟨d, hd⟩ := NameMap.mem_iff.1 (Graph.mem_declarations.2 known)
  exact ⟨_, .given hd fun op hop => unmade ⟨op, hop⟩⟩

/-- What reads values has values, going up from what nothing feeds. -/
theorem Graph.Linked.exists_value (hg : g.Linked) (acyclic : g.Acyclic)
    (I : Interpretation α V) (feed : String → V) (known : var ∈ g.vars) :
    ∃ x, Evaluates I feed g var x := by
  obtain ⟨rank, ranked⟩ := hg.acyclic_iff_ranked.1 acyclic
  have settled : ∀ op var, g.Produces op var → ∃ x, Evaluates I feed g var x := by
    intro op
    induction n : rank op using Nat.strong_induction_on generalizing op with
    | _ n ih =>
      rintro var ⟨o, ho, hvar⟩
      have read : ∀ a ∈ o.inputs, ∃ x, Evaluates I feed g a x := by
        intro a ha
        by_cases made : ∃ p, g.Produces p a
        · obtain ⟨p, hp⟩ := made
          have below := ranked p op (hg.feeds_iff.2 ⟨a, hp, o, ho, ha⟩)
          exact ih (rank p) (n ▸ below) p rfl a hp
        · exact exists_given (hg.input_known ho ha) made
      have : Nonempty V := ⟨I.absent⟩
      choose! value evaluates using read
      have inputs : ∀ (i : Nat) (a : String) (x : V), o.inputs[i]? = some a →
          (o.inputs.map value)[i]? = some x → Evaluates I feed g a x := by
        intro i a x ha hx
        rw [List.getElem?_map, ha] at hx
        cases hx
        exact evaluates a (List.mem_of_getElem? ha)
      obtain ⟨slot, hslot⟩ := List.getElem?_of_mem hvar
      exact ⟨_, .made ho hslot (List.length_map _) inputs⟩
  by_cases made : ∃ p, g.Produces p var
  · obtain ⟨p, hp⟩ := made
    exact settled p var hp
  · exact exists_given known made

/-- What is related in two graphs is given alike or made alike. In place of an operation
the second graph may have its result. -/
structure Simulates (I : Interpretation α V) (feed : String → V) (g g' : Graph α)
    (R : String → String → Prop) : Prop where
  given : ∀ {a a' d}, R a a' → g.content.declarations.get? a = some d →
    (∀ op, ¬g.Produces op a) → Evaluates I feed g' a' (I.given feed g d)
  made : ∀ {a a' op o slot}, R a a' → g.getOperation? op = some o → o.outputs[slot]? = some a →
    (∃ op' o', g'.getOperation? op' = some o' ∧ o'.outputs[slot]? = some a' ∧ o'.type = o.type ∧
      o'.attributes = o.attributes ∧ List.Forall₂ R o.inputs o'.inputs) ∨
    ∀ xs : List V, xs.length = o.inputs.length →
      Evaluates I feed g' a' (I.output o.type o.attributes xs slot)

theorem Simulates.evaluates {R : String → String → Prop} (h : Simulates I feed g g' R)
    (value : Evaluates I feed g var x) {var' : String} (related : R var var') :
    Evaluates I feed g' var' x := by
  induction value generalizing var' with
  | given hd unmade => exact h.given related hd unmade
  | @made op o slot var xs ho hvar length _ ih =>
    rcases h.made related ho hvar with ⟨op', o', ho', hvar', type, attributes, inputs⟩ | done
    · rw [← type, ← attributes]
      apply Evaluates.made ho' hvar' (length.trans inputs.length_eq)
      intro i a' x ha' hx
      obtain ⟨a, ha, related⟩ := getElem?_of_forall₂ inputs.flip ha'
      exact ih i a x ha hx related
    · exact done xs length

/-- `g'` returns the variables that `g` returns, and each has one value, the same in both. -/
def SameResults (I : Interpretation α V) (feed : String → V) (g g' : Graph α) : Prop :=
  g'.outputs = g.outputs ∧ ∀ var ∈ g.outputs, ∃ x, ∀ y,
    (Evaluates I feed g var y ↔ y = x) ∧ (Evaluates I feed g' var y ↔ y = x)

/-- `g'` returns the variables that `g` returns, with the values that they have in `g`. -/
structure KeepsOutputs (I : Interpretation α V) (feed : String → V) (g g' : Graph α) : Prop where
  linked : g'.Linked
  outputs : g'.outputs = g.outputs
  kept : ∀ var ∈ g.outputs, ∀ x, Evaluates I feed g var x → Evaluates I feed g' var x

/-- One direction is enough where every variable has a value. -/
theorem KeepsOutputs.sameResults (h : KeepsOutputs I feed g g') (hg : g.Linked)
    (acyclic : g.Acyclic) : SameResults I feed g g' := by
  refine ⟨h.outputs, fun var hvar => ?_⟩
  obtain ⟨x, hx⟩ := hg.exists_value acyclic I feed (hg.outputs_known var hvar)
  have hx' := h.kept var hvar x hx
  refine ⟨x, fun y => ⟨⟨fun hy => hy.unique hg hx, ?_⟩, fun hy => hy.unique h.linked hx', ?_⟩⟩
  · rintro rfl
    exact hx
  · rintro rfl
    exact hx'

end GraphDispatch
