import GraphDispatch.Graph.Consistency
import GraphDispatch.Graph.Document
import GraphDispatch.Graph.Order
import GraphDispatch.Proofs.Links.Consumers
import GraphDispatch.Proofs.NameMap

/-!
# Graphs without their links

Where both sides of the links agree, the links follow from the operations: linked
graphs of the same content are equal (`Linked.ext`). What an edit does to a linked
graph is therefore said by what it does to the content.
-/

namespace GraphDispatch

variable {α : Type}

/-- A variable without its links. -/
def Variable.declaration (v : Variable α) : Declaration α := ⟨v.name, v.value, v.isParameter⟩

structure Content (α : Type) where
  name : String
  operations : NameMap (Operation α)
  declarations : NameMap (Declaration α)
  inputs : List String
  outputs : List String

namespace Graph

def content (g : Graph α) : Content α where
  name := g.name
  operations := g.operations
  declarations := g.vars.mapEntries fun _ v => v.declaration
  inputs := g.inputs
  outputs := g.outputs

theorem get?_declarations (g : Graph α) (var : String) :
    g.content.declarations.get? var = (g.getVariable? var).map (·.declaration) :=
  NameMap.get?_mapEntries _ _ _

@[simp] theorem mem_declarations {g : Graph α} {var : String} :
    var ∈ g.content.declarations ↔ var ∈ g.vars := NameMap.mem_mapEntries

theorem mem_vars_iff {g : Graph α} {var : String} :
    var ∈ g.vars ↔ ∃ v, g.getVariable? var = some v := NameMap.mem_iff

theorem mem_vars_congr {g h : Graph α} (same : h.content.declarations = g.content.declarations)
    {var : String} : var ∈ h.vars ↔ var ∈ g.vars := by
  rw [← mem_declarations, same, mem_declarations]

theorem mem_vars_of_declared {g h : Graph α} {new : String} {d : Declaration α}
    (declared : h.content.declarations = g.content.declarations.insert new d) {var : String} :
    var ∈ h.vars ↔ var = new ∨ var ∈ g.vars := by
  rw [← mem_declarations, declared, NameMap.mem_insert, mem_declarations]

theorem mem_operations_iff {g : Graph α} {op : String} :
    op ∈ g.operations ↔ ∃ o, g.getOperation? op = some o := NameMap.mem_iff

/-- A variable is what it declares and its links. -/
theorem getVariable?_eq_some_iff {g : Graph α} {var : String} {v : Variable α} :
    g.getVariable? var = some v ↔ g.content.declarations.get? var = some v.declaration ∧
      g.producer? var = v.producer ∧ g.consumersOf var = v.consumers := by
  rw [get?_declarations, producer?, consumersOf]
  cases g.getVariable? var with
  | none => simp
  | some w =>
    cases v
    cases w
    simp [Variable.declaration, and_assoc]

/-- `op` has an input slot that names `var`. -/
def Reads (g : Graph α) (op var : String) : Prop :=
  ∃ o, g.getOperation? op = some o ∧ var ∈ o.inputs

/-- `op` has an output slot that names `var`. -/
def Produces (g : Graph α) (op var : String) : Prop :=
  ∃ o, g.getOperation? op = some o ∧ var ∈ o.outputs

namespace Linked

variable {g h : Graph α}

theorem reads_known (hg : g.Linked) {op var : String} (hr : g.Reads op var) : var ∈ g.vars := by
  obtain ⟨o, ho, hvar⟩ := hr
  exact hg.input_known ho hvar

theorem produces_known (hg : g.Linked) {op var : String} (hp : g.Produces op var) :
    var ∈ g.vars := by
  obtain ⟨o, ho, hvar⟩ := hp
  exact hg.output_known ho hvar

theorem mem_consumers (hg : g.Linked) {var op : String} {v : Variable α}
    (hv : g.getVariable? var = some v) : op ∈ v.consumers ↔ g.Reads op var := by
  rw [← List.count_pos_iff, hg.count_consumers hv op, Reads]
  cases g.getOperation? op <;> simp [List.count_pos_iff]

theorem mem_consumerNames (hg : g.Linked) {var op : String} {v : Variable α}
    (hv : g.getVariable? var = some v) : op ∈ v.consumerNames ↔ g.Reads op var := by
  rw [Variable.consumerNames, List.mem_eraseDups, hg.mem_consumers hv]

theorem producer?_eq_some (hg : g.Linked) {var op : String} :
    g.producer? var = some op ↔ g.Produces op var := by
  rw [producer?, Option.bind_eq_some_iff]
  constructor
  · rintro ⟨v, hv, hp⟩
    exact (hg.producer_iff hv op).1 hp
  · intro hp
    obtain ⟨v, hv⟩ := mem_vars_iff.1 (hg.produces_known hp)
    exact ⟨v, hv, (hg.producer_iff hv op).2 hp⟩

theorem count_consumersOf (hg : g.Linked) (var op : String) :
    (g.consumersOf var).count op = ((g.getOperation? op).map (·.inputs.count var)).getD 0 := by
  rw [consumersOf]
  cases hv : g.getVariable? var with
  | some v => exact hg.count_consumers hv op
  | none =>
    cases ho : g.getOperation? op with
    | none => rfl
    | some o =>
      have unread : var ∉ o.inputs := fun hvar => by
        obtain ⟨v, hv'⟩ := mem_vars_iff.1 (hg.input_known ho hvar)
        rw [hv] at hv'
        cases hv'
      simp [List.count_eq_zero.2 unread]

theorem consumersOf_sorted (hg : g.Linked) (var : String) :
    (g.consumersOf var).Pairwise (· ≤ ·) := by
  rw [consumersOf]
  cases hv : g.getVariable? var with
  | some v => exact hg.consumers_sorted hv
  | none => exact .nil

/-- Who produces a variable follows from the slots. -/
theorem producer?_congr (hg : g.Linked) (hh : h.Linked) {var : String}
    (same : ∀ op, g.Produces op var ↔ h.Produces op var) : g.producer? var = h.producer? var := by
  apply Option.ext
  intro op
  rw [hg.producer?_eq_some, hh.producer?_eq_some, same]

/-- Who reads a variable follows from the slots. -/
theorem consumersOf_congr (hg : g.Linked) (hh : h.Linked) {var : String}
    (same : ∀ op, (g.getOperation? op).map (·.inputs.count var) =
      (h.getOperation? op).map (·.inputs.count var)) : g.consumersOf var = h.consumersOf var := by
  refine eq_of_count_eq (hg.consumersOf_sorted var) (hh.consumersOf_sorted var) fun op => ?_
  rw [hg.count_consumersOf, hh.count_consumersOf, same]

/-- What a stored variable says about itself. -/
theorem variable_links (hg : g.Linked) {var : String} {v : Variable α}
    (hv : g.getVariable? var = some v) : v.name = var ∧ (v.value.isSome → v.isParameter = true) ∧
      v.producer = g.producer? var ∧ v.consumers = g.consumersOf var :=
  ⟨hg.variable_name hv, hg.parameter_of_value hv, by simp [producer?, hv],
    by simp [consumersOf, hv]⟩

theorem values_names (hg : g.Linked) : g.operations.values.map (·.name) = g.operations.names := by
  unfold NameMap.values NameMap.names
  rw [List.map_map]
  apply List.map_congr_left
  intro e he
  exact hg.operation_name (NameMap.get?_eq_some_iff.2 he)

theorem vars_names (hg : g.Linked) : g.vars.values.map (·.name) = g.vars.names := by
  unfold NameMap.values NameMap.names
  rw [List.map_map]
  apply List.map_congr_left
  intro e he
  exact hg.variable_name (NameMap.get?_eq_some_iff.2 he)

theorem operationsOfType_ascending (hg : g.Linked) (type : String) :
    (g.operationsOfType type).Pairwise (· < ·) := by
  have sublist : (g.operationsOfType type).Sublist g.operations.names :=
    hg.values_names ▸ List.filter_sublist.map _
  exact g.operations.names_ascending.sublist sublist

theorem operationsOfType_nodup (hg : g.Linked) (type : String) :
    (g.operationsOfType type).Nodup :=
  (hg.operationsOfType_ascending type).imp Std.ne_of_lt

theorem mem_operationsOfType (hg : g.Linked) {op type : String} :
    op ∈ g.operationsOfType type ↔ ∃ o, g.getOperation? op = some o ∧ o.type = type := by
  unfold operationsOfType
  simp only [List.mem_map, List.mem_filter, NameMap.mem_values, decide_eq_true_eq]
  constructor
  · rintro ⟨o, ⟨⟨n, ho⟩, type⟩, rfl⟩
    have name : o.name = n := hg.operation_name ho
    exact ⟨o, name ▸ ho, type⟩
  · rintro ⟨o, ho, type⟩
    exact ⟨o, ⟨⟨op, ho⟩, type⟩, hg.operation_name ho⟩

theorem produces_unique (hg : g.Linked) {p q var : String} (hp : g.Produces p var)
    (hq : g.Produces q var) : p = q :=
  Option.some.inj ((hg.producer?_eq_some.2 hp).symm.trans (hg.producer?_eq_some.2 hq))

theorem feeds_iff (hg : g.Linked) {p q : String} :
    g.Feeds p q ↔ ∃ var, g.Produces p var ∧ g.Reads q var := by
  rw [Feeds, upstream]
  constructor
  · intro hp
    cases ho : g.getOperation? q with
    | none => simp [ho] at hp
    | some o =>
      rw [ho, List.mem_eraseDups, List.mem_filterMap] at hp
      obtain ⟨var, hvar, hprod⟩ := hp
      exact ⟨var, hg.producer?_eq_some.1 hprod, o, ho, hvar⟩
  · rintro ⟨var, hprod, o, ho, hvar⟩
    rw [ho, List.mem_eraseDups, List.mem_filterMap]
    exact ⟨var, hvar, hg.producer?_eq_some.2 hprod⟩

/-- Without a change of operations, variables may come and go as long as no slot names
them, and keep the links they had. -/
theorem redeclare (hg : g.Linked) (operations : h.operations = g.operations)
    (vars : ∀ var v, h.getVariable? var = some v → v.name = var ∧
      (v.value.isSome → v.isParameter = true) ∧ v.producer = g.producer? var ∧
      v.consumers = g.consumersOf var)
    (kept : ∀ op var, g.Reads op var ∨ g.Produces op var → var ∈ h.vars)
    (inputs : ∀ var ∈ h.inputs, var ∈ h.vars) (outputs : ∀ var ∈ h.outputs, var ∈ h.vars)
    (inputs_nodup : h.inputs.Nodup) (outputs_nodup : h.outputs.Nodup) : h.Linked := by
  have look : ∀ op, h.getOperation? op = g.getOperation? op := fun op => by
    rw [getOperation?, operations, getOperation?]
  constructor
  case operation_name => exact fun ho => hg.operation_name (look _ ▸ ho)
  case outputs_nodup => exact fun ho => hg.outputs_nodup (look _ ▸ ho)
  case input_known => exact fun ho hi => kept _ _ (Or.inl ⟨_, look _ ▸ ho, hi⟩)
  case output_known => exact fun ho hp => kept _ _ (Or.inr ⟨_, look _ ▸ ho, hp⟩)
  case inputs_known => exact inputs
  case outputs_known => exact outputs
  case inputs_nodup => exact inputs_nodup
  case graphOutputs_nodup => exact outputs_nodup
  all_goals
    intro var v hv
    obtain ⟨name, parameter, producer, consumers⟩ := vars var v hv
  case variable_name => exact name
  case parameter_of_value => exact parameter
  case count_consumers =>
    intro op
    rw [consumers, look, hg.count_consumersOf]
  case producer_iff =>
    intro op
    rw [producer, hg.producer?_eq_some, look, Produces]
  case consumers_sorted => exact consumers ▸ hg.consumersOf_sorted var

/-- Variables may come and change their values, as long as none goes. -/
theorem revalue (hg : g.Linked) (operations : h.operations = g.operations)
    (inputs : h.inputs = g.inputs) (outputs : h.outputs = g.outputs)
    (kept : ∀ var ∈ g.vars, var ∈ h.vars)
    (vars : ∀ var v, h.getVariable? var = some v → v.name = var ∧
      (v.value.isSome → v.isParameter = true) ∧ v.producer = g.producer? var ∧
      v.consumers = g.consumersOf var) : h.Linked := by
  apply hg.redeclare operations vars
  · exact fun op var linked => kept var (linked.elim hg.reads_known hg.produces_known)
  · exact fun var listed => kept var (hg.inputs_known var (inputs ▸ listed))
  · exact fun var listed => kept var (hg.outputs_known var (outputs ▸ listed))
  · exact inputs ▸ hg.inputs_nodup
  · exact outputs ▸ hg.graphOutputs_nodup

/-- A linked graph is determined by its content. -/
theorem ext (hg : g.Linked) (hh : h.Linked) (same : g.content = h.content) : g = h := by
  have operations : g.operations = h.operations := congrArg Content.operations same
  have look : ∀ op, g.getOperation? op = h.getOperation? op := fun op => by
    rw [getOperation?, operations, getOperation?]
  have vars : g.vars = h.vars := by
    refine NameMap.ext_get? fun var => Option.ext fun v => ?_
    change g.getVariable? var = some v ↔ h.getVariable? var = some v
    rw [getVariable?_eq_some_iff, getVariable?_eq_some_iff, same,
      hg.producer?_congr hh fun op => by rw [Produces, look, Produces],
      hg.consumersOf_congr hh fun op => by rw [look]]
  cases g
  cases h
  simp_all [content]

end Linked

end Graph

end GraphDispatch
