import GraphDispatch.Proofs.Rewrite.Isolated
import GraphDispatch.Rewrite.Format

/-!
# What the removal of isolated nodes leaves

An operation stays just where a path of variables leads from it to an output of the graph, and a
variable where an operation that stays has a slot for it or the interface names it. What stays is
as it was but for the links to what has gone.
-/

namespace GraphDispatch

variable {α : Type} {g g' : Graph α}

/-- A path of variables leads from the operation to an output of the graph. -/
inductive Graph.Contributes (g : Graph α) : String → Prop where
  | last {op out} : g.Produces op out → out ∈ g.outputs → g.Contributes op
  | step {op var reader} : g.Produces op var → g.Reads reader var → g.Contributes reader →
    g.Contributes op

/-- The variable with those of its links that lead to operations of `m`. -/
def Variable.within (m : NameMap (Operation α)) (v : Variable α) : Variable α :=
  { v with
    producer := v.producer.filter (· ∈ m)
    consumers := v.consumers.filter (· ∈ m) }

/-- What `g'` has of `g`: all that an output depends on, and the interface. -/
structure Graph.Cleared (g g' : Graph α) : Prop where
  /-- A graph without outputs keeps its operations. -/
  operations : ∀ op, op ∈ g'.operations ↔
    op ∈ g.operations ∧ (g.outputs ≠ [] → g.Contributes op)
  getOperation? : ∀ op ∈ g'.operations, g'.getOperation? op = g.getOperation? op
  vars : ∀ var, var ∈ g'.vars ↔ var ∈ g.vars ∧
    ((∃ op, g'.Reads op var ∨ g'.Produces op var) ∨ var ∈ g.inputs ∨ var ∈ g.outputs)
  getVariable? : ∀ var ∈ g'.vars,
    g'.getVariable? var = (g.getVariable? var).map (Variable.within g'.operations)
  inputs : g'.inputs = g.inputs
  outputs : g'.outputs = g.outputs

open GraphDispatch.Graph

namespace Rewrite

theorem mem_contributing (hg : g.Linked) {op : String} :
    op ∈ contributing g ↔ g.Contributes op := by
  constructor
  · intro contributes
    have reached := mem_reach.1 contributes
    induction reached with
    | start starts _ =>
      obtain ⟨out, returned, producer⟩ := List.mem_filterMap.1 starts
      exact .last (hg.producer?_eq_some.1 producer) returned
    | step reached edge _ ih =>
      obtain ⟨var, produces, reads⟩ := hg.feeds_iff.1 edge
      exact .step produces reads (ih (mem_reach.2 reached))
  · intro contributes
    induction contributes with
    | last produces returned => exact mem_contributing_of_produces hg returned produces
    | step produces reads _ ih =>
      exact mem_contributing_of_feeds hg (hg.feeds_iff.2 ⟨_, produces, reads⟩) ih

namespace Trimmed

variable {ops vars : List String} (h : Trimmed g g' ops vars)
include h

theorem mem_operations {op : String} : op ∈ g'.operations ↔ op ∈ g.operations ∧ op ∉ ops := by
  rw [mem_operations_iff, mem_operations_iff, h.operations]
  by_cases gone : op ∈ ops <;> simp [gone]

/-- A variable that stays loses the links to operations that do not. -/
theorem getVariable?_eq (hg : g.Linked) {var : String} (known : var ∈ g'.vars) :
    g'.getVariable? var = (g.getVariable? var).map (Variable.within g'.operations) := by
  obtain ⟨present, stays⟩ := h.mem_vars.1 known
  obtain ⟨v, hv⟩ := mem_vars_iff.1 present
  obtain ⟨declared, producer, -⟩ := getVariable?_eq_some_iff.1 hv
  rw [hv, Option.map_some, getVariable?_eq_some_iff]
  refine ⟨?_, Option.ext fun op => ?_, ?_⟩
  · rw [h.declarations, if_neg stays]
    exact declared
  · rw [h.linked.producer?_eq_some, h.produces_iff, Variable.within, ← producer,
      Option.filter_eq_some_iff, hg.producer?_eq_some, decide_eq_true_eq, h.mem_operations]
    constructor
    · rintro ⟨stays, o, ho, hvar⟩
      exact ⟨⟨o, ho, hvar⟩, mem_operations_iff.2 ⟨o, ho⟩, stays⟩
    · rintro ⟨produces, -, stays⟩
      exact ⟨stays, produces⟩
  · change g'.consumersOf var = v.consumers.filter (· ∈ g'.operations)
    refine eq_of_count_eq (h.linked.consumersOf_sorted var) ((hg.consumers_sorted hv).filter _) ?_
    intro op
    rw [h.linked.count_consumersOf, h.operations]
    by_cases stays : op ∈ g'.operations
    · rw [List.count_filter (by simpa using stays), hg.count_consumers hv,
        if_neg (h.mem_operations.1 stays).2]
    · have gone : op ∉ v.consumers.filter (· ∈ g'.operations) := fun hop =>
        stays (of_decide_eq_true (List.mem_filter.1 hop).2)
      have absent : g'.getOperation? op = none := NameMap.get?_eq_none_iff.2 stays
      rw [List.count_eq_zero.2 gone, ← h.operations, absent]
      rfl

end Trimmed

namespace PrunedBy

variable {n : Nat} {ops vars : List String} (h : PrunedBy n g g' ops vars)
include h

theorem mem_operations {op : String} :
    op ∈ g'.operations ↔ op ∈ g.operations ∧ (g.outputs ≠ [] → g.Contributes op) := by
  rw [h.trimmed.mem_operations]
  refine and_congr_right fun known => ?_
  constructor
  · intro stays some
    exact (mem_contributing h.before).1
      ((h.alive.resolve_left fun none => some none.1) op known stays)
  · intro contributes gone
    by_cases none : g.outputs = []
    · rw [h.spares none] at gone
      cases gone
    · exact h.dead op gone ((mem_contributing h.before).2 (contributes none))

theorem mem_vars {var : String} : var ∈ g'.vars ↔ var ∈ g.vars ∧
    ((∃ op, g'.Reads op var ∨ g'.Produces op var) ∨ var ∈ g.inputs ∨ var ∈ g.outputs) := by
  have linked := h.trimmed.linked
  constructor
  · intro known
    refine ⟨(h.trimmed.mem_vars.1 known).1, ?_⟩
    refine Classical.byContradiction fun spare => h.referenced var known ?_
    simp only [not_or, not_exists] at spare
    refine ⟨spare.1, ?_⟩
    rw [h.trimmed.inputs, h.trimmed.outputs]
    exact spare.2
  · rintro ⟨-, ⟨op, reads | produces⟩ | input | output⟩
    · exact linked.reads_known reads
    · exact linked.produces_known produces
    · exact linked.inputs_known var (h.trimmed.inputs ▸ input)
    · exact linked.outputs_known var (h.trimmed.outputs ▸ output)

theorem cleared : g.Cleared g' where
  operations _ := h.mem_operations
  getOperation? op hop := by rw [h.trimmed.operations, if_neg (h.trimmed.mem_operations.1 hop).2]
  vars _ := h.mem_vars
  getVariable? _ known := h.trimmed.getVariable?_eq h.before known
  inputs := h.trimmed.inputs
  outputs := h.trimmed.outputs

theorem count_eq : n = (g.operations.names.filter (· ∉ g'.operations)).length +
    (g.vars.names.filter (· ∉ g'.vars)).length := by
  have operations : ops.Perm (g.operations.names.filter (· ∉ g'.operations)) := by
    refine (List.perm_ext_iff_of_nodup h.ops_nodup (g.operations.names_nodup.filter _)).2 ?_
    intro op
    rw [List.mem_filter, NameMap.mem_names, decide_eq_true_eq, h.trimmed.mem_operations]
    have known := h.ops_known op
    tauto
  have vars : vars.Perm (g.vars.names.filter (· ∉ g'.vars)) := by
    refine (List.perm_ext_iff_of_nodup h.vars_nodup (g.vars.names_nodup.filter _)).2 ?_
    intro var
    rw [List.mem_filter, NameMap.mem_names, decide_eq_true_eq, h.trimmed.mem_vars]
    have known := h.vars_known var
    tauto
  rw [h.count, operations.length_eq, vars.length_eq]

end PrunedBy

end Rewrite

variable [Scalar α]

/-- Isolated nodes are removed without fail, and nothing else is. The result counts the operations
and variables that have gone. -/
theorem isolated_clears (reachable : Reachable g) (events : List Event) :
    ∃ n later, process .isolated ⟨g, events⟩ = .ok n later ∧ g.Cleared later.state ∧
      n = (g.operations.names.filter (· ∉ later.state.operations)).length +
        (g.vars.names.filter (· ∉ later.state.vars)).length := by
  have leads : Task.Leads (process .isolated) g fun n g' =>
      ∃ ops vars, Rewrite.PrunedBy n g g' ops vars :=
    process_leads_of_rewrite (Rewrite.isolated_prunes reachable.linked)
  obtain ⟨n, g', later, run, ops, vars, pruned⟩ := leads events
  exact ⟨n, ⟨g', later⟩, run, pruned.cleared, pruned.count_eq⟩

def liveBranch : Document Float32 where
  name := "net"
  inputs := ["x"]
  outputs := ["y"]
  vars := [⟨"x", none, false⟩, ⟨"w", some ⟨[], .floats [3]⟩, true⟩, ⟨"y", none, false⟩]
  operations := [⟨"mul", "Mul", ∅, ["x", "w"], ["y"], .unspecified⟩]

/-- Two operations and three variables that the output does not depend on. The variable `x` also
feeds one of them. -/
def deadBranch : Document Float32 := { liveBranch with
  vars := liveBranch.vars ++
    [⟨"dead_w", some ⟨[], .floats [1]⟩, true⟩, ⟨"d1", none, false⟩, ⟨"d2", none, false⟩]
  operations := liveBranch.operations ++
    [⟨"dead_a", "Add", ∅, ["x", "dead_w"], ["d1"], .unspecified⟩,
      ⟨"dead_b", "Relu", ∅, ["d1"], ["d2"], .unspecified⟩] }

theorem isolated_clears_deadBranch : ∃ events, deadBranch.build = .ok deadBranch.graph ∧
    process .isolated ⟨deadBranch.graph, []⟩ = .ok 5 ⟨liveBranch.graph, events⟩ ∧
    deadBranch.graph.Cleared liveBranch.graph := by
  have built : deadBranch.build = .ok deadBranch.graph := rfl
  have first : deadBranch.graph.upstream "mul" = [] := rfl
  have alive : reach deadBranch.graph.upstream ["dead_a", "dead_b", "mul"] ["mul"] = ["mul"] := by
    simp [reach, first]
  have dead : Rewrite.deadOperations deadBranch.graph = ["dead_a", "dead_b"] :=
    Rewrite.deadOperations_eq rfl rfl alive
  have five : Task.Leads (process .isolated) deadBranch.graph fun n h =>
      n = 5 ∧ h = liveBranch.graph :=
    process_leads_of_rewrite (c := .isolated)
      (Rewrite.isolated_leads_of rfl dead ⟨_, rfl, rfl, rfl⟩)
  obtain ⟨_, _, events, run, rfl, rfl⟩ := five []
  obtain ⟨_, _, run', cleared, -⟩ := isolated_clears ⟨_, [], .built built, rfl⟩ []
  cases run.symm.trans run'
  exact ⟨events, built, run, cleared⟩

end GraphDispatch
