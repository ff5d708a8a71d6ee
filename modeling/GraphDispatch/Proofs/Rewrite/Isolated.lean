import GraphDispatch.Proofs.Lists
import GraphDispatch.Proofs.Reach
import GraphDispatch.Proofs.Rewrite.Basic
import GraphDispatch.Rewrite.Isolated

/-!
# Isolated nodes are removed
-/

namespace GraphDispatch.Rewrite

open GraphDispatch.Graph

variable {α : Type} {g g' g'' : Graph α} {ops vars : List String}

/-- `g'` is `g` without the operations `ops` and the variables `vars`. -/
structure Trimmed (g g' : Graph α) (ops vars : List String) : Prop where
  linked : g'.Linked
  operations : ∀ n, g'.getOperation? n = if n ∈ ops then none else g.getOperation? n
  declarations : ∀ n, g'.content.declarations.get? n =
    if n ∈ vars then none else g.content.declarations.get? n
  inputs : g'.inputs = g.inputs
  outputs : g'.outputs = g.outputs

namespace Trimmed

theorem refl (hg : g.Linked) : Trimmed g g [] [] where
  linked := hg
  operations _ := (if_neg List.not_mem_nil).symm
  declarations _ := (if_neg List.not_mem_nil).symm
  inputs := rfl
  outputs := rfl

theorem trans {ops' vars' : List String} (first : Trimmed g g' ops vars)
    (second : Trimmed g' g'' ops' vars') : Trimmed g g'' (ops ++ ops') (vars ++ vars') where
  linked := second.linked
  operations n := by
    rw [second.operations, first.operations]
    by_cases hn : n ∈ ops <;> simp [hn]
  declarations n := by
    rw [second.declarations, first.declarations]
    by_cases hn : n ∈ vars <;> simp [hn]
  inputs := second.inputs.trans first.inputs
  outputs := second.outputs.trans first.outputs

variable (h : Trimmed g g' ops vars)
include h

theorem reads_iff {n var : String} : g'.Reads n var ↔ n ∉ ops ∧ g.Reads n var := by
  unfold Reads
  rw [h.operations]
  by_cases hn : n ∈ ops <;> simp [hn]

theorem produces_iff {n var : String} : g'.Produces n var ↔ n ∉ ops ∧ g.Produces n var := by
  unfold Produces
  rw [h.operations]
  by_cases hn : n ∈ ops <;> simp [hn]

theorem mem_vars {var : String} : var ∈ g'.vars ↔ var ∈ g.vars ∧ var ∉ vars := by
  rw [← mem_declarations, NameMap.mem_iff, h.declarations, ← mem_declarations, NameMap.mem_iff]
  by_cases gone : var ∈ vars <;> simp [gone]

end Trimmed

theorem removeOperations_runs (hg : g.Linked) (nodup : ops.Nodup)
    (known : ∀ op ∈ ops, op ∈ g.operations) :
    ∃ h, (ops.forM fun op => discard (Edit.removeOperation op)) g = .ok () h ∧
      Trimmed g h ops [] := by
  induction ops generalizing g with
  | nil => exact ⟨g, rfl, .refl hg⟩
  | cons op ops ih =>
    obtain ⟨absent, nodup⟩ := List.nodup_cons.1 nodup
    obtain ⟨o, ho⟩ := mem_operations_iff.1 (known op List.mem_cons_self)
    obtain ⟨h, run, linked, content⟩ := Edit.removeOperation_yields hg ho
    have operations : h.operations = g.operations.erase op := congrArg Content.operations content
    have first : Trimmed g h [op] [] := by
      refine ⟨linked, fun n => ?_, fun n => ?_, ?_, ?_⟩
      · rw [getOperation?, operations, NameMap.get?_erase]
        simp only [List.mem_singleton]
        rfl
      · rw [content]
        exact (if_neg List.not_mem_nil).symm
      · exact congrArg Content.inputs content
      · exact congrArg Content.outputs content
    have rest : ∀ n ∈ ops, n ∈ h.operations := fun n hn => operations ▸ NameMap.mem_erase.2
      ⟨fun same => absent (same ▸ hn), known n (List.mem_cons_of_mem _ hn)⟩
    obtain ⟨k, run', second⟩ := ih linked nodup rest
    exact ⟨k, (bind_of_ok (discard_of_ok run)).trans run', first.trans second⟩

/-- No slot and no list of the interface names the variable. -/
def Unreferenced (g : Graph α) (var : String) : Prop :=
  Edit.Unlinked g var ∧ var ∉ g.inputs ∧ var ∉ g.outputs

/-- Without a change of operations. -/
theorem Trimmed.unreferenced_iff (h : Trimmed g g' [] vars) {var : String} :
    Unreferenced g' var ↔ Unreferenced g var := by
  unfold Unreferenced Edit.Unlinked
  simp [h.reads_iff, h.produces_iff, h.inputs, h.outputs]

theorem mem_unreferenced (hg : g.Linked) {var : String} :
    var ∈ unreferenced g ↔ var ∈ g.vars ∧ Unreferenced g var := by
  have unlinked : ∀ {v : Variable α}, g.getVariable? var = some v →
      (v.producer.isNone = true ∧ v.consumers.isEmpty = true ↔ Edit.Unlinked g var) := by
    intro v hv
    rw [Option.isNone_iff_eq_none, List.isEmpty_iff, Edit.unlinked_iff hg hv]
  unfold unreferenced Unreferenced
  simp only [List.mem_map, List.mem_filter, NameMap.mem_values, Bool.and_eq_true,
    Bool.not_eq_true', List.contains_eq_mem, decide_eq_false_iff_not]
  constructor
  · rintro ⟨v, ⟨⟨n, hv⟩, ⟨spare, input⟩, output⟩, rfl⟩
    have name : v.name = n := hg.variable_name hv
    have hv : g.getVariable? v.name = some v := name ▸ hv
    exact ⟨mem_vars_iff.2 ⟨v, hv⟩, (unlinked hv).1 spare, input, output⟩
  · rintro ⟨known, spare, input, output⟩
    obtain ⟨v, hv⟩ := mem_vars_iff.1 known
    have name : v.name = var := hg.variable_name hv
    exact ⟨v, ⟨⟨var, hv⟩, ⟨(unlinked hv).2 spare, name ▸ input⟩, name ▸ output⟩, name⟩

/-- Without a variable that the interface does not name. -/
theorem trimmed_of_erase {var : String} (linked : g'.Linked)
    (unnamed : var ∉ g.inputs ∧ var ∉ g.outputs) (content : g'.content = { g.content with
      inputs := g.inputs.filter (· ≠ var)
      outputs := g.outputs.filter (· ≠ var)
      declarations := g.content.declarations.erase var }) : Trimmed g g' [] [var] := by
  have operations : g'.operations = g.operations := congrArg Content.operations content
  refine ⟨linked, fun n => ?_, fun n => ?_, ?_, ?_⟩
  · rw [getOperation?, operations]
    exact (if_neg List.not_mem_nil).symm
  · rw [content, NameMap.get?_erase]
    simp only [List.mem_singleton]
  · exact (congrArg Content.inputs content).trans (filter_ne_of_not_mem unnamed.1)
  · exact (congrArg Content.outputs content).trans (filter_ne_of_not_mem unnamed.2)

theorem removeVariables_runs (hg : g.Linked) (nodup : vars.Nodup)
    (spare : ∀ var ∈ vars, var ∈ g.vars ∧ Unreferenced g var) :
    ∃ h, (vars.forM fun var => discard (Edit.removeVariable var)) g = .ok () h ∧
      Trimmed g h [] vars := by
  induction vars generalizing g with
  | nil => exact ⟨g, rfl, .refl hg⟩
  | cons var vars ih =>
    obtain ⟨absent, nodup⟩ := List.nodup_cons.1 nodup
    obtain ⟨known, unlinked, unnamed⟩ := spare var List.mem_cons_self
    obtain ⟨v, h, run, linked, content⟩ := Edit.removeVariable_yields hg known unlinked
    have first : Trimmed g h [] [var] := trimmed_of_erase linked unnamed content
    have rest : ∀ n ∈ vars, n ∈ h.vars ∧ Unreferenced h n := by
      intro n hn
      obtain ⟨known, unreferenced⟩ := spare n (List.mem_cons_of_mem _ hn)
      refine ⟨first.mem_vars.2 ⟨known, fun same => ?_⟩, first.unreferenced_iff.2 unreferenced⟩
      exact absent (List.mem_singleton.1 same ▸ hn)
    obtain ⟨k, run', second⟩ := ih linked nodup rest
    exact ⟨k, (bind_of_ok (discard_of_ok run)).trans run', first.trans second⟩

/-- The operations that the graph outputs depend on. -/
theorem mem_contributing_of_produces (hg : g.Linked) {op var : String} (returned : var ∈ g.outputs)
    (produces : g.Produces op var) : op ∈ contributing g := by
  apply mem_reach.2
  obtain ⟨o, ho, -⟩ := id produces
  refine .start (List.mem_filterMap.2 ⟨var, returned, hg.producer?_eq_some.2 produces⟩) ?_
  exact NameMap.mem_names.2 (mem_operations_iff.2 ⟨o, ho⟩)

theorem mem_contributing_of_feeds {p q : String} (hg : g.Linked) (edge : g.Feeds p q)
    (contributes : q ∈ contributing g) : p ∈ contributing g := by
  obtain ⟨var, ⟨o, ho, -⟩, -⟩ := hg.feeds_iff.1 edge
  apply mem_reach.2
  exact .step (mem_reach.1 contributes) edge (NameMap.mem_names.2 (mem_operations_iff.2 ⟨o, ho⟩))

/-- What goes contributes to no output, and then nothing refers to it. What stays contributes,
unless there is no output, and something refers to it. -/
structure Pruned (g g' : Graph α) (ops vars : List String) : Prop where
  before : g.Linked
  trimmed : Trimmed g g' ops vars
  dead : ∀ op ∈ ops, op ∉ contributing g
  alive : g.outputs = [] ∧ ops = [] ∨ ∀ op ∈ g.operations, op ∉ ops → op ∈ contributing g
  unread : ∀ var ∈ vars, ∀ op ∉ ops, ¬g.Reads op var
  unreturned : ∀ var ∈ vars, var ∉ g.outputs
  referenced : ∀ var ∈ g'.vars, ¬Unreferenced g' var

/-- Moreover `n` counts what has gone, and a graph without outputs keeps its operations. -/
structure PrunedBy (n : Nat) (g g' : Graph α) (ops vars : List String) : Prop
    extends Pruned g g' ops vars where
  count : n = ops.length + vars.length
  ops_nodup : ops.Nodup
  vars_nodup : vars.Nodup
  ops_known : ∀ op ∈ ops, op ∈ g.operations
  vars_known : ∀ var ∈ vars, var ∈ g.vars
  spares : g.outputs = [] → ops = []

theorem unreferenced_nodup (hg : g.Linked) : (unreferenced g).Nodup := by
  have sublist : (unreferenced g).Sublist g.vars.names :=
    hg.vars_names ▸ List.filter_sublist.map _
  exact g.vars.names_nodup.sublist sublist

theorem isolated_prunes (hg : g.Linked) :
    Task.Leads isolated g fun n g' => ∃ ops vars, PrunedBy n g g' ops vars := by
  have rest : ∀ ops : List String, ops.Nodup →
      (∀ op ∈ ops, op ∈ g.operations ∧ op ∉ contributing g) →
      (g.outputs = [] ∧ ops = [] ∨
        g.outputs ≠ [] ∧ ∀ op ∈ g.operations, op ∉ ops → op ∈ contributing g) →
      Task.Leads (do
        edit (ops.forM fun op => discard (Edit.removeOperation op))
        let unused := unreferenced (← Task.state)
        edit (unused.forM fun var => discard (Edit.removeVariable var))
        return ops.length + unused.length : Rewrite α Nat) g
        fun n g' => ∃ ops vars, PrunedBy n g g' ops vars := by
    intro ops nodup dead alive
    obtain ⟨h, removed, first⟩ := removeOperations_runs hg nodup fun op hop => (dead op hop).1
    refine Task.leads_edit_bind removed (Task.leads_state_bind ?_)
    have unused : ∀ var ∈ unreferenced h, var ∈ h.vars ∧ Unreferenced h var :=
      fun var hvar => (mem_unreferenced first.linked).1 hvar
    have unused_nodup := unreferenced_nodup first.linked
    obtain ⟨g', dropped, second⟩ := removeVariables_runs first.linked unused_nodup unused
    refine Task.leads_edit_bind dropped (Task.leads_pure ⟨ops, unreferenced h, ?_⟩)
    constructor
    case count => rfl
    case ops_nodup => exact nodup
    case vars_nodup => exact unused_nodup
    case ops_known => exact fun op hop => (dead op hop).1
    case vars_known => exact fun var hvar => (first.mem_vars.1 (unused var hvar).1).1
    case spares => exact fun none => (alive.resolve_right fun some => some.1 none).2
    constructor
    case before => exact hg
    case dead => exact fun op hop => (dead op hop).2
    case alive => exact alive.imp_right fun some => some.2
    case trimmed =>
      have both := first.trans second
      rw [List.append_nil, List.nil_append] at both
      exact both
    case unread =>
      intro var hvar op hop reads
      exact ((unused var hvar).2.1 op).1 (first.reads_iff.2 ⟨hop, reads⟩)
    case unreturned =>
      intro var hvar
      rw [← first.outputs]
      exact (unused var hvar).2.2.2
    case referenced =>
      intro var known spare
      obtain ⟨present, kept⟩ := second.mem_vars.1 known
      exact kept ((mem_unreferenced first.linked).2 ⟨present, second.unreferenced_iff.1 spare⟩)
  unfold isolated
  apply Task.leads_state_bind
  dsimp only
  split
  · rename_i empty
    refine Task.leads_note_bind (rest [] .nil (fun op hop => absurd hop List.not_mem_nil) ?_)
    exact Or.inl ⟨List.isEmpty_iff.1 empty, rfl⟩
  · rename_i some
    refine rest (deadOperations g) (g.operations.names_nodup.filter _) (fun op hop => ?_)
      (Or.inr ⟨fun none => some (List.isEmpty_iff.2 none), fun op hop alive => ?_⟩)
    · obtain ⟨known, dead⟩ := List.mem_filter.1 hop
      exact ⟨NameMap.mem_names.1 known, of_decide_eq_true dead⟩
    · refine Decidable.byContradiction fun dead => alive ?_
      exact List.mem_filter.2 ⟨NameMap.mem_names.2 hop, decide_eq_true dead⟩

theorem deadOperations_eq {names roots alive : List String} (known : g.operations.names = names)
    (last : g.outputs.filterMap g.producer? = roots)
    (reached : reach g.upstream names roots = alive) :
    deadOperations g = names.filter (· ∉ alive) := by
  rw [deadOperations, contributing, known, last, reached]

/-- The removal in its two parts. The variables are looked for when the operations are gone. -/
theorem isolated_leads_of (returned : g.outputs.isEmpty = false) (dead : deadOperations g = ops)
    (run : ∃ h, (ops.forM fun op => discard (Edit.removeOperation op)) g = .ok () h ∧
      unreferenced h = vars ∧
      (vars.forM fun var => discard (Edit.removeVariable var)) h = .ok () g') :
    Task.Leads isolated g fun n h => n = ops.length + vars.length ∧ h = g' := by
  obtain ⟨h, cut, rfl, dropped⟩ := run
  subst dead
  unfold isolated
  apply Task.leads_state_bind
  dsimp only
  rw [returned, if_neg Bool.false_ne_true, pure_bind]
  refine Task.leads_edit_bind cut (Task.leads_state_bind (Task.leads_edit_bind dropped ?_))
  exact Task.leads_pure ⟨rfl, rfl⟩

theorem isolated_ensures (hg : g.Linked) :
    Task.Ensures isolated g fun _ g' => ∃ ops vars, Pruned g g' ops vars := by
  refine (isolated_prunes hg).ensures.mono fun n g' done => ?_
  obtain ⟨ops, vars, pruned⟩ := done
  exact ⟨ops, vars, pruned.toPruned⟩

namespace Pruned

variable (h : Pruned g g' ops vars)
include h

/-- What a removed operation feeds is removed too. -/
theorem closed {p q : String} (edge : g.Feeds p q) (gone : p ∈ ops) : q ∈ ops := by
  rcases h.alive with ⟨-, none⟩ | alive
  · rw [none] at gone
    cases gone
  · refine Decidable.byContradiction fun stays => h.dead p gone ?_
    obtain ⟨-, -, o, ho, -⟩ := h.before.feeds_iff.1 edge
    exact mem_contributing_of_feeds h.before edge (alive q (mem_operations_iff.2 ⟨o, ho⟩) stays)

theorem contributes {op : String} (contributes : op ∈ contributing g) : op ∈ contributing g' := by
  have kept : ∀ {n}, n ∈ contributing g → n ∉ ops := fun hn dead => h.dead _ dead hn
  have reached := mem_reach.1 contributes
  induction reached with
  | @start n starts _ =>
    obtain ⟨var, returned, producer⟩ := List.mem_filterMap.1 starts
    have produces := h.before.producer?_eq_some.1 producer
    have produces' := h.trimmed.produces_iff.2
      ⟨kept (mem_contributing_of_produces h.before returned produces), produces⟩
    exact mem_contributing_of_produces h.trimmed.linked (h.trimmed.outputs ▸ returned) produces'
  | @step m n reached edge fresh ih =>
    have reader := mem_reach.2 reached
    have edge : g.Feeds n m := edge
    obtain ⟨var, produces, reads⟩ := h.before.feeds_iff.1 edge
    have edge' : g'.Feeds n m := h.trimmed.linked.feeds_iff.2 ⟨var,
      h.trimmed.produces_iff.2 ⟨kept (mem_contributing_of_feeds h.before edge reader), produces⟩,
      h.trimmed.reads_iff.2 ⟨kept reader, reads⟩⟩
    exact mem_contributing_of_feeds h.trimmed.linked edge' (ih reader)

end Pruned

end GraphDispatch.Rewrite
