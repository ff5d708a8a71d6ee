import GraphDispatch.Proofs.Documents.Buildable
import GraphDispatch.Proofs.Links.Live

/-!
# Documents of graphs build the graphs again

A document leaves the links out. Building it adds the operations in the order of their
names and finds every link again, as a linked graph is determined by its content.
-/

namespace GraphDispatch

variable {α : Type} {g : Graph α}

open GraphDispatch.Graph

theorem foldl_addOnce {l names : List String} (nodup : (names ++ l).Nodup) :
    l.foldl (fun names var => Edit.addOnce var names) names = names ++ l := by
  induction l generalizing names with
  | nil => simp
  | cons var l ih =>
    have fresh : var ∉ names := fun h =>
      (List.nodup_append'.1 nodup).2.2 h List.mem_cons_self
    have added : Edit.addOnce var names = names ++ [var] := if_neg fresh
    rw [List.foldl_cons, added, ih (by simpa using nodup), List.append_assoc, List.singleton_append]

namespace Graph.Linked

theorem mem_values (hg : g.Linked) {o : Operation α} :
    o ∈ g.operations.values ↔ g.getOperation? o.name = some o := by
  rw [NameMap.mem_values]
  exact ⟨by rintro ⟨op, ho⟩; rwa [hg.operation_name ho], fun ho => ⟨o.name, ho⟩⟩

theorem mem_vars_values (hg : g.Linked) {v : Variable α} :
    v ∈ g.vars.values ↔ g.getVariable? v.name = some v := by
  rw [NameMap.mem_values]
  exact ⟨by rintro ⟨var, hv⟩; rwa [hg.variable_name hv], fun hv => ⟨v.name, hv⟩⟩

/-- What has a value is a parameter already. -/
theorem stored_declaration (hg : g.Linked) {var : String} {v : Variable α}
    (hv : g.getVariable? var = some v) : v.declaration.stored = v.declaration := by
  have parameter := hg.parameter_of_value hv
  cases h : v.value.isSome with
  | true => simp [Declaration.stored, Variable.declaration, h, parameter h]
  | false => simp [Declaration.stored, Variable.declaration, h]

theorem live_iff (hg : g.Linked) : g.Live ↔ ∀ var v, g.getVariable? var = some v →
    v.producer.isSome → v.isParameter = false := by
  constructor
  · intro live var v hv made
    obtain ⟨op, hop⟩ := Option.isSome_iff_exists.1 made
    obtain ⟨o, ho, hvar⟩ := (hg.producer_iff hv op).1 hop
    exact live.active ho hvar (d := v.declaration) (by rw [get?_declarations, hv, Option.map_some])
  · intro plain
    refine ⟨hg, ?_⟩
    intro op o var d ho hvar hd
    rw [get?_declarations] at hd
    obtain ⟨v, hv, rfl⟩ := Option.map_eq_some_iff.1 hd
    exact plain var v hv (Option.isSome_iff_exists.2 ⟨op, (hg.producer_iff hv op).2 ⟨o, ho, hvar⟩⟩)

end Graph.Linked

namespace Document

theorem vars_names_ofGraph (hg : g.Linked) :
    (ofGraph g).vars.map (·.name) = g.vars.names := List.map_map.trans hg.vars_names

theorem vars_nodup_ofGraph (hg : g.Linked) : ((ofGraph g).vars.map (·.name)).Nodup := by
  rw [vars_names_ofGraph hg]
  exact g.vars.names_nodup

theorem operations_nodup_ofGraph (hg : g.Linked) :
    ((ofGraph g).operations.map (·.name)).Nodup := by
  rw [ofGraph, hg.values_names]
  exact g.operations.names_nodup

/-- A document holds all of the content. -/
theorem content_ofGraph (hg : g.Linked) : (ofGraph g).content = g.content := by
  have operations : (ofGraph g).content.operations = g.operations := by
    refine NameMap.ext_get? fun op => Option.ext fun o => ?_
    rw [get?_content_operations (operations_nodup_ofGraph hg), ofGraph, hg.mem_values]
    constructor
    · rintro ⟨ho, rfl⟩
      exact ho
    · intro ho
      have own := hg.operation_name ho
      exact ⟨own.symm ▸ ho, own⟩
  have declarations : (ofGraph g).content.declarations = g.content.declarations := by
    refine NameMap.ext_get? fun var => Option.ext fun d => ?_
    rw [get?_content_declarations (vars_nodup_ofGraph hg), get?_declarations,
      Option.map_eq_some_iff]
    constructor
    · rintro ⟨d', hd', rfl, rfl⟩
      obtain ⟨v, hv, rfl⟩ := List.mem_map.1 hd'
      have found := hg.mem_vars_values.1 hv
      exact ⟨v, found, (hg.stored_declaration found).symm⟩
    · rintro ⟨v, hv, rfl⟩
      have stored := hg.variable_name hv
      exact ⟨v.declaration, List.mem_map.2 ⟨v, hg.mem_vars_values.2 (stored ▸ hv), rfl⟩, stored,
        hg.stored_declaration hv⟩
  have inputs : (ofGraph g).content.inputs = g.inputs := foldl_addOnce hg.inputs_nodup
  have outputs : (ofGraph g).content.outputs = g.outputs := foldl_addOnce hg.graphOutputs_nodup
  change Content.mk g.name _ _ _ _ = Content.mk g.name _ _ _ _
  congr

theorem buildable_ofGraph (hg : g.Live) : (ofGraph g).Buildable := by
  have declared : ∀ var, var ∈ g.vars → var ∈ (ofGraph g).vars.map (·.name) := fun var hvar => by
    rw [vars_names_ofGraph hg.linked]
    exact NameMap.mem_names.2 hvar
  have found : ∀ o ∈ (ofGraph g).operations, g.getOperation? o.name = some o :=
    fun o => hg.linked.mem_values.1
  constructor
  case vars_nodup => exact vars_nodup_ofGraph hg.linked
  case operations_nodup => exact operations_nodup_ofGraph hg.linked
  case slots_declared =>
    intro o ho var hvar
    apply declared
    exact (List.mem_append.1 hvar).elim (hg.linked.input_known (found o ho))
      (hg.linked.output_known (found o ho))
  case interface_declared =>
    intro var hvar
    apply declared
    exact (List.mem_append.1 hvar).elim (hg.linked.inputs_known var) (hg.linked.outputs_known var)
  case produced_once =>
    rw [List.nodup_flatMap]
    refine ⟨fun o ho => hg.linked.outputs_nodup (found o ho), ?_⟩
    refine (List.pairwise_map.1 (operations_nodup_ofGraph hg.linked)).imp_of_mem ?_
    intro p q hp hq apart var made made'
    exact apart (hg.linked.produces_unique ⟨p, found p hp, made⟩ ⟨q, found q hq, made'⟩)
  case outputs_plain =>
    intro o ho d hd made
    obtain ⟨v, hv, rfl⟩ := List.mem_map.1 hd
    have known := hg.linked.mem_vars_values.1 hv
    have plain : v.isParameter = false := hg.active (found o ho) made
      (by rw [get?_declarations, known, Option.map_some])
    refine ⟨plain, Option.eq_none_iff_forall_ne_some.2 fun t value => ?_⟩
    have parameter := hg.linked.parameter_of_value known (Option.isSome_iff_exists.2 ⟨t, value⟩)
    rw [plain] at parameter
    cases parameter

theorem build_ofGraph (hg : g.Live) : (ofGraph g).build = .ok g :=
  build_eq_ok_iff.2 ⟨buildable_ofGraph hg, hg.linked, (content_ofGraph hg.linked).symm⟩

end Document

variable [Scalar α]

theorem Graph.Live.performAll (hg : g.Live) {passes : List (Action α)}
    (h : ∀ a ∈ passes, a.isPass = true) : (GraphDispatch.performAll g passes).Live :=
  performAll_keeps_of_passes (Edit.workStable_live.process_of_batchNorms Rewrite.batchNorms_live)
    Edit.dispatchStable_live.insertSwitches Edit.dispatchStable_live.run h hg

/-- A graph without produced parameters is built from its document again, as is whatever passes
and dispatches make of the graph of a document, also where they fail. -/
theorem rebuilt_from_document :
    (∀ g : Graph α, Reachable g → (∀ var v, g.getVariable? var = some v → v.producer.isSome →
      v.isParameter = false) → (Document.ofGraph g).build = .ok g) ∧
    ∀ (d : Document α) (g : Graph α), d.build = .ok g → ∀ passes : List (Action α),
      (∀ a ∈ passes, a.isPass = true) →
        (Document.ofGraph (performAll g passes)).build = .ok (performAll g passes) := by
  constructor
  · intro g reachable plain
    exact Document.build_ofGraph (reachable.linked.live_iff.2 plain)
  · intro d g built passes h
    exact Document.build_ofGraph ((live_of_build built).performAll h)

theorem rebuilt_from_document_convChain : ∃ g : Graph Float32,
    (Document.convChain 1).build = .ok g ∧ (Document.ofGraph g).build = .ok g ∧
    (Document.ofGraph (performAll g [.process .isolated, .insertSwitches])).build =
      .ok (performAll g [.process .isolated, .insertSwitches]) := by
  obtain ⟨g, built⟩ := Document.Buildable.builds
    (show (Document.convChain 1 : Document Float32).Buildable by decide)
  have live := live_of_build built
  obtain ⟨rebuilt, worked⟩ := rebuilt_from_document (α := Float32)
  exact ⟨g, built, rebuilt g ⟨g, [], .built built, rfl⟩ (live.linked.live_iff.1 live),
    worked _ g built _ (by decide)⟩

end GraphDispatch
