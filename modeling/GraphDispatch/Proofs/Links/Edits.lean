import GraphDispatch.Proofs.Links.Relink

/-!
# What edits do to linked graphs

Each edit has a condition. Where it holds, a linked graph becomes a linked graph
of a known content; where it does not, the edit refuses and the graph is as before.
-/

namespace GraphDispatch

variable {α β : Type}

namespace Edit

/-- The edit succeeds and leaves a linked graph of the given content. -/
def Yields (m : Edit α β) (g : Graph α) (b : β) (c : Content α) : Prop :=
  ∃ g', m g = .ok b g' ∧ g'.Linked ∧ g'.content = c

/-- The edit fails and leaves the graph alone. -/
def Refuses (m : Edit α β) (g : Graph α) : Prop := ∃ e, m g = .error e g

end Edit

variable {g : Graph α}

/-- A new variable without links. -/
theorem Graph.Linked.putVariable (hg : g.Linked) {v : Variable α} (fresh : v.name ∉ g.vars)
    (unlinked : v.producer = none ∧ v.consumers = [])
    (parameter : v.value.isSome → v.isParameter = true) : (g.putVariable v).Linked := by
  have absent : g.getVariable? v.name = none := NameMap.get?_eq_none_iff.2 fresh
  refine hg.revalue rfl rfl rfl (fun n hn => NameMap.mem_insert.2 (Or.inr hn)) fun n w hw => ?_
  rw [Graph.getVariable?_putVariable] at hw
  split at hw
  · cases hw
    rename_i hn
    subst hn
    exact ⟨rfl, parameter, by simp [Graph.producer?, absent, unlinked.1],
      by simp [Graph.consumersOf, absent, unlinked.2]⟩
  · exact hg.variable_links hw

namespace Edit

section Variables

variable {var : String} {value : Option (Tensor α)}

theorem createVariable_yields (hg : g.Linked) (h : var ∉ g.vars) :
    Yields (createVariable var value) g ⟨var, value, value.isSome, none, []⟩
      { g.content with
        declarations := g.content.declarations.insert var ⟨var, value, value.isSome⟩ } := by
  have fresh : g.vars.contains var = false := NameMap.contains_eq_false_iff.2 h
  refine ⟨g.putVariable ⟨var, value, value.isSome, none, []⟩, ?_,
    hg.putVariable h ⟨rfl, rfl⟩ id, ?_⟩
  · simp only [createVariable, run_bind, run_get, run_require, run_modify, run_pure, fresh,
      Bool.not_false, if_true]
  · simp [Graph.content, Graph.putVariable, NameMap.mapEntries_insert, Variable.declaration]

theorem createVariable_refuses (h : var ∈ g.vars) : Refuses (createVariable var value) g := by
  have known : g.vars.contains var = true := h
  exact ⟨.variableExists var, by
    simp only [createVariable, run_bind, run_get, run_require, known, Bool.not_true,
      Bool.false_eq_true, if_false]⟩

/-- No slot of an operation names the variable. -/
def Unlinked (g : Graph α) (var : String) : Prop := ∀ op, ¬g.Reads op var ∧ ¬g.Produces op var

theorem unlinked_iff (hg : g.Linked) {v : Variable α} (hv : g.getVariable? var = some v) :
    Unlinked g var ↔ v.producer = none ∧ v.consumers = [] := by
  rw [Option.eq_none_iff_forall_not_mem, List.eq_nil_iff_forall_not_mem]
  simp only [Option.mem_def, hg.producer_iff hv, hg.mem_consumers hv]
  exact ⟨fun h => ⟨fun op => (h op).2, fun op => (h op).1⟩, fun h op => ⟨h.2 op, h.1 op⟩⟩

theorem removeVariable_yields (hg : g.Linked) (known : var ∈ g.vars) (unlinked : Unlinked g var) :
    ∃ v, Yields (removeVariable var) g v { g.content with
      inputs := g.inputs.filter (· ≠ var)
      outputs := g.outputs.filter (· ≠ var)
      declarations := g.content.declarations.erase var } := by
  obtain ⟨v, hv⟩ := Graph.mem_vars_iff.1 known
  obtain ⟨producer, consumers⟩ := (unlinked_iff hg hv).1 unlinked
  have kept : ∀ {n}, n ∈ g.vars → n ≠ var → n ∈ g.vars.erase var :=
    fun hn hne => NameMap.mem_erase.2 ⟨hne, hn⟩
  have listed : ∀ {l : List String}, (∀ n ∈ l, n ∈ g.vars) →
      ∀ n ∈ l.filter (· ≠ var), n ∈ g.vars.erase var := by
    intro l known n hn
    obtain ⟨hn, hne⟩ := List.mem_filter.1 hn
    exact kept (known n hn) (of_decide_eq_true hne)
  refine ⟨v, { g with
    inputs := g.inputs.filter (· ≠ var)
    outputs := g.outputs.filter (· ≠ var)
    vars := g.vars.erase var }, ?_, ?_, ?_⟩
  · simp only [removeVariable, run_bind, run_get, hv, run_require, consumers, producer,
      Option.isNone_none, List.isEmpty_nil, Bool.and_self, if_true, run_modify, run_pure]
  · refine hg.redeclare rfl (fun n w hw => ?_) (fun op n hn => kept ?_ ?_)
      (listed hg.inputs_known) (listed hg.outputs_known)
      (hg.inputs_nodup.filter _) (hg.graphOutputs_nodup.filter _)
    · rw [Graph.getVariable?, NameMap.get?_erase] at hw
      split at hw
      · cases hw
      · exact hg.variable_links hw
    · exact hn.elim hg.reads_known hg.produces_known
    · rintro rfl
      exact hn.elim (unlinked op).1 (unlinked op).2
  · simp only [Graph.content, NameMap.mapEntries_erase]

theorem removeVariable_refuses (hg : g.Linked) (h : ¬(var ∈ g.vars ∧ Unlinked g var)) :
    Refuses (removeVariable var) g := by
  cases hv : g.getVariable? var with
  | none =>
    exact ⟨.removedUnknownVariable var, by
      simp only [removeVariable, run_bind, run_get, hv, run_throw]⟩
  | some v =>
    have linked : (v.producer.isNone && v.consumers.isEmpty) = false := by
      rw [Bool.eq_false_iff]
      intro unlinked
      rw [Bool.and_eq_true, Option.isNone_iff_eq_none, List.isEmpty_iff] at unlinked
      exact h ⟨Graph.mem_vars_iff.2 ⟨v, hv⟩, (unlinked_iff hg hv).2 unlinked⟩
    exact ⟨.variableInUse var, by
      simp only [removeVariable, run_bind, run_get, hv, run_require, linked, Bool.false_eq_true,
        if_false]⟩

theorem setValue_yields (hg : g.Linked) {value : Tensor α} (known : var ∈ g.vars)
    (unmade : ∀ op, ¬g.Produces op var) :
    Yields (setValue var value) g () { g.content with
      declarations := g.content.declarations.modify var
        fun d => { d with value := some value, isParameter := true } } := by
  obtain ⟨v, hv⟩ := Graph.mem_vars_iff.1 known
  have producer : v.producer = none :=
    Option.eq_none_iff_forall_not_mem.2 fun op hop => unmade op ((hg.producer_iff hv op).1 hop)
  refine ⟨g.modifyVariable var fun v => { v with value := some value, isParameter := true },
    ?_, ?_, ?_⟩
  · simp only [setValue, run_bind, run_getVariable, hv, run_require, producer,
      Option.isNone_none, if_true, updateVariable_ok known]
  · refine hg.revalue rfl rfl rfl (fun n hn => Graph.mem_vars_modifyVariable.2 hn) fun n w hw => ?_
    rw [Graph.getVariable?_modifyVariable] at hw
    split at hw
    · obtain ⟨u, hu, rfl⟩ := Option.map_eq_some_iff.1 hw
      obtain ⟨name, -, producer, consumers⟩ := hg.variable_links hu
      exact ⟨name, fun _ => rfl, producer, consumers⟩
    · exact hg.variable_links hw
  · simp only [Graph.content, Graph.modifyVariable, NameMap.modify, NameMap.mapEntries_mapEntries]
    congr 2
    funext n v
    split <;> rfl

theorem setValue_refuses (hg : g.Linked) {value : Tensor α}
    (h : ¬(var ∈ g.vars ∧ ∀ op, ¬g.Produces op var)) : Refuses (setValue var value) g := by
  cases hv : g.getVariable? var with
  | none => exact ⟨.unknownVariable var, by simp only [setValue, run_bind, run_getVariable, hv]⟩
  | some v =>
    have produced : v.producer.isNone = false := by
      rw [Bool.eq_false_iff]
      intro unmade
      refine h ⟨Graph.mem_vars_iff.2 ⟨v, hv⟩, fun op hop => ?_⟩
      rw [(hg.producer_iff hv op).2 hop] at unmade
      cases unmade
    exact ⟨.valueOfProduced var, by
      simp only [setValue, run_bind, run_getVariable, hv, run_require, produced,
        Bool.false_eq_true, if_false]⟩

end Variables

section Interface

variable {var : String}

theorem addOnce_nodup {l : List String} (h : l.Nodup) : (addOnce var l).Nodup := by
  unfold addOnce
  split
  · exact h
  · refine List.nodup_append.2 ⟨h, by simp, fun a ha b hb => ?_⟩
    rintro rfl
    exact absurd (List.mem_singleton.1 hb ▸ ha) ‹_›

theorem mem_addOnce {n : String} {l : List String} : n ∈ addOnce var l ↔ n = var ∨ n ∈ l := by
  unfold addOnce
  split
  · exact ⟨Or.inr, fun h => h.elim (fun hn => hn ▸ ‹_›) id⟩
  · simp [or_comm]

theorem markInput_yields (hg : g.Linked) (known : var ∈ g.vars) :
    Yields (markInput var) g () { g.content with inputs := addOnce var g.inputs } := by
  have contained : g.vars.contains var = true := known
  refine ⟨{ g with inputs := addOnce var g.inputs }, ?_, ?_, rfl⟩
  · simp only [markInput, run_bind, run_get, run_require, contained, if_true, run_modify]
  · refine hg.redeclare rfl (fun _ _ hv => hg.variable_links hv)
      (fun op n hn => hn.elim hg.reads_known hg.produces_known) (fun n hn => ?_)
      hg.outputs_known (addOnce_nodup hg.inputs_nodup) hg.graphOutputs_nodup
    exact (mem_addOnce.1 hn).elim (fun h => h ▸ known) (hg.inputs_known n)

theorem markInput_refuses (h : var ∉ g.vars) : Refuses (markInput var) g := by
  have unknown : g.vars.contains var = false := NameMap.contains_eq_false_iff.2 h
  exact ⟨.unknownGraphInput var, by
    simp only [markInput, run_bind, run_get, run_require, unknown, Bool.false_eq_true, if_false]⟩

theorem markOutput_yields (hg : g.Linked) (known : var ∈ g.vars) :
    Yields (markOutput var) g () { g.content with outputs := addOnce var g.outputs } := by
  have contained : g.vars.contains var = true := known
  refine ⟨{ g with outputs := addOnce var g.outputs }, ?_, ?_, rfl⟩
  · simp only [markOutput, run_bind, run_get, run_require, contained, if_true, run_modify]
  · refine hg.redeclare rfl (fun _ _ hv => hg.variable_links hv)
      (fun op n hn => hn.elim hg.reads_known hg.produces_known) hg.inputs_known (fun n hn => ?_)
      hg.inputs_nodup (addOnce_nodup hg.graphOutputs_nodup)
    exact (mem_addOnce.1 hn).elim (fun h => h ▸ known) (hg.outputs_known n)

theorem markOutput_refuses (h : var ∉ g.vars) : Refuses (markOutput var) g := by
  have unknown : g.vars.contains var = false := NameMap.contains_eq_false_iff.2 h
  exact ⟨.unknownGraphOutput var, by
    simp only [markOutput, run_bind, run_get, run_require, unknown, Bool.false_eq_true, if_false]⟩

end Interface

section Attributes

variable {op : String} {f : Operation α → Operation α}

/-- Changes of an operation beside its slots. -/
theorem updateOperation_yields (hg : g.Linked) (known : op ∈ g.operations)
    (same : ∀ o, (f o).name = o.name ∧ (f o).inputs = o.inputs ∧ (f o).outputs = o.outputs) :
    Yields (updateOperation op f) g ()
      { g.content with operations := g.operations.modify op f } := by
  obtain ⟨o, ho⟩ := Graph.mem_operations_iff.1 known
  refine ⟨_, updateOperation_ok known, ?_, rfl⟩
  have unchanged : (g.modifyOperation op f).mapVariables (fun _ v => v) = g.modifyOperation op f := by
    rw [Graph.mapVariables, NameMap.mapEntries_eq_self fun _ _ _ => rfl]
  rw [← unchanged]
  refine (hg.relinkInputs ho ⟨(same o).1, (same o).2.2⟩ ?_ fun var v hv => ?_).1
  · intro var hvar
    rw [(same o).2.1] at hvar
    exact hg.input_known ho hvar
  · refine ⟨v.consumers, rfl, hg.consumers_sorted hv, fun n => ?_⟩
    rw [(same o).2.1]
    split
    · rw [‹n = op›, hg.count_consumers hv, ho, Option.map_some, Option.getD_some]
    · rfl

theorem setAttribute_yields (hg : g.Linked) (known : op ∈ g.operations) (key : String)
    (value : Attribute α) :
    Yields (setAttribute op key value) g () { g.content with
      operations := g.operations.modify op
        fun o => { o with attributes := o.attributes.insert key value } } :=
  updateOperation_yields hg known fun _ => ⟨rfl, rfl, rfl⟩

theorem setPlatform_yields (hg : g.Linked) (known : op ∈ g.operations) (platform : Platform) :
    Yields (setPlatform op platform) g () { g.content with
      operations := g.operations.modify op fun o => { o with platform := platform } } :=
  updateOperation_yields hg known fun _ => ⟨rfl, rfl, rfl⟩

theorem removeAttribute_yields (hg : g.Linked) {o : Operation α}
    (ho : g.getOperation? op = some o) (key : String) :
    Yields (removeAttribute op key) g (o.attributes.get? key) { g.content with
      operations := g.operations.modify op
        fun o => { o with attributes := o.attributes.erase key } } := by
  obtain ⟨g', run, linked, content⟩ := updateOperation_yields hg
    (f := fun o => { o with attributes := o.attributes.erase key })
    (Graph.mem_operations_iff.2 ⟨o, ho⟩) fun _ => ⟨rfl, rfl, rfl⟩
  refine ⟨g', ?_, linked, content⟩
  simp only [removeAttribute, run_bind, run_getOperation, ho, run, run_pure]

theorem updateOperation_refuses (unknown : op ∉ g.operations) : Refuses (updateOperation op f) g :=
  ⟨_, updateOperation_error unknown⟩

theorem setAttribute_refuses (unknown : op ∉ g.operations) (key : String) (value : Attribute α) :
    Refuses (setAttribute op key value) g := updateOperation_refuses unknown

theorem setPlatform_refuses (unknown : op ∉ g.operations) (platform : Platform) :
    Refuses (setPlatform (α := α) op platform) g := updateOperation_refuses unknown

theorem removeAttribute_refuses (unknown : op ∉ g.operations) (key : String) :
    Refuses (removeAttribute op key) g := by
  have ho : g.getOperation? op = none := NameMap.get?_eq_none_iff.2 unknown
  exact ⟨.unknownOperation op, by simp only [removeAttribute, run_bind, run_getOperation, ho]⟩

end Attributes

end Edit

end GraphDispatch
