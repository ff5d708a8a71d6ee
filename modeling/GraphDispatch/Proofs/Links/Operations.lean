import GraphDispatch.Proofs.Links.Slots

/-!
# Edits of operations

Operations come and go with all their links.
-/

namespace GraphDispatch.Edit

variable {α : Type} {g : Graph α} {op : String}

/-- The variable `n` without its links to `o`, which is stored under `op`. -/
def unlinkedFrom (op : String) (o : Operation α) (n : String) (v : Variable α) : Variable α :=
  { v with
    producer := if n ∈ o.outputs then none else v.producer
    consumers := if n ∈ o.inputs then v.consumers.filter (· ≠ op) else v.consumers }

theorem removeOperation_run (hg : g.Linked) {o : Operation α} (ho : g.getOperation? op = some o) :
    removeOperation op g = .ok o (({ g with operations := g.operations.erase op } :
      Graph α).mapVariables (unlinkedFrom op o)) := by
  let detach (v : Variable α) : Variable α := { v with consumers := v.consumers.filter (· ≠ op) }
  let orphan (v : Variable α) : Variable α := { v with producer := none }
  have links : unlinkedFrom op o = fun n v =>
      Nat.repeat orphan (o.outputs.count n) (Nat.repeat detach (o.inputs.eraseDups.count n) v) := by
    funext n v
    rw [repeat_count_of_idempotent (f := orphan) fun _ => rfl,
      repeat_count_of_idempotent (f := detach) fun v => by simp [detach, List.filter_filter]]
    simp only [List.mem_eraseDups, unlinkedFrom]
    split <;> split <;> rfl
  have first := forM_updateVariable (f := detach) (g := { g with operations := g.operations.erase op })
    (l := o.inputs.eraseDups) fun n hn => hg.input_known ho (List.mem_eraseDups.1 hn)
  have second := forM_updateVariable (f := orphan)
    (g := ({ g with operations := g.operations.erase op } : Graph α).mapVariables fun n v =>
      Nat.repeat detach (o.inputs.eraseDups.count n) v)
    (l := o.outputs) fun n hn => NameMap.mem_mapEntries.2 (hg.output_known ho hn)
  rw [links]
  simp only [removeOperation, run_bind, run_get, ho, run_modify, detach, orphan] at first second ⊢
  simp only [first, second, run_pure, Graph.mapVariables_mapVariables]

theorem removeOperation_linked (hg : g.Linked) {o : Operation α}
    (ho : g.getOperation? op = some o) : (({ g with operations := g.operations.erase op } :
      Graph α).mapVariables (unlinkedFrom op o)).Linked := by
  have look : ∀ n, NameMap.get? (g.operations.erase op) n =
      if n = op then none else g.getOperation? n := NameMap.get?_erase _ _
  refine hg.relink rfl (fun _ _ _ => rfl) rfl rfl ?named ?known ?nodup ?sorted ?count ?producer
  case sorted =>
    intro n v hv
    have sorted := hg.consumers_sorted hv
    unfold unlinkedFrom
    dsimp only
    split
    · exact sorted.filter _
    · exact sorted
  case count =>
    intro n v hv m
    change List.count m (if n ∈ o.inputs then _ else _) =
      (Option.map _ ((g.operations.erase op).get? m)).getD 0
    rw [look]
    have counted := hg.count_consumers hv
    by_cases hm : m = op
    · subst hm
      rw [if_pos rfl]
      split
      · rw [count_filter_ne, if_pos rfl]
        rfl
      · rw [counted, ho]
        simpa [List.count_eq_zero] using ‹n ∉ o.inputs›
    · rw [if_neg hm]
      split
      · rw [count_filter_ne, if_neg hm, counted]
      · exact counted m
  case producer =>
    intro n v hv m
    change (if n ∈ o.outputs then none else v.producer) = some m ↔
      ∃ p, (g.operations.erase op).get? m = some p ∧ n ∈ p.outputs
    rw [look]
    have made := hg.producer_iff hv
    by_cases hn : n ∈ o.outputs
    · have mine : v.producer = some op := (made op).2 ⟨o, ho, hn⟩
      constructor
      · intro h
        simp [hn] at h
      · rintro ⟨p, hp, hnp⟩
        split at hp
        · cases hp
        · have := (made m).2 ⟨p, hp, hnp⟩
          rw [mine, Option.some.injEq] at this
          exact absurd this.symm ‹¬m = op›
    · rw [if_neg hn, made]
      by_cases hm : m = op
      · subst hm
        simp [ho, hn]
      · simp [hm]
  all_goals
    intro n p hp
    change (g.operations.erase op).get? n = some p at hp
    rw [look] at hp
    split at hp
    · cases hp
  case named => exact hg.operation_name hp
  case known =>
    intro var hvar
    exact (List.mem_append.1 hvar).elim (hg.input_known hp) (hg.output_known hp)
  case nodup => exact hg.outputs_nodup hp

theorem removeOperation_yields (hg : g.Linked) {o : Operation α}
    (ho : g.getOperation? op = some o) :
    Yields (removeOperation op) g o { g.content with operations := g.operations.erase op } :=
  ⟨_, removeOperation_run hg ho, removeOperation_linked hg ho,
    Graph.content_mapVariables (g := { g with operations := g.operations.erase op })
      fun _ _ _ => rfl⟩

theorem removeOperation_refuses (unknown : op ∉ g.operations) : Refuses (removeOperation op) g := by
  have ho : g.getOperation? op = none := NameMap.get?_eq_none_iff.2 unknown
  exact ⟨.removedUnknownOperation op, by
    simp only [removeOperation, run_bind, run_get, ho, run_throw]⟩

/-- A variable that a new operation may produce. -/
def Free (g : Graph α) (var : String) : Prop :=
  ∃ v, g.getVariable? var = some v ∧ v.producer = none ∧ v.isParameter = false

/-- The slots that a new operation may have. -/
structure Creatable (g : Graph α) (op : String) (inputs outputs : List String) : Prop where
  fresh : op ∉ g.operations
  inputs_known : ∀ var ∈ inputs, var ∈ g.vars
  outputs_free : ∀ var ∈ outputs, Free g var
  nodup : outputs.Nodup

theorem Free.known {var : String} (h : Free g var) : var ∈ g.vars := by
  obtain ⟨v, hv, -⟩ := h
  exact Graph.mem_vars_iff.2 ⟨v, hv⟩

theorem Free.unmade {var : String} (h : Free g var) (hg : g.Linked) (p : String) :
    ¬g.Produces p var := by
  obtain ⟨v, hv, free, -⟩ := h
  intro hp
  rw [(hg.producer_iff hv p).2 hp] at free
  cases free

theorem requireFreeOutput_ok {var : String} (h : Free g var) :
    requireFreeOutput op var g = .ok () g := by
  obtain ⟨v, hv, producer, parameter⟩ := h
  simp only [requireFreeOutput, run_bind, run_getVariable, hv, producer, parameter, run_require,
    Bool.not_false, if_true]

theorem requireFreeOutput_error {var : String} (h : ¬Free g var) :
    ∃ e, requireFreeOutput op var g = .error e g := by
  cases hv : g.getVariable? var with
  | none =>
    exact ⟨.unknownVariable var, by simp only [requireFreeOutput, run_bind, run_getVariable, hv]⟩
  | some v =>
    cases producer : v.producer with
    | some p =>
      exact ⟨.alreadyProduced var p op, by
        simp only [requireFreeOutput, run_bind, run_getVariable, hv, producer, run_throw]⟩
    | none =>
      cases parameter : v.isParameter with
      | false => exact absurd ⟨v, hv, producer, parameter⟩ h
      | true =>
        exact ⟨.producedParameter var op, by
          simp only [requireFreeOutput, run_bind, run_getVariable, hv, producer, parameter,
            run_require, Bool.not_true, Bool.false_eq_true, if_false]⟩

section Create

variable {type : String} {attributes : NameMap (Attribute α)} {inputs outputs : List String}

theorem declared_check (op : String) (vars : List String) :
    ((∀ var ∈ vars, var ∈ g.vars) → (vars.forM fun var => do
        require ((← get).vars.contains var) (.undeclaredVariable op var) : Edit α Unit) g =
      .ok () g) ∧
    ((¬∀ var ∈ vars, var ∈ g.vars) → ∃ e, (vars.forM fun var => do
        require ((← get).vars.contains var) (.undeclaredVariable op var) : Edit α Unit) g =
      .error e g) := by
  refine forM_check (fun var hvar => ?_) fun var hvar => ⟨.undeclaredVariable op var, ?_⟩
  · have contained : g.vars.contains var = true := hvar
    simp only [run_bind, run_get, run_require, contained, if_true]
  · have contained : g.vars.contains var = false := NameMap.contains_eq_false_iff.2 hvar
    simp only [run_bind, run_get, run_require, contained, Bool.false_eq_true, if_false]

theorem free_check (op : String) (vars : List String) :
    ((∀ var ∈ vars, Free g var) → vars.forM (requireFreeOutput op) g = .ok () g) ∧
    ((¬∀ var ∈ vars, Free g var) → ∃ e, vars.forM (requireFreeOutput op) g = .error e g) :=
  forM_check (fun _ => requireFreeOutput_ok) fun _ => requireFreeOutput_error

theorem createOperation_taken (taken : op ∈ g.operations) :
    createOperation op type attributes inputs outputs g = .error (.operationExists op) g := by
  have contained : g.operations.contains op = true := taken
  simp only [createOperation, run_bind, run_get, run_require, contained, Bool.not_true,
    Bool.false_eq_true, if_false]

theorem createOperation_refuses (h : ¬Creatable g op inputs outputs) :
    Refuses (createOperation op type attributes inputs outputs) g := by
  by_cases fresh : op ∈ g.operations
  · exact ⟨_, createOperation_taken fresh⟩
  have contained : g.operations.contains op = false := NameMap.contains_eq_false_iff.2 fresh
  by_cases declared : ∀ var ∈ inputs ++ outputs, var ∈ g.vars
  · have first := (declared_check op (inputs ++ outputs)).1 declared
    have check := free_check (g := g) op outputs
    by_cases free : ∀ var ∈ outputs, Free g var
    · have repeated : decide outputs.Nodup = false := decide_eq_false fun nodup =>
        h ⟨fresh, fun var hvar => declared var (List.mem_append_left _ hvar), free, nodup⟩
      exact ⟨.repeatedOutput op, by
        simp only [createOperation, run_bind, run_get, run_require, contained, Bool.not_false,
          if_true, first, check.1 free, repeated, Bool.false_eq_true, if_false] at first ⊢⟩
    · obtain ⟨e, second⟩ := check.2 free
      exact ⟨e, by
        simp only [createOperation, run_bind, run_get, run_require, contained, Bool.not_false,
          if_true, first, second] at first ⊢⟩
  · obtain ⟨e, first⟩ := (declared_check op (inputs ++ outputs)).2 declared
    exact ⟨e, by
      simp only [createOperation, run_bind, run_get, run_require, contained, Bool.not_false,
        if_true, first] at first ⊢⟩

/-- The variable `n` with its links to an operation of these slots. -/
def linkedTo (op : String) (inputs outputs : List String) (n : String) (v : Variable α) :
    Variable α :=
  Nat.repeat (fun v => { v with producer := some op }) (outputs.count n)
    (Nat.repeat (Variable.addConsumer op) (inputs.count n) v)

theorem linkedTo_links (op : String) (inputs outputs : List String) (n : String)
    (v : Variable α) : ∃ l, linkedTo op inputs outputs n v = { v with
      producer := if n ∈ outputs then some op else v.producer
      consumers := l } ∧ (v.consumers.Pairwise (· ≤ ·) → l.Pairwise (· ≤ ·)) ∧
    ∀ m, l.count m = v.consumers.count m + if m = op then inputs.count n else 0 := by
  obtain ⟨l, hl, sorted, count⟩ := Variable.repeat_addConsumer op (inputs.count n) v
  refine ⟨l, ?_, sorted, count⟩
  rw [linkedTo, hl, repeat_count_of_idempotent
    (f := fun v : Variable α => { v with producer := some op }) fun _ => rfl]
  split <;> rfl

theorem linkedTo_declaration (op : String) (inputs outputs : List String) (n : String)
    (v : Variable α) : (linkedTo op inputs outputs n v).declaration = v.declaration := by
  obtain ⟨l, hl, -⟩ := linkedTo_links op inputs outputs n v
  rw [hl]
  rfl

theorem createOperation_run (h : Creatable g op inputs outputs) :
    createOperation op type attributes inputs outputs g =
      .ok ⟨op, type, attributes, inputs, outputs, .unspecified⟩
        ((g.mapVariables (linkedTo op inputs outputs)).putOperation
          ⟨op, type, attributes, inputs, outputs, .unspecified⟩) := by
  have known : ∀ var ∈ inputs ++ outputs, var ∈ g.vars := fun var hvar =>
    (List.mem_append.1 hvar).elim (h.inputs_known var) fun hp => (h.outputs_free var hp).known
  have contained : g.operations.contains op = false := NameMap.contains_eq_false_iff.2 h.fresh
  have first := (declared_check op (inputs ++ outputs)).1 known
  have second := (free_check op outputs).1 h.outputs_free
  have third := forM_updateVariable (f := Variable.addConsumer op) h.inputs_known
  have fourth := forM_updateVariable (f := fun v : Variable α => { v with producer := some op })
    (g := g.mapVariables fun n v => Nat.repeat (Variable.addConsumer op) (inputs.count n) v)
    (l := outputs) fun var hvar => NameMap.mem_mapEntries.2 (h.outputs_free var hvar).known
  simp only [createOperation, run_bind, run_get, run_require, contained, Bool.not_false, if_true,
    first, second, h.nodup, decide_true, third] at first fourth ⊢
  simp only [fourth, run_modify, run_pure, Graph.mapVariables_mapVariables]
  rfl

theorem createOperation_linked (hg : g.Linked) (h : Creatable g op inputs outputs) :
    ((g.mapVariables (linkedTo op inputs outputs)).putOperation
      ⟨op, type, attributes, inputs, outputs, .unspecified⟩).Linked := by
  let o : Operation α := ⟨op, type, attributes, inputs, outputs, .unspecified⟩
  have look : ∀ n, ((g.mapVariables (linkedTo op inputs outputs)).putOperation o).getOperation? n =
      if n = op then some o else g.getOperation? n :=
    fun n => Graph.getOperation?_putOperation o n
  refine hg.relink rfl (fun n v _ => linkedTo_declaration op inputs outputs n v) rfl rfl
    ?named ?known ?nodup ?sorted ?count ?producer
  case sorted =>
    intro n v hv
    obtain ⟨l, hl, sorted, -⟩ := linkedTo_links op inputs outputs n v
    rw [hl]
    exact sorted (hg.consumers_sorted hv)
  case count =>
    intro n v hv m
    obtain ⟨l, hl, -, count⟩ := linkedTo_links op inputs outputs n v
    rw [hl, look]
    change l.count m = _
    rw [count, hg.count_consumers hv]
    split
    · rw [‹m = op›, show g.getOperation? op = none from NameMap.get?_eq_none_iff.2 h.fresh]
      exact Nat.zero_add _
    · rfl
  case producer =>
    intro n v hv m
    obtain ⟨l, hl, -, -⟩ := linkedTo_links op inputs outputs n v
    rw [hl, look]
    change (if n ∈ outputs then some op else v.producer) = some m ↔ _
    by_cases hn : n ∈ outputs
    · have unmade := (h.outputs_free n hn).unmade hg
      constructor
      · intro hm
        simp only [hn, if_true, Option.some.injEq] at hm
        exact ⟨o, if_pos hm.symm, hn⟩
      · rintro ⟨p, hp, hnp⟩
        split at hp
        · simp [hn, ‹m = op›]
        · exact absurd ⟨p, hp, hnp⟩ (unmade m)
    · rw [if_neg hn, hg.producer_iff hv]
      by_cases hm : m = op
      · subst hm
        have absent : g.getOperation? m = none := NameMap.get?_eq_none_iff.2 h.fresh
        simp [absent, hn, o]
      · simp [hm]
  all_goals
    intro n p hp
    rw [look] at hp
    split at hp
  case named.isTrue => cases hp; exact ‹n = op›.symm
  case named.isFalse => exact hg.operation_name hp
  case known.isTrue =>
    cases hp
    intro var hvar
    exact (List.mem_append.1 hvar).elim (h.inputs_known var)
      fun hp => (h.outputs_free var hp).known
  case known.isFalse =>
    intro var hvar
    exact (List.mem_append.1 hvar).elim (hg.input_known hp) (hg.output_known hp)
  case nodup.isTrue => cases hp; exact h.nodup
  case nodup.isFalse => exact hg.outputs_nodup hp

theorem createOperation_yields (hg : g.Linked) (h : Creatable g op inputs outputs) :
    Yields (createOperation op type attributes inputs outputs) g
      ⟨op, type, attributes, inputs, outputs, .unspecified⟩ { g.content with
        operations := g.operations.insert op
          ⟨op, type, attributes, inputs, outputs, .unspecified⟩ } := by
  let o : Operation α := ⟨op, type, attributes, inputs, outputs, .unspecified⟩
  refine ⟨_, createOperation_run h, createOperation_linked hg h, ?_⟩
  have content : (g.mapVariables (linkedTo op inputs outputs)).content = g.content :=
    Graph.content_mapVariables fun n v _ => linkedTo_declaration op inputs outputs n v
  change { (g.mapVariables (linkedTo op inputs outputs)).content with
    operations := g.operations.insert op o } = _
  rw [content]

end Create

end GraphDispatch.Edit
