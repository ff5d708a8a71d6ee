import GraphDispatch.Graph.Edit
import GraphDispatch.Proofs.Links.Content
import GraphDispatch.Proofs.Program

/-!
# Steps of an edit

An edit looks something up, checks it, and updates single entries. Updates of the
links of variables leave a linked graph if they follow the slots of the operations
(`Linked.relink`); the graph in between need not be linked.
-/

namespace GraphDispatch

variable {α : Type}

namespace Graph

variable {g : Graph α}

theorem getOperation?_modifyOperation (op n : String) (f : Operation α → Operation α) :
    (g.modifyOperation op f).getOperation? n =
      if n = op then (g.getOperation? n).map f else g.getOperation? n :=
  NameMap.get?_modify _ _ _ _

theorem getVariable?_modifyVariable (var n : String) (f : Variable α → Variable α) :
    (g.modifyVariable var f).getVariable? n =
      if n = var then (g.getVariable? n).map f else g.getVariable? n :=
  NameMap.get?_modify _ _ _ _

theorem getOperation?_putOperation (o : Operation α) (n : String) :
    (g.putOperation o).getOperation? n = if n = o.name then some o else g.getOperation? n :=
  NameMap.get?_insert _ _ _ _

theorem getVariable?_putVariable (v : Variable α) (n : String) :
    (g.putVariable v).getVariable? n = if n = v.name then some v else g.getVariable? n :=
  NameMap.get?_insert _ _ _ _

theorem mem_vars_modifyVariable {var n : String} {f : Variable α → Variable α} :
    n ∈ (g.modifyVariable var f).vars ↔ n ∈ g.vars := NameMap.mem_modify

/-- Changes every variable of a graph. -/
def mapVariables (F : String → Variable α → Variable α) (g : Graph α) : Graph α :=
  { g with vars := g.vars.mapEntries F }

@[simp] theorem mapVariables_mapVariables (F G : String → Variable α → Variable α) :
    (g.mapVariables F).mapVariables G = g.mapVariables fun n v => G n (F n v) := by
  simp [mapVariables]

theorem modifyVariable_eq (var : String) (f : Variable α → Variable α) :
    g.modifyVariable var f = g.mapVariables fun n v => if n = var then f v else v := rfl

end Graph

namespace Edit

variable {g : Graph α}

theorem run_require (c : Bool) (e : EditError) :
    (require c e : Edit α Unit) g = if c then .ok () g else .error e g := by
  cases c <;> rfl

theorem require_ok {c : Bool} {e : EditError} (h : c = true) :
    (require c e : Edit α Unit) g = .ok () g := by
  rw [run_require, if_pos h]

theorem require_error {c : Bool} {e : EditError} (h : c = false) :
    (require c e : Edit α Unit) g = .error e g := by
  rw [run_require, h, if_neg Bool.false_ne_true]

theorem run_getOperation (op : String) :
    getOperation op g = match g.getOperation? op with
      | some o => .ok o g
      | none => .error (.unknownOperation op) g := by
  simp only [getOperation, run_bind, run_get]
  cases g.getOperation? op <;> rfl

theorem run_getVariable (var : String) :
    getVariable var g = match g.getVariable? var with
      | some v => .ok v g
      | none => .error (.unknownVariable var) g := by
  simp only [getVariable, run_bind, run_get]
  cases g.getVariable? var <;> rfl

theorem updateOperation_ok {op : String} {f : Operation α → Operation α} (h : op ∈ g.operations) :
    updateOperation op f g = .ok () (g.modifyOperation op f) := by
  obtain ⟨o, ho⟩ := Graph.mem_operations_iff.1 h
  simp only [updateOperation, run_bind, run_discard, run_getOperation, ho, run_modify]

theorem updateOperation_error {op : String} {f : Operation α → Operation α}
    (h : op ∉ g.operations) : updateOperation op f g = .error (.unknownOperation op) g := by
  have ho : g.getOperation? op = none := NameMap.get?_eq_none_iff.2 h
  simp only [updateOperation, run_bind, run_discard, run_getOperation, ho]

theorem updateVariable_ok {var : String} {f : Variable α → Variable α} (h : var ∈ g.vars) :
    updateVariable var f g = .ok () (g.modifyVariable var f) := by
  obtain ⟨v, hv⟩ := Graph.mem_vars_iff.1 h
  simp only [updateVariable, run_bind, run_discard, run_getVariable, hv, run_modify]

theorem repeat_succ' {β : Type} (f : β → β) (k : Nat) (b : β) :
    Nat.repeat f (k + 1) b = Nat.repeat f k (f b) := by
  induction k with
  | zero => rfl
  | succ k ih => exact congrArg f ih

/-- An update that changes nothing the second time happens to whom the list names. -/
theorem repeat_count_of_idempotent {β : Type} {f : β → β} (h : ∀ b, f (f b) = f b)
    (names : List String) (n : String) (b : β) :
    Nat.repeat f (names.count n) b = if n ∈ names then f b else b := by
  have settled : ∀ k, Nat.repeat f k b = if k = 0 then b else f b := by
    intro k
    induction k with
    | zero => rfl
    | succ k ih =>
      rw [Nat.repeat, ih, if_neg k.succ_ne_zero]
      split
      · rfl
      · exact h b
  rw [settled]
  by_cases hn : n ∈ names
  · rw [if_pos hn, if_neg (Nat.ne_of_gt (List.count_pos_iff.2 hn))]
  · rw [if_neg hn, if_pos (List.count_eq_zero.2 hn)]

/-- A list of updates reaches each variable as often as the list names it. -/
theorem forM_updateVariable {l : List String} {f : Variable α → Variable α}
    (h : ∀ var ∈ l, var ∈ g.vars) :
    (l.forM fun var => updateVariable var f) g =
      .ok () (g.mapVariables fun n v => Nat.repeat f (l.count n) v) := by
  induction l generalizing g with
  | nil =>
    have same : g.vars.mapEntries (fun n v => Nat.repeat f (([] : List String).count n) v) =
        g.vars := NameMap.mapEntries_eq_self fun _ _ _ => rfl
    rw [Graph.mapVariables, same]
    rfl
  | cons a l ih =>
    have first := updateVariable_ok (f := f) (h a List.mem_cons_self)
    rw [List.forM, bind_of_ok first,
      ih fun var hvar => Graph.mem_vars_modifyVariable.2 (h var (List.mem_cons_of_mem _ hvar)),
      Graph.modifyVariable_eq, Graph.mapVariables_mapVariables]
    congr 2
    funext n v
    by_cases hn : n = a
    · subst hn
      rw [if_pos rfl, List.count_cons_self, repeat_succ']
    · rw [if_neg hn, List.count_cons_of_ne (Ne.symm hn)]

end Edit

/-- New links are right if every operation is stored under its name, names declared
variables only and no output twice, and if the links of each variable follow its slots. -/
theorem Graph.Linked.relink {g g' : Graph α} (hg : g.Linked)
    {F : String → Variable α → Variable α}
    (vars : g'.vars = g.vars.mapEntries F)
    (declared : ∀ var v, g.getVariable? var = some v → (F var v).declaration = v.declaration)
    (inputs : g'.inputs = g.inputs) (outputs : g'.outputs = g.outputs)
    (named : ∀ op o, g'.getOperation? op = some o → o.name = op)
    (known : ∀ op o, g'.getOperation? op = some o → ∀ var ∈ o.inputs ++ o.outputs, var ∈ g.vars)
    (nodup : ∀ op o, g'.getOperation? op = some o → o.outputs.Nodup)
    (sorted : ∀ var v, g.getVariable? var = some v → (F var v).consumers.Pairwise (· ≤ ·))
    (count : ∀ var v, g.getVariable? var = some v → ∀ op, (F var v).consumers.count op =
      ((g'.getOperation? op).map (·.inputs.count var)).getD 0)
    (producer : ∀ var v, g.getVariable? var = some v → ∀ op,
      (F var v).producer = some op ↔ ∃ o, g'.getOperation? op = some o ∧ var ∈ o.outputs) :
    g'.Linked := by
  have look : ∀ {var v'}, g'.getVariable? var = some v' →
      ∃ v, g.getVariable? var = some v ∧ F var v = v' := by
    intro var v' h
    rw [Graph.getVariable?, vars] at h
    exact NameMap.get?_mapEntries_eq_some.1 h
  have member : ∀ {var}, var ∈ g.vars → var ∈ g'.vars := fun h => by
    rw [vars]; exact NameMap.mem_mapEntries.2 h
  have same : ∀ {var v}, g.getVariable? var = some v → (F var v).name = v.name ∧
      (F var v).value = v.value ∧ (F var v).isParameter = v.isParameter := by
    intro var v hv
    simpa [Variable.declaration] using declared var v hv
  constructor
  case operation_name => exact fun h => named _ _ h
  case input_known => exact fun h hvar => member (known _ _ h _ (List.mem_append_left _ hvar))
  case output_known => exact fun h hvar => member (known _ _ h _ (List.mem_append_right _ hvar))
  case outputs_nodup => exact fun h => nodup _ _ h
  case inputs_known => exact fun var h => member (hg.inputs_known var (inputs ▸ h))
  case outputs_known => exact fun var h => member (hg.outputs_known var (outputs ▸ h))
  case inputs_nodup => exact inputs ▸ hg.inputs_nodup
  case graphOutputs_nodup => exact outputs ▸ hg.graphOutputs_nodup
  all_goals
    intro var v' h
    obtain ⟨v, hv, rfl⟩ := look h
  case variable_name => rw [(same hv).1, hg.variable_name hv]
  case count_consumers => exact count var v hv
  case producer_iff => exact producer var v hv
  case consumers_sorted => exact sorted var v hv
  case parameter_of_value =>
    rw [(same hv).2.1, (same hv).2.2]
    exact hg.parameter_of_value hv

/-- The same where one operation gets other slots. -/
theorem Graph.Linked.relinkOperation {g : Graph α} (hg : g.Linked) {op : String} {o : Operation α}
    (ho : g.getOperation? op = some o) {f : Operation α → Operation α}
    {F : String → Variable α → Variable α}
    (declared : ∀ var v, g.getVariable? var = some v → (F var v).declaration = v.declaration)
    (name : (f o).name = o.name)
    (known : ∀ var ∈ (f o).inputs ++ (f o).outputs, var ∈ g.vars) (nodup : (f o).outputs.Nodup)
    (sorted : ∀ var v, g.getVariable? var = some v → (F var v).consumers.Pairwise (· ≤ ·))
    (count : ∀ var v, g.getVariable? var = some v → ∀ n, (F var v).consumers.count n =
      if n = op then (f o).inputs.count var else v.consumers.count n)
    (producer : ∀ var v, g.getVariable? var = some v → ∀ n, (F var v).producer = some n ↔
      if n = op then var ∈ (f o).outputs else v.producer = some n) :
    ((g.modifyOperation op f).mapVariables F).Linked := by
  have look : ∀ n, ((g.modifyOperation op f).mapVariables F).getOperation? n =
      if n = op then some (f o) else g.getOperation? n := by
    intro n
    refine (Graph.getOperation?_modifyOperation op n f).trans ?_
    split
    · simp [‹n = op›, ho]
    · rfl
  refine hg.relink rfl declared rfl rfl ?named ?known ?nodup sorted ?count ?producer
  case count =>
    intro var v hv n
    rw [count var v hv, look]
    split
    · rfl
    · exact hg.count_consumers hv n
  case producer =>
    intro var v hv n
    rw [producer var v hv, look]
    split
    · simp
    · exact hg.producer_iff hv n
  all_goals
    intro n o' ho'
    rw [look] at ho'
    split at ho'
  case named.isTrue => cases ho'; rw [name, hg.operation_name ho, ‹n = op›]
  case named.isFalse => exact hg.operation_name ho'
  case known.isTrue => cases ho'; exact known
  case known.isFalse =>
    intro var hvar
    exact (List.mem_append.1 hvar).elim (hg.input_known ho') (hg.output_known ho')
  case nodup.isTrue => cases ho'; exact nodup
  case nodup.isFalse => exact hg.outputs_nodup ho'

/-- Links do not enter the content. -/
theorem Graph.content_mapVariables {g : Graph α} {F : String → Variable α → Variable α}
    (declared : ∀ var v, g.getVariable? var = some v → (F var v).declaration = v.declaration) :
    (g.mapVariables F).content = g.content := by
  have declarations : (g.vars.mapEntries F).mapEntries (fun _ v => v.declaration) =
      g.vars.mapEntries fun _ v => v.declaration := by
    rw [NameMap.mapEntries_mapEntries]
    exact NameMap.mapEntries_congr declared
  simp only [Graph.content, Graph.mapVariables, declarations]

/-- Other inputs of an operation change the consumers of variables only. -/
theorem Graph.Linked.relinkInputs {g : Graph α} (hg : g.Linked) {op : String} {o : Operation α}
    (ho : g.getOperation? op = some o) {f : Operation α → Operation α}
    (same : (f o).name = o.name ∧ (f o).outputs = o.outputs)
    (known : ∀ var ∈ (f o).inputs, var ∈ g.vars) {F : String → Variable α → Variable α}
    (links : ∀ var v, g.getVariable? var = some v → ∃ l, F var v = { v with consumers := l } ∧
      l.Pairwise (· ≤ ·) ∧
      ∀ n, l.count n = if n = op then (f o).inputs.count var else v.consumers.count n) :
    ((g.modifyOperation op f).mapVariables F).Linked ∧
      ((g.modifyOperation op f).mapVariables F).content =
        { g.content with operations := g.operations.modify op f } := by
  have declared : ∀ var v, g.getVariable? var = some v →
      (F var v).declaration = v.declaration := by
    intro var v hv
    obtain ⟨l, hl, -, -⟩ := links var v hv
    rw [hl]
    rfl
  refine ⟨hg.relinkOperation ho declared same.1 ?_ (same.2 ▸ hg.outputs_nodup ho) ?_ ?_ ?_,
    Graph.content_mapVariables declared⟩
  · intro var hvar
    rw [same.2] at hvar
    exact (List.mem_append.1 hvar).elim (known var) (hg.output_known ho)
  · intro var v hv
    obtain ⟨l, hl, sorted, -⟩ := links var v hv
    rw [hl]
    exact sorted
  · intro var v hv n
    obtain ⟨l, hl, -, count⟩ := links var v hv
    rw [hl]
    exact count n
  · intro var v hv n
    obtain ⟨l, hl, -, -⟩ := links var v hv
    rw [hl, same.2]
    split
    · rw [hg.producer_iff hv, ‹n = op›, ho]
      simp
    · rfl

end GraphDispatch
