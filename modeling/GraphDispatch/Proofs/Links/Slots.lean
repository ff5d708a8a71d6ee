import GraphDispatch.Proofs.Links.Edits

/-!
# Edits of slots

The edits that change what operations read and produce, and with it the links of
the variables.
-/

namespace GraphDispatch

variable {α : Type}

/-- Lets every slot that reads `old` read `new`. -/
def Operation.redirect (old new : String) (o : Operation α) : Operation α :=
  { o with inputs := o.inputs.map fun var => if var = old then new else var }

theorem Operation.count_redirect (old new var : String) (o : Operation α) :
    (o.redirect old new).inputs.count var =
      (if var = old then 0 else o.inputs.count var) +
        if var = new then o.inputs.count old else 0 := by
  have counts : ∀ l : List String,
      (l.map fun n => if n = old then new else n).count var =
        (if var = old then 0 else l.count var) + if var = new then l.count old else 0 := by
    intro l
    induction l with
    | nil => simp
    | cons n l ih => grind
  exact counts o.inputs

theorem Operation.redirect_of_not_mem {old new : String} {o : Operation α} (h : old ∉ o.inputs) :
    o.redirect old new = o := by
  have same : (o.inputs.map fun var => if var = old then new else var) = o.inputs := by
    refine (List.map_congr_left fun var hvar => if_neg ?_).trans (List.map_id _)
    rintro rfl
    exact h hvar
  rw [redirect, same]

theorem Operation.not_mem_redirect {old new : String} (hne : new ≠ old) (o : Operation α) :
    old ∉ (o.redirect old new).inputs := by
  intro h
  obtain ⟨n, -, hn⟩ := List.mem_map.1 h
  split at hn
  · exact hne hn
  · exact absurd hn ‹_›

/-- Where only the redirected slots read `new`, the opposite redirection restores them. -/
theorem Operation.redirect_redirect {old new : String} {o : Operation α} (h : new ∉ o.inputs) :
    (o.redirect old new).redirect new old = o := by
  have back : ∀ var ∈ o.inputs, (if (if var = old then new else var) = new then old else
      if var = old then new else var) = var := by
    intro var hvar
    have other : var ≠ new := fun same => h (same ▸ hvar)
    by_cases hold : var = old
    · rw [if_pos hold, if_pos rfl, hold]
    · rw [if_neg hold, if_neg other]
  have same : (o.redirect old new).inputs.map (fun var => if var = new then old else var) =
      o.inputs := by
    rw [redirect, List.map_map]
    exact (List.map_congr_left back).trans (List.map_id _)
  rw [redirect, same, redirect]

theorem Operation.mem_redirect {old new var : String} {o : Operation α} :
    var ∈ (o.redirect old new).inputs ↔
      var ∈ o.inputs ∧ var ≠ old ∨ var = new ∧ old ∈ o.inputs := by
  unfold redirect
  rw [List.mem_map]
  constructor
  · rintro ⟨n, hn, rfl⟩
    by_cases h : n = old
    · subst h
      exact Or.inr ⟨if_pos rfl, hn⟩
    · rw [if_neg h]
      exact Or.inl ⟨hn, h⟩
  · rintro (⟨hvar, hne⟩ | ⟨rfl, hold⟩)
    · exact ⟨var, hvar, if_neg hne⟩
    · exact ⟨old, hold, if_pos rfl⟩

theorem count_filter_eq (p : String → Bool) (n : String) (l : List String) :
    (l.filter p).count n = if p n then l.count n else 0 := by
  split
  · exact List.count_filter ‹_›
  · exact List.count_eq_zero.2 fun h => ‹¬_› (List.mem_filter.1 h).2

theorem count_filter_ne (op n : String) (l : List String) :
    (l.filter (· ≠ op)).count n = if n = op then 0 else l.count n := by
  rw [count_filter_eq]
  by_cases same : n = op <;> simp [same]

theorem mem_replace {old new : String} {l : List String} (nodup : l.Nodup) (h : old ∈ l) {n : String} :
    n ∈ l.replace old new ↔ n = new ∨ n ∈ l ∧ n ≠ old := by
  induction l with
  | nil => cases h
  | cons a l ih =>
    rw [List.replace_cons]
    obtain ⟨ha, nodup⟩ := List.nodup_cons.1 nodup
    by_cases hold : old = a
    · subst hold
      grind
    · grind

theorem replace_nodup {old new : String} {l : List String} (nodup : l.Nodup) (h : new ∉ l) :
    (l.replace old new).Nodup := by
  induction l with
  | nil => simp
  | cons a l ih =>
    obtain ⟨ha, nodup⟩ := List.nodup_cons.1 nodup
    obtain ⟨hne, hnew⟩ := List.ne_and_not_mem_of_not_mem_cons h
    rw [List.replace_cons]
    split
    · exact List.nodup_cons.2 ⟨hnew, nodup⟩
    · refine List.nodup_cons.2 ⟨fun hmem => ?_, ih nodup hnew⟩
      by_cases hold : old ∈ l
      · rcases (mem_replace nodup hold).1 hmem with rfl | ⟨hmem, -⟩
        · exact hne rfl
        · exact ha hmem
      · rw [List.replace_of_not_mem (by simpa using hold)] at hmem
        exact ha hmem

namespace Edit

variable {g : Graph α} {op old new var : String}

/-- What `replaceInput` makes of the consumers of a variable. -/
def moveConsumer (op old new : String) (slots : Nat) (n : String) (v : Variable α) : Variable α :=
  let v := if n = old then { v with consumers := v.consumers.filter (· ≠ op) } else v
  if n = new then Nat.repeat (Variable.addConsumer op) slots v else v

theorem moveConsumer_links (op old new : String) (slots : Nat) (n : String) (v : Variable α) :
    ∃ l, moveConsumer op old new slots n v = { v with consumers := l } ∧
      (v.consumers.Pairwise (· ≤ ·) → l.Pairwise (· ≤ ·)) ∧
      ∀ m, l.count m = (if n = old ∧ m = op then 0 else v.consumers.count m) +
        if n = new ∧ m = op then slots else 0 := by
  have detached : ∃ l, (if n = old then { v with consumers := v.consumers.filter (· ≠ op) } else v) =
      { v with consumers := l } ∧ (v.consumers.Pairwise (· ≤ ·) → l.Pairwise (· ≤ ·)) ∧
      ∀ m, l.count m = if n = old ∧ m = op then 0 else v.consumers.count m := by
    by_cases hn : n = old
    · refine ⟨v.consumers.filter (· ≠ op), if_pos hn, fun h => h.filter _, fun m => ?_⟩
      simpa [hn] using count_filter_ne op m v.consumers
    · exact ⟨v.consumers, if_neg hn, id, fun m => by simp [hn]⟩
  obtain ⟨l, hl, sorted, count⟩ := detached
  rw [moveConsumer, hl]
  by_cases hn : n = new
  · obtain ⟨r, hr, sorted', count'⟩ := Variable.repeat_addConsumer op slots { v with consumers := l }
    refine ⟨r, (if_pos hn).trans hr, fun h => sorted' (sorted h), fun m => ?_⟩
    rw [count', count]
    simp [hn]
  · exact ⟨l, if_neg hn, sorted, fun m => by simp [count, hn]⟩

theorem replaceInput_eq (op old new : String) : (replaceInput op old new : Edit α Unit) = (do
    require ((← get).vars.contains new) (.unknownVariable new)
    let o ← getOperation op
    updateOperation op (Operation.redirect old new)
    require (0 < o.inputs.count old) (.notRead op old)
    updateVariable old fun v => { v with consumers := v.consumers.filter (· ≠ op) }
    updateVariable new (Nat.repeat (Variable.addConsumer op) (o.inputs.count old))) := rfl

theorem replaceInput_yields (hg : g.Linked) (reads : g.Reads op old) (known : new ∈ g.vars) :
    Yields (replaceInput op old new) g () { g.content with
      operations := g.operations.modify op (Operation.redirect old new) } := by
  obtain ⟨o, ho, hold⟩ := reads
  have contained : g.vars.contains new = true := known
  have slots : decide (0 < o.inputs.count old) = true :=
    decide_eq_true (List.count_pos_iff.2 hold)
  have hop : op ∈ g.operations := Graph.mem_operations_iff.2 ⟨o, ho⟩
  have hold' : old ∈ (g.modifyOperation op (Operation.redirect old new)).vars :=
    hg.input_known ho hold
  have hnew : new ∈ ((g.modifyOperation op (Operation.redirect old new)).modifyVariable old
      fun v => { v with consumers := v.consumers.filter (· ≠ op) }).vars :=
    Graph.mem_vars_modifyVariable.2 known
  have first := updateOperation_ok (f := Operation.redirect old new) hop
  have second := updateVariable_ok hold'
    (f := fun v => { v with consumers := v.consumers.filter (· ≠ op) })
  have third := updateVariable_ok hnew
    (f := Nat.repeat (Variable.addConsumer op) (o.inputs.count old))
  have run : replaceInput op old new g = .ok () ((g.modifyOperation op
      (Operation.redirect old new)).mapVariables
        (moveConsumer op old new (o.inputs.count old))) := by
    simp only [replaceInput_eq, run_bind, run_get, run_require, contained, if_true,
      run_getOperation, ho, first, slots, second, third]
    rw [Graph.modifyVariable_eq, Graph.modifyVariable_eq, Graph.mapVariables_mapVariables]
    rfl
  refine ⟨_, run, hg.relinkInputs ho ⟨rfl, rfl⟩ (fun var hvar => ?_) fun var v hv => ?_⟩
  · obtain ⟨n, hn, rfl⟩ := List.mem_map.1 hvar
    split
    · exact known
    · exact hg.input_known ho hn
  · obtain ⟨l, hl, sorted, count⟩ := moveConsumer_links op old new (o.inputs.count old) var v
    refine ⟨l, hl, sorted (hg.consumers_sorted hv), fun n => ?_⟩
    rw [count, Operation.count_redirect, hg.count_consumers hv]
    by_cases hn : n = op
    · simp [hn, ho]
    · simp [hn]

theorem replaceInput_notRead {o : Operation α} (ho : g.getOperation? op = some o)
    (unread : old ∉ o.inputs) (known : new ∈ g.vars) :
    replaceInput op old new g = .error (.notRead op old) g := by
  have contained : g.vars.contains new = true := known
  have slots : decide (0 < o.inputs.count old) = false := by
    simp [List.count_eq_zero.2 unread]
  have first := updateOperation_ok (f := Operation.redirect old new)
    (Graph.mem_operations_iff.2 ⟨o, ho⟩)
  have unchanged : g.modifyOperation op (Operation.redirect old new) = g := by
    rw [Graph.modifyOperation, NameMap.modify_eq_self ho (Operation.redirect_of_not_mem unread)]
  simp only [replaceInput_eq, run_bind, run_get, run_require, contained, if_true,
    run_getOperation, ho, first, slots, Bool.false_eq_true, if_false, unchanged]

theorem replaceInput_refuses (h : ¬(g.Reads op old ∧ new ∈ g.vars)) :
    Refuses (replaceInput op old new) g := by
  cases contained : g.vars.contains new with
  | false =>
    exact ⟨.unknownVariable new, by
      simp only [replaceInput_eq, run_bind, run_get, run_require, contained,
        Bool.false_eq_true, if_false]⟩
  | true =>
    cases ho : g.getOperation? op with
    | none =>
      exact ⟨.unknownOperation op, by
        simp only [replaceInput_eq, run_bind, run_get, run_require, contained, if_true,
          run_getOperation, ho]⟩
    | some o =>
      have unread : old ∉ o.inputs := fun hold => h ⟨⟨o, ho, hold⟩, contained⟩
      exact ⟨.notRead op old, replaceInput_notRead ho unread contained⟩

/-- Several operations, one after the other. -/
theorem forM_replaceInput_yields (hg : g.Linked) {l : List String} (nodup : l.Nodup)
    (reads : ∀ op ∈ l, g.Reads op old) (known : new ∈ g.vars) :
    Yields (l.forM fun op => replaceInput op old new) g () { g.content with
      operations := g.operations.mapEntries fun n o =>
        if n ∈ l then o.redirect old new else o } := by
  induction l generalizing g with
  | nil =>
    refine ⟨g, rfl, hg, ?_⟩
    have same : g.operations.mapEntries (fun n o =>
        if n ∈ ([] : List String) then o.redirect old new else o) = g.operations :=
      NameMap.mapEntries_eq_self fun _ _ _ => if_neg (by simp)
    rw [same]
    rfl
  | cons op l ih =>
    obtain ⟨fresh, nodup⟩ := List.nodup_cons.1 nodup
    obtain ⟨h, run, linked, content⟩ := replaceInput_yields hg (reads op List.mem_cons_self) known
    have operations : h.operations = g.operations.modify op (Operation.redirect old new) :=
      congrArg Content.operations content
    have reads' : ∀ n ∈ l, h.Reads n old := by
      intro n hn
      obtain ⟨o, ho, hold⟩ := reads n (List.mem_cons_of_mem _ hn)
      refine ⟨o, ?_, hold⟩
      have hne : n ≠ op := fun e => fresh (e ▸ hn)
      rw [Graph.getOperation?, operations, NameMap.get?_modify, if_neg hne]
      exact ho
    have known' : new ∈ h.vars := (Graph.mem_vars_congr (by rw [content])).2 known
    obtain ⟨h', run', linked', content'⟩ := ih linked nodup reads' known'
    have both : h.operations.mapEntries (fun n o => if n ∈ l then o.redirect old new else o) =
        g.operations.mapEntries fun n o => if n ∈ op :: l then o.redirect old new else o := by
      rw [operations, NameMap.modify, NameMap.mapEntries_mapEntries]
      apply NameMap.mapEntries_congr
      intro n o _
      by_cases hn : n = op
      · subst hn
        simp [fresh]
      · simp [hn]
    exact ⟨h', (bind_of_ok run).trans run', linked', by rw [content', both, content]⟩

/-- Once all that read `old` read `new`, every operation is redirected. -/
theorem redirectAll_yields (hg : g.Linked) {l : List String} (nodup : l.Nodup)
    (readers : ∀ n, n ∈ l ↔ g.Reads n old) (known : new ∈ g.vars) :
    Yields (l.forM fun n => replaceInput n old new) g () { g.content with
      operations := g.operations.mapEntries fun _ o => o.redirect old new } := by
  obtain ⟨h, run, linked, content⟩ :=
    forM_replaceInput_yields hg nodup (fun n hn => (readers n).1 hn) known
  have redirected : (g.operations.mapEntries fun n o =>
      if n ∈ l then o.redirect old new else o) =
        g.operations.mapEntries fun _ o => o.redirect old new := by
    apply NameMap.mapEntries_congr
    intro n o ho
    split
    · rfl
    · exact (Operation.redirect_of_not_mem fun reads => ‹n ∉ l› ((readers n).2 ⟨o, ho, reads⟩)).symm
  rw [redirected] at content
  exact ⟨h, run, linked, content⟩

theorem appendInput_yields (hg : g.Linked) (hop : op ∈ g.operations) (known : var ∈ g.vars) :
    Yields (appendInput op var) g () { g.content with
      operations := g.operations.modify op fun o => { o with inputs := o.inputs ++ [var] } } := by
  obtain ⟨o, ho⟩ := Graph.mem_operations_iff.1 hop
  have contained : g.vars.contains var = true := known
  have first := updateOperation_ok (f := fun o : Operation α => { o with inputs := o.inputs ++ [var] })
    hop
  have second := updateVariable_ok (f := Variable.addConsumer (α := α) op)
    (g := g.modifyOperation op fun o => { o with inputs := o.inputs ++ [var] }) known
  refine ⟨_, by
    simp only [appendInput, run_bind, run_get, run_require, contained, if_true, first, second]
    rfl,
    hg.relinkInputs ho (f := fun o => { o with inputs := o.inputs ++ [var] }) ⟨rfl, rfl⟩
      (F := fun n v => if n = var then v.addConsumer op else v) (fun n hn => ?_) fun n v hv => ?_⟩
  · rcases List.mem_append.1 hn with hn | hn
    · exact hg.input_known ho hn
    · exact List.mem_singleton.1 hn ▸ known
  · have consumers := fun m => hg.count_consumers hv m
    refine ⟨if n = var then insertName op v.consumers else v.consumers, ?_, ?_, fun m => ?_⟩
    · split <;> rfl
    · split
      · exact insertName_sorted (hg.consumers_sorted hv)
      · exact hg.consumers_sorted hv
    · have appended : (o.inputs ++ [var]).count n = o.inputs.count n + if n = var then 1 else 0 := by
        grind
      by_cases hm : m = op
      · subst hm
        rw [if_pos rfl, appended]
        split
        · simp [count_insertName, consumers, ho]
        · simp [consumers, ho]
      · rw [if_neg hm]
        split
        · simp [count_insertName, hm]
        · rfl

theorem appendInput_refuses (h : ¬(op ∈ g.operations ∧ var ∈ g.vars)) :
    Refuses (appendInput op var) g := by
  cases contained : g.vars.contains var with
  | false =>
    exact ⟨.unknownVariable var, by
      simp only [appendInput, run_bind, run_get, run_require, contained, Bool.false_eq_true,
        if_false]⟩
  | true =>
    have unknown := updateOperation_error
      (f := fun o : Operation α => { o with inputs := o.inputs ++ [var] })
      fun hop => h ⟨hop, contained⟩
    exact ⟨.unknownOperation op, by
      simp only [appendInput, run_bind, run_get, run_require, contained, if_true, unknown]⟩

theorem repeat_eraseConsumer (op : String) (k : Nat) (v : Variable α) :
    ∃ l, Nat.repeat (fun v : Variable α => { v with consumers := v.consumers.erase op }) k v =
        { v with consumers := l } ∧ (v.consumers.Pairwise (· ≤ ·) → l.Pairwise (· ≤ ·)) ∧
      ∀ n, l.count n = if n = op then v.consumers.count n - k else v.consumers.count n := by
  induction k with
  | zero => exact ⟨v.consumers, rfl, id, fun n => by simp⟩
  | succ k ih =>
    obtain ⟨l, hl, sorted, count⟩ := ih
    refine ⟨l.erase op, by rw [Nat.repeat, hl],
      fun h => (sorted h).sublist List.erase_sublist, fun n => ?_⟩
    by_cases hn : n = op
    · subst hn
      rw [List.count_erase_self, count, if_pos rfl, if_pos rfl]
      omega
    · rw [List.count_erase_of_ne hn, count, if_neg hn, if_neg hn]

theorem truncateInputs_yields (hg : g.Linked) (hop : op ∈ g.operations) (keep : Nat) :
    Yields (truncateInputs op keep) g () { g.content with
      operations := g.operations.modify op fun o => { o with inputs := o.inputs.take keep } } := by
  obtain ⟨o, ho⟩ := Graph.mem_operations_iff.1 hop
  by_cases short : keep < o.inputs.length
  · have first := updateOperation_ok
      (f := fun o : Operation α => { o with inputs := o.inputs.take keep }) hop
    have dropped : ∀ n ∈ o.inputs.drop keep, n ∈ (g.modifyOperation op fun o =>
        { o with inputs := o.inputs.take keep }).vars :=
      fun n hn => hg.input_known ho (List.mem_of_mem_drop hn)
    have second := forM_updateVariable
      (f := fun v : Variable α => { v with consumers := v.consumers.erase op }) dropped
    refine ⟨_, by
      simp only [truncateInputs, run_bind, run_getOperation, ho, short, if_true, first, second],
      hg.relinkInputs ho (f := fun o => { o with inputs := o.inputs.take keep }) ⟨rfl, rfl⟩
        (F := fun n v => Nat.repeat (fun v => { v with consumers := v.consumers.erase op })
          ((o.inputs.drop keep).count n) v)
        (fun n hn => hg.input_known ho (List.mem_of_mem_take hn)) fun n v hv => ?_⟩
    obtain ⟨l, hl, sorted, count⟩ :=
      repeat_eraseConsumer op ((o.inputs.drop keep).count n) v
    refine ⟨l, hl, sorted (hg.consumers_sorted hv), fun m => ?_⟩
    have total : o.inputs.count n = (o.inputs.take keep).count n + (o.inputs.drop keep).count n := by
      rw [← List.count_append, List.take_append_drop]
    rw [count]
    split
    · rw [hg.count_consumers hv, ‹m = op›, ho, Option.map_some, Option.getD_some]
      exact Nat.sub_eq_of_eq_add total
    · rfl
  · have taken : ({ o with inputs := o.inputs.take keep } : Operation α) = o := by
      rw [List.take_of_length_le (Nat.not_lt.1 short)]
    have same : g.operations.modify op (fun o => { o with inputs := o.inputs.take keep }) =
        g.operations := NameMap.modify_eq_self ho taken
    refine ⟨g, ?_, hg, by rw [same]; rfl⟩
    simp only [truncateInputs, run_bind, run_getOperation, ho, short, if_false, run_pure]

theorem truncateInputs_refuses (unknown : op ∉ g.operations) (keep : Nat) :
    Refuses (truncateInputs op keep) g := by
  have ho : g.getOperation? op = none := NameMap.get?_eq_none_iff.2 unknown
  exact ⟨.unknownOperation op, by simp only [truncateInputs, run_bind, run_getOperation, ho]⟩

/-- The variable `n` once `op` produces `new` instead of `old`. -/
def moveProducer (op old new n : String) (v : Variable α) : Variable α :=
  { v with producer := if n = new then some op else if n = old then none else v.producer }

theorem replaceOutput_run (hg : g.Linked) (made : g.Produces op old) (known : new ∈ g.vars)
    (unmade : ∀ p, ¬g.Produces p new) : replaceOutput op old new g =
      .ok () ((g.modifyOperation op fun o =>
        { o with outputs := o.outputs.replace old new }).mapVariables (moveProducer op old new)) := by
  obtain ⟨o, ho, hold⟩ := made
  obtain ⟨w, hw⟩ := Graph.mem_vars_iff.1 known
  have hop : op ∈ g.operations := Graph.mem_operations_iff.2 ⟨o, ho⟩
  have free : w.producer = none :=
    Option.eq_none_iff_forall_not_mem.2 fun p hp => unmade p ((hg.producer_iff hw p).1 hp)
  have contained : o.outputs.contains old = true := List.contains_iff_mem.2 hold
  have first := updateOperation_ok
    (f := fun o : Operation α => { o with outputs := o.outputs.replace old new }) hop
  have second := updateVariable_ok (f := fun v : Variable α => { v with producer := none })
    (g := g.modifyOperation op fun o => { o with outputs := o.outputs.replace old new })
    (hg.output_known ho hold)
  have third := updateVariable_ok (f := fun v : Variable α => { v with producer := some op })
    (g := (g.modifyOperation op fun o =>
      { o with outputs := o.outputs.replace old new }).modifyVariable old
        fun v => { v with producer := none })
    (Graph.mem_vars_modifyVariable.2 known)
  have moved : moveProducer (α := α) op old new = fun n v =>
      let v := if n = old then { v with producer := none } else v
      if n = new then { v with producer := some op } else v := by
    funext n v
    unfold moveProducer
    split <;> split <;> rfl
  simp only [replaceOutput, run_bind, run_getVariable, hw, run_require, free, Option.isNone_none,
    if_true, run_getOperation, ho, contained, first, second, third]
  rw [Graph.modifyVariable_eq, Graph.modifyVariable_eq, Graph.mapVariables_mapVariables, moved]

theorem replaceOutput_yields (hg : g.Linked) (made : g.Produces op old) (known : new ∈ g.vars)
    (unmade : ∀ p, ¬g.Produces p new) :
    Yields (replaceOutput op old new) g () { g.content with
      operations := g.operations.modify op
        fun o => { o with outputs := o.outputs.replace old new } } := by
  have run := replaceOutput_run hg made known unmade
  obtain ⟨o, ho, hold⟩ := made
  refine ⟨_, run, hg.relinkOperation ho (fun _ _ _ => rfl) rfl (fun n hn => ?_)
      (replace_nodup (hg.outputs_nodup ho) fun h => unmade op ⟨o, ho, h⟩)
      (fun n v hv => ?_) (fun n v hv m => ?_) fun n v hv m => ?_,
    Graph.content_mapVariables (g := g.modifyOperation op _) fun _ _ _ => rfl⟩
  · rcases List.mem_append.1 hn with hn | hn
    · exact hg.input_known ho hn
    · rcases (mem_replace (hg.outputs_nodup ho) hold).1 hn with rfl | ⟨hn, -⟩
      · exact known
      · exact hg.output_known ho hn
  · have sorted := hg.consumers_sorted hv
    exact sorted
  · change v.consumers.count m = _
    split
    · rw [‹m = op›, hg.count_consumers hv, ho, Option.map_some, Option.getD_some]
    · rfl
  · have mine : n = old → (v.producer = some m ↔ m = op) := by
      rintro rfl
      rw [(hg.producer_iff hv op).2 ⟨o, ho, hold⟩, Option.some.injEq, eq_comm]
    have made : v.producer = some op ↔ n ∈ o.outputs := by
      rw [hg.producer_iff hv, ho]
      simp
    rw [moveProducer, mem_replace (hg.outputs_nodup ho) hold]
    have other : n = new → v.producer ≠ some m := by
      rintro rfl hp
      exact unmade m ((hg.producer_iff hv m).1 hp)
    grind

theorem replaceOutput_refuses (hg : g.Linked)
    (h : ¬(g.Produces op old ∧ new ∈ g.vars ∧ ∀ p, ¬g.Produces p new)) :
    Refuses (replaceOutput op old new) g := by
  cases hw : g.getVariable? new with
  | none =>
    exact ⟨.unknownVariable new, by simp only [replaceOutput, run_bind, run_getVariable, hw]⟩
  | some w =>
    cases free : w.producer.isNone with
    | false =>
      exact ⟨.hasProducer new, by
        simp only [replaceOutput, run_bind, run_getVariable, hw, run_require, free,
          Bool.false_eq_true, if_false]⟩
    | true =>
      cases ho : g.getOperation? op with
      | none =>
        exact ⟨.unknownOperation op, by
          simp only [replaceOutput, run_bind, run_getVariable, hw, run_require, free, if_true,
            run_getOperation, ho]⟩
      | some o =>
        have contained : o.outputs.contains old = false := by
          rw [Bool.eq_false_iff]
          intro hold
          refine h ⟨⟨o, ho, List.contains_iff_mem.1 hold⟩, Graph.mem_vars_iff.2 ⟨w, hw⟩, ?_⟩
          intro p hp
          rw [(hg.producer_iff hw p).2 hp] at free
          cases free
        exact ⟨.notProduced op old, by
          simp only [replaceOutput, run_bind, run_getVariable, hw, run_require, free, if_true,
            run_getOperation, ho, contained, Bool.false_eq_true, if_false]⟩

end Edit

end GraphDispatch
