import GraphDispatch.Proofs.Links.Runs

/-!
# What rewrites share
-/

namespace GraphDispatch

variable {α : Type} {g : Graph α}

theorem Graph.declared_iff {var : String} {d : Declaration α} :
    g.content.declarations.get? var = some d ↔
      ∃ v, g.getVariable? var = some v ∧ v.declaration = d := by
  rw [get?_declarations, Option.map_eq_some_iff]

namespace Rewrite

theorem getOperation_ensures (kind op : String) :
    Task.Ensures (getOperation kind op) g fun o g' => g.getOperation? op = some o ∧ g' = g := by
  unfold getOperation
  apply Task.Ensures.state_bind
  cases g.getOperation? op with
  | none => exact .throw _
  | some o => exact .pure ⟨rfl, rfl⟩

theorem getOperation_leads {op : String} {o : Operation α} (kind : String)
    (ho : g.getOperation? op = some o) :
    Task.Leads (getOperation kind op) g fun p g' => p = o ∧ g' = g := by
  unfold getOperation
  apply Task.leads_state_bind
  rw [ho]
  exact Task.leads_pure ⟨rfl, rfl⟩

/-- The operations of the type are taken in turn; `I l` holds where those of `l` are still to
come. -/
theorem countChanges_ensures {type : String} {step : String → Rewrite α Bool}
    (I : List String → Graph α → Prop)
    (next : ∀ op l h, I (op :: l) h → Task.Ensures (step op) h fun _ h' => I l h')
    (start : I (g.operationsOfType type) g) :
    Task.Ensures (countChanges type step) g fun _ g' => I [] g' := by
  unfold countChanges
  apply Task.Ensures.state_bind
  refine Task.Ensures.foldlM I (fun n op l h hl => ?_) start
  apply (next op l h hl).bind
  intro changed h' hl'
  cases changed <;> exact .pure hl'

theorem countChanges_leads {type : String} {step : String → Rewrite α Bool}
    (h : ∀ op ∈ g.operationsOfType type,
      Task.Leads (step op) g fun changed g' => changed = false ∧ g' = g) :
    Task.Leads (countChanges type step) g fun n g' => n = 0 ∧ g' = g := by
  have rest : ∀ l : List String, (∀ op ∈ l, op ∈ g.operationsOfType type) → Task.Leads
      (l.foldlM (fun n op => return if ← step op then n + 1 else n) 0 : Rewrite α Nat) g
      fun n g' => n = 0 ∧ g' = g := by
    intro l hl
    induction l with
    | nil => exact Task.leads_pure ⟨rfl, rfl⟩
    | cons op l ih =>
      rw [List.foldlM_cons]
      apply Task.Leads.bind (Q := fun n g' => n = 0 ∧ g' = g)
      · apply (h op (hl op List.mem_cons_self)).bind
        intro changed g' same
        rw [same.1, same.2]
        exact Task.leads_pure ⟨rfl, rfl⟩
      · intro n g' same
        rw [same.1, same.2]
        exact ih fun op hop => hl op (List.mem_cons_of_mem _ hop)
  exact Task.leads_state_bind (rest _ fun _ hop => hop)

end Rewrite

/-- Running a command comes down to its rewrite. -/
theorem process_ensures [Scalar α] {c : Command} {Q : Graph α → Prop}
    (h : Task.Ensures c.rewrite g fun _ => Q) : Task.Ensures (process c) g fun _ => Q := by
  unfold process
  refine h.wrapError.bind fun n g' hg' => ?_
  exact Task.Ensures.state_bind (Task.Ensures.note_bind (.pure hg'))

theorem process_leads_of_rewrite [Scalar α] {c : Command} {Q : Nat → Graph α → Prop}
    (h : Task.Leads c.rewrite g Q) : Task.Leads (process c) g Q := by
  unfold process
  refine (Task.leads_wrapError h).bind fun n g' hg' => ?_
  exact Task.leads_state_bind (Task.leads_note_bind (Task.leads_pure hg'))

end GraphDispatch
