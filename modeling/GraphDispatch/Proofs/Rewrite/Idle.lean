import GraphDispatch.Proofs.Rewrite.Canonical
import GraphDispatch.Proofs.Rewrite.Isolated
import GraphDispatch.Rewrite.Format

/-!
# Commands with nothing to do

`Command.Idle` says what a graph is like on which a command finds nothing to rewrite. There
the command succeeds and leaves the graph alone.
-/

namespace GraphDispatch

open GraphDispatch.Graph

variable {α : Type} [Scalar α] {g : Graph α}

/-- The plan for the normalization is not to fold it. -/
def Rewrite.Stays (g : Graph α) (norm : String) : Prop :=
  ∃ plan, planFusion g norm = .ok plan ∧ ∀ f, plan ≠ .fold f

/-- The command finds nothing to rewrite. -/
def Command.Idle : Command → Graph α → Prop
  | constants, g => ∀ op o, g.getOperation? op = some o → o.type ≠ "Constant"
  | batchNorms, g => ∀ op o, g.getOperation? op = some o → o.type = "BatchNormalization" →
    Rewrite.Stays g op
  | sharedParameters, g => ∀ var d, g.content.declarations.get? var = some d →
    d.isParameter = true → (∀ op, ¬g.Produces op var) → ∀ p q, g.Reads p var → g.Reads q var → p = q
  | casts, g => ∀ op o, g.getOperation? op = some o → o.type = "Cast" → Rewrite.Named o
  | slices, g => ∀ op o, g.getOperation? op = some o → o.type = "Slice" → Rewrite.Bounded g o
  | clips, g => ∀ op o, g.getOperation? op = some o → o.type = "Clip" →
    3 ≤ o.inputs.length ∧ Rewrite.hasLimitAttributes o = false
  | isolated, g => (g.outputs = [] ∨ ∀ op ∈ g.operations, op ∈ Rewrite.contributing g) ∧
    ∀ var ∈ g.vars, ¬Rewrite.Unreferenced g var

namespace Rewrite

section Commands

variable (hg : g.Linked)
include hg

theorem constants_leads (idle : Command.constants.Idle g) :
    Task.Leads constants g fun n g' => n = 0 ∧ g' = g := by
  refine countChanges_leads fun op hop => ?_
  obtain ⟨o, ho, type⟩ := hg.mem_operationsOfType.1 hop
  exact absurd type (idle op o ho)

omit hg in
theorem foldBatchNorm_stays {norm : String} (stays : Stays g norm) :
    Task.Leads (foldBatchNorm norm) g fun changed g' => changed = false ∧ g' = g := by
  obtain ⟨plan, planned, keep⟩ := stays
  unfold foldBatchNorm
  apply Task.leads_state_bind
  rw [planned]
  apply Task.leads_ofExcept_bind
  cases plan with
  | skip => exact Task.leads_pure ⟨rfl, rfl⟩
  | statisticsNotParameters => exact Task.leads_note_bind (Task.leads_pure ⟨rfl, rfl⟩)
  | statisticsMismatch => exact Task.leads_note_bind (Task.leads_pure ⟨rfl, rfl⟩)
  | fold f => exact absurd rfl (keep f)

theorem batchNorms_leads (idle : Command.batchNorms.Idle g) :
    Task.Leads batchNorms g fun n g' => n = 0 ∧ g' = g := by
  refine countChanges_leads fun op hop => ?_
  obtain ⟨o, ho, type⟩ := hg.mem_operationsOfType.1 hop
  exact foldBatchNorm_stays (idle op o ho type)

theorem sharing?_of_idle (idle : Command.sharedParameters.Idle g) :
    g.vars.values.filterMap sharing? = [] := by
  rw [List.filterMap_eq_nil_iff]
  intro v hv
  obtain ⟨var, hvar⟩ := NameMap.mem_values.1 hv
  unfold sharing?
  split
  · rename_i first op others consumers
    split
    · rename_i spare
      rw [Bool.and_eq_true, Option.isNone_iff_eq_none] at spare
      have reads : ∀ n ∈ v.consumerNames, g.Reads n var :=
        fun n hn => (hg.mem_consumerNames hvar).1 hn
      have nodup := v.consumerNames_nodup
      rw [consumers] at reads nodup
      have unmade : ∀ n, ¬g.Produces n var := by
        intro n produces
        rw [(hg.producer_iff hvar n).2 produces] at spare
        cases spare.2
      have same : first = op := idle var v.declaration (declared_iff.2 ⟨v, hvar, rfl⟩) spare.1
        unmade first op (reads first (by simp)) (reads op (by simp))
      simp [same] at nodup
    · rfl
  · rfl

theorem sharedParameters_leads (idle : Command.sharedParameters.Idle g) :
    Task.Leads sharedParameters g fun n g' => n = 0 ∧ g' = g := by
  unfold sharedParameters
  apply Task.leads_state_bind
  rw [sharing?_of_idle hg idle]
  exact Task.leads_edit_bind rfl (Task.leads_pure ⟨rfl, rfl⟩)

theorem casts_leads (idle : Command.casts.Idle g) :
    Task.Leads casts g fun n g' => n = 0 ∧ g' = g := by
  refine countChanges_leads fun op hop => ?_
  obtain ⟨o, ho, type⟩ := hg.mem_operationsOfType.1 hop
  obtain ⟨t, target, named⟩ := idle op o ho type
  apply (getOperation_leads "cast" ho).bind
  intro p g' same
  rw [same.1, same.2, target]
  apply Task.leads_ofExcept_bind
  rw [if_pos named]
  exact Task.leads_pure ⟨rfl, rfl⟩

theorem slices_leads (idle : Command.slices.Idle g) :
    Task.Leads slices g fun n g' => n = 0 ∧ g' = g := by
  refine countChanges_leads fun op hop => ?_
  obtain ⟨o, ho, type⟩ := hg.mem_operationsOfType.1 hop
  obtain ⟨unbound, unranked⟩ := idle op o ho type
  apply (getOperation_leads "slice" ho).bind
  intro p g' same
  rw [same.1, same.2]
  dsimp only
  rw [if_neg (by simp [unbound])]
  split
  · exact Task.leads_pure ⟨rfl, rfl⟩
  · rename_i slots
    apply Task.leads_state_bind
    rw [unranked (by simp at slots; omega)]
    exact Task.leads_pure ⟨rfl, rfl⟩

theorem clips_leads (idle : Command.clips.Idle g) :
    Task.Leads clips g fun n g' => n = 0 ∧ g' = g := by
  refine countChanges_leads fun op hop => ?_
  obtain ⟨o, ho, type⟩ := hg.mem_operationsOfType.1 hop
  obtain ⟨slots, unlimited⟩ := idle op o ho type
  apply (getOperation_leads "clip" ho).bind
  intro p g' same
  rw [same.1, same.2, if_pos (by simp [slots, unlimited])]
  exact Task.leads_pure ⟨rfl, rfl⟩

theorem isolated_leads (idle : Command.isolated.Idle g) :
    Task.Leads isolated g fun n g' => n = 0 ∧ g' = g := by
  obtain ⟨alive, referenced⟩ := idle
  have unused : unreferenced g = [] := by
    rw [List.eq_nil_iff_forall_not_mem]
    intro var hvar
    obtain ⟨known, spare⟩ := (mem_unreferenced hg).1 hvar
    exact referenced var known spare
  have rest : Task.Leads (do
      edit (([] : List String).forM fun op => discard (Edit.removeOperation op))
      let unused := unreferenced (← Task.state)
      edit (unused.forM fun var => discard (Edit.removeVariable var))
      return ([] : List String).length + unused.length : Rewrite α Nat) g
      fun n g' => n = 0 ∧ g' = g := by
    refine Task.leads_edit_bind rfl ?_
    apply Task.leads_state_bind
    rw [unused]
    exact Task.leads_edit_bind rfl (Task.leads_pure ⟨rfl, rfl⟩)
  unfold isolated
  apply Task.leads_state_bind
  dsimp only
  split
  · exact Task.leads_note_bind rest
  · rename_i outputs
    have dead : deadOperations g = [] := by
      rcases alive with none | alive
      · simp [none] at outputs
      · unfold deadOperations
        rw [List.filter_eq_nil_iff]
        intro op hop
        simpa using alive op (NameMap.mem_names.1 hop)
    rw [dead]
    exact rest

end Commands

end Rewrite

/-- A command with nothing to do succeeds and leaves the graph alone. -/
theorem process_leads {c : Command} (hg : g.Linked) (idle : c.Idle g) :
    Task.Leads (process c) g fun n g' => n = 0 ∧ g' = g := by
  apply process_leads_of_rewrite
  cases c with
  | constants => exact Rewrite.constants_leads hg idle
  | batchNorms => exact Rewrite.batchNorms_leads hg idle
  | sharedParameters => exact Rewrite.sharedParameters_leads hg idle
  | casts => exact Rewrite.casts_leads hg idle
  | slices => exact Rewrite.slices_leads hg idle
  | clips => exact Rewrite.clips_leads hg idle
  | isolated => exact Rewrite.isolated_leads hg idle

theorem format_leads_of_commands {g' : Graph α}
    (commands : Task.Leads (Command.all.forM fun c => discard (process c)) g fun _ h => h = g')
    (checked : g'.check = .ok ()) : Task.Leads format g fun _ h => h = g' := by
  unfold format
  refine commands.bind fun _ h same => ?_
  rw [same]
  apply Task.leads_state_bind
  rw [checked]
  exact Task.leads_pure rfl

theorem format_leads (hg : g.Linked) (idle : ∀ c : Command, c.Idle g) (checked : g.check = .ok ()) :
    Task.Leads format g fun _ g' => g' = g := by
  refine format_leads_of_commands (Task.leads_forM (fun _ g' => g' = g) (fun c l g' same => ?_) rfl)
    checked
  rw [same]
  refine (process_leads hg (idle c)).discard.mono fun _ k done => ?_
  obtain ⟨_, _, unchanged⟩ := done
  exact unchanged

end GraphDispatch
