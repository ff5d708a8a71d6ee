import GraphDispatch.Dispatch.Run
import GraphDispatch.Proofs.Dispatch.Tables
import GraphDispatch.Proofs.MainPath
import GraphDispatch.Proofs.Shapes

/-!
# Runs of a dispatch

A dispatch of a graph without cycles succeeds exactly if its request can be met. It
comes down to an assignment of platforms and the switches for it.
-/

namespace GraphDispatch.Dispatch

open GraphDispatch.Graph

variable {α : Type} {g g' : Graph α} {r : Request}

/-- The target has a quantizer, the strategy is known and the overrides can be decoded. -/
structure Request.Accepted (r : Request) (g : Graph α) : Prop where
  quantizer : ∃ quantTypes, r.platform.quantizer? = some quantTypes
  strategy : ∃ strategy, Strategy.parse? r.strategy = some strategy
  overrides : r.overrides.Decodable g

theorem classify_ok (hg : g.Linked) (acyclic : g.Acyclic) (strategy : Strategy)
    (quantTypes : List String) : ∃ kinds, classify strategy g quantTypes = .ok kinds := by
  obtain ⟨shapes, run, -⟩ := shapeDerived_ok hg acyclic
  unfold classify
  cases strategy with
  | pointwise => exact ⟨_, rfl⟩
  | aggressive =>
    simp only [run]
    exact ⟨_, rfl⟩
  | conservative =>
    simp only [run]
    exact ⟨_, rfl⟩

/-- What the strategy of a request sees in the operations of a graph. -/
def Request.Sees (r : Request) (g : Graph α) (kinds : Operation α → Kinds) : Prop :=
  ∃ quantTypes strategy, r.platform.quantizer? = some quantTypes ∧
    Strategy.parse? r.strategy = some strategy ∧ classify strategy g quantTypes = .ok kinds

/-- The platform that a request gives to an operation. -/
def Request.decide (r : Request) (kinds : Operation α → Kinds) (g : Graph α) (op : String) :
    Platform :=
  (r.overrides.asked op).getD
    (((g.getOperation? op).map (place targets r.precedence kinds)).getD default)

theorem Request.Accepted.sees (accepted : r.Accepted g) (hg : g.Linked) (acyclic : g.Acyclic) :
    ∃ kinds, r.Sees g kinds := by
  obtain ⟨quantTypes, quantizer⟩ := accepted.quantizer
  obtain ⟨strategy, parsed⟩ := accepted.strategy
  obtain ⟨kinds, run⟩ := classify_ok hg acyclic strategy quantTypes
  exact ⟨kinds, quantTypes, strategy, quantizer, parsed, run⟩

theorem planned_ok {kinds : Operation α → Kinds} (sees : r.Sees g kinds) :
    ∃ strategy, planned r g = .ok (strategy,
      g.operations.mapEntries fun _ o => place targets r.precedence kinds o) := by
  obtain ⟨quantTypes, strategy, quantizer, parsed, run⟩ := sees
  refine ⟨strategy, ?_⟩
  unfold planned
  simp only [quantizer, parsed, propose, run]
  rfl

theorem notes_leads (g : Graph α) (l : List Event) :
    Task.Leads (l.forM Task.note : Dispatching α PUnit) g fun _ k => k = g := by
  induction l with
  | nil => exact Task.leads_pure rfl
  | cons e l ih => exact Task.leads_note_bind ih

/-- The table that a run writes. -/
theorem platforms_eq_decide {kinds : Operation α → Kinds} {table : DispatchTable}
    (found : ∀ n, table.get? n = (if n ∈ g.operations then r.overrides.asked n else none).or
      ((g.operations.mapEntries fun _ o => place targets r.precedence kinds o).get? n))
    {op : String} (known : op ∈ g.operations) :
    table.get? op = some (r.decide kinds g op) := by
  obtain ⟨o, ho⟩ := mem_operations_iff.1 known
  have look : g.operations.get? op = some o := ho
  rw [found, if_pos known, NameMap.get?_mapEntries, look, Request.decide, ho]
  cases r.overrides.asked op <;> rfl

/-- An accepted request puts every operation on the platform that is decided for it; what
comes after that is up to the switches. -/
theorem run_leads_to (hg : g.Linked) (accepted : r.Accepted g) {kinds : Operation α → Kinds}
    (sees : r.Sees g kinds) {Q : Graph α → Prop}
    (switched : Task.Leads insertSwitches (g.assign (r.decide kinds g)) fun _ => Q) :
    Task.Leads (run r) g fun _ => Q := by
  obtain ⟨strategy, planned⟩ := planned_ok sees
  refine Task.leads_state_bind ?_
  rw [planned]
  refine Task.leads_ofExcept_bind (Task.leads_state_bind ?_)
  refine (notes_leads g _).bind ?_
  intro _ k same
  rw [same]
  refine Task.leads_state_bind ?_
  refine (Overrides.apply_leads accepted.overrides _).bind ?_
  rintro table k ⟨same, found⟩
  rw [same]
  have written : ∀ op ∈ g.operations, table.get? op = some (r.decide kinds g op) :=
    fun op => platforms_eq_decide found
  refine (DispatchTable.commit_leads hg fun op known =>
    NameMap.mem_of_get? (written op known)).bind ?_
  intro _ k same
  rw [same]
  have assigned : ∀ op ∈ g.operations, table.platforms op = r.decide kinds g op := by
    intro op known
    rw [DispatchTable.platforms, written op known, Option.getD_some]
  rw [assign_congr assigned]
  refine switched.bind ?_
  intro switches g' done
  exact Task.leads_state_bind (Task.leads_note_bind (Task.leads_pure done))

theorem run_leads (hg : g.Sound) (accepted : r.Accepted g) {kinds : Operation α → Kinds}
    (sees : r.Sees g kinds) :
    Task.Leads (run r) g fun _ g' => ∃ h, Reswitched (g.assign (r.decide kinds g)) h g' :=
  run_leads_to hg.linked accepted sees (insertSwitches_leads (hg.assign _))

/-- A plan is made of what the request sees. -/
theorem planned_eq_ok {plan : Strategy × DispatchTable} (h : planned r g = .ok plan) :
    ∃ kinds, r.Sees g kinds := by
  unfold planned at h
  cases quantizer : r.platform.quantizer? with
  | none =>
    rw [quantizer] at h
    cases h
  | some quantTypes =>
    cases parsed : Strategy.parse? r.strategy with
    | none =>
      rw [quantizer, parsed] at h
      cases h
    | some strategy =>
      cases run : classify strategy g quantTypes with
      | ok kinds => exact ⟨kinds, quantTypes, strategy, quantizer, parsed, run⟩
      | error e =>
        simp only [quantizer, parsed, propose, run] at h
        cases h

theorem Request.Sees.accepted {kinds : Operation α → Kinds} (sees : r.Sees g kinds)
    (decodable : r.overrides.Decodable g) : r.Accepted g := by
  obtain ⟨quantTypes, strategy, quantizer, parsed, -⟩ := sees
  exact ⟨⟨quantTypes, quantizer⟩, ⟨strategy, parsed⟩, decodable⟩

/-- Without a plan a run is over before it has changed anything. -/
theorem run_of_error {events : List Event} {e : DispatchError} (plan : planned r g = .error e) :
    run r ⟨g, events⟩ = .error e ⟨g, events⟩ := by
  unfold run
  rw [bind_of_ok (show Task.state ⟨g, events⟩ = .ok g ⟨g, events⟩ from rfl), plan]
  rfl

/-- What a run does with its table. -/
def carryOut (strategy : Strategy) (table : DispatchTable) : Dispatching α DispatchTable := do
  table.commit
  let switches ← insertSwitches
  Task.note (.dispatched table.size (← Task.state).name strategy switches)
  return table

/-- With a plan a run goes on to the overrides and carries out their table. -/
theorem run_of_planned {strategy : Strategy} {proposed : DispatchTable}
    (plan : planned r g = .ok (strategy, proposed)) (events : List Event) :
    ∃ reported, run r ⟨g, events⟩ =
      (r.overrides.apply g proposed >>= carryOut strategy) ⟨g, reported⟩ := by
  obtain ⟨_, k, reported, noted, rfl⟩ := notes_leads g (proposalEvents g proposed) events
  unfold run
  rw [bind_of_ok (show Task.state ⟨k, events⟩ = .ok k ⟨k, events⟩ from rfl), plan]
  exact ⟨reported, bind_of_ok noted⟩

/-- Only an accepted request makes a run succeed. -/
theorem accepted_of_run {events later : List Event} {table : DispatchTable}
    (success : run r ⟨g, events⟩ = .ok table ⟨g', later⟩) : r.Accepted g := by
  cases plan : planned r g with
  | error e =>
    rw [run_of_error plan] at success
    cases success
  | ok p =>
    obtain ⟨kinds, sees⟩ := planned_eq_ok plan
    obtain ⟨reported, goes⟩ := run_of_planned plan events
    rw [goes] at success
    obtain ⟨_, _, applied, -⟩ := bind_eq_ok.1 success
    exact sees.accepted (Overrides.decodable_of_apply applied)

/-- The dispatch of `g` succeeds and leads to `h`. -/
def Dispatched (r : Request) (events : List Event) (g h : Graph α) : Prop :=
  ∃ table later, run r ⟨g, events⟩ = .ok table ⟨h, later⟩

theorem Dispatched.accepted {events : List Event} (dispatched : Dispatched r events g g') :
    r.Accepted g := by
  obtain ⟨table, later, run⟩ := dispatched
  exact accepted_of_run run

theorem Dispatched.reswitched {events : List Event} (dispatched : Dispatched r events g g')
    (hg : g.Sound) {kinds : Operation α → Kinds} (sees : r.Sees g kinds) :
    ∃ h, Reswitched (g.assign (r.decide kinds g)) h g' := by
  obtain ⟨table, later, run⟩ := dispatched
  obtain ⟨_, k, _, run', way⟩ := run_leads hg (accepted_of_run run) sees events
  rw [run] at run'
  cases run'
  exact way

/-- A dispatch succeeds exactly if its request is accepted, whatever was reported before. -/
theorem dispatched_iff (hg : g.Sound) (events : List Event) :
    (∃ h, Dispatched r events g h) ↔ r.Accepted g := by
  constructor
  · rintro ⟨h, dispatched⟩
    exact dispatched.accepted
  · intro accepted
    obtain ⟨kinds, sees⟩ := accepted.sees hg.linked hg.acyclic
    obtain ⟨table, h, later, run, -⟩ := run_leads hg accepted sees events
    exact ⟨h, table, later, run⟩

end GraphDispatch.Dispatch
