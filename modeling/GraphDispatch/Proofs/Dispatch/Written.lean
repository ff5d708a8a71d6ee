import GraphDispatch.Proofs.Dispatch.Failure
import GraphDispatch.Proofs.Switches.Reworked

/-!
# What a dispatch writes

The table of a dispatch that succeeds is settled before any switch is touched: it is the
proposal with the overrides on top. The graph gets the platforms of the table, and what the
switches change after that is no operation of the table but for switches.
-/

namespace GraphDispatch.Dispatch

open GraphDispatch.Graph

variable {α : Type} {g g' : Graph α} {r : Request} {table proposed : DispatchTable}

/-- The platform that the dispatcher of a request proposes for each operation. -/
def Request.Proposes (r : Request) (g : Graph α) (proposed : DispatchTable) : Prop :=
  ∃ quantTypes strategy, r.platform.quantizer? = some quantTypes ∧
    Strategy.parse? r.strategy = some strategy ∧
    propose strategy r.precedence g quantTypes targets = .ok proposed

theorem Request.proposes_of_planned {strategy : Strategy}
    (h : planned r g = .ok (strategy, proposed)) : r.Proposes g proposed := by
  unfold planned at h
  cases quantizer : r.platform.quantizer? with
  | none =>
    rw [quantizer] at h
    cases h
  | some quantTypes =>
    cases parsed : Strategy.parse? r.strategy with
    | none =>
      rw [quantizer, parsed] at h
      cases h
    | some strategy =>
      cases found : propose strategy r.precedence g quantTypes targets with
      | ok t =>
        simp only [quantizer, parsed, found] at h
        cases h
        exact ⟨quantTypes, strategy, quantizer, parsed, found⟩
      | error e =>
        simp only [quantizer, parsed, found] at h
        cases h

/-- A proposal says something about the operations of the graph and nothing else. -/
theorem Request.Proposes.mem_iff (h : r.Proposes g proposed) {op : String} :
    op ∈ proposed ↔ op ∈ g.operations := by
  obtain ⟨_, strategy, -, -, found⟩ := h
  unfold propose at found
  obtain ⟨kinds, -, found⟩ := except_bind_eq_ok found
  cases found
  exact NameMap.mem_mapEntries

/-- What is written to `g` by a dispatch with the request, which leads to `g'`. -/
structure Written (r : Request) (g : Graph α) (table : DispatchTable) (g' : Graph α) : Prop where
  keys : ∀ op, op ∈ table ↔ op ∈ g.operations
  /-- An override counts as it is decoded, otherwise the proposal does. -/
  decided : ∃ proposed, r.Proposes g proposed ∧ ∀ op ∈ g.operations,
    (∀ code, r.overrides.get? op = some code →
      ∃ p, Platform.ofCode? code = some p ∧ table.get? op = some p) ∧
    (r.overrides.get? op = none → table.get? op = proposed.get? op)
  kept : ∀ op o, g.getOperation? op = some o → o.type ≠ switchType →
    ∃ o', g'.getOperation? op = some o' ∧ table.get? op = some o'.platform ∧
      o'.type = o.type ∧ o'.attributes = o.attributes ∧ o'.outputs = o.outputs ∧
      o'.inputs.length = o.inputs.length
  added : ∀ op o', g'.getOperation? op = some o' → op ∉ g.operations →
    o'.type = switchType ∧ o'.platform = .boundary
  removed : ∀ op o, g.getOperation? op = some o → op ∉ g'.operations → o.type = switchType

theorem apply_ensures {σ : Type} {s : σ} (overrides : Overrides) (t : DispatchTable) :
    Task.Ensures (overrides.apply g t) s fun u k => overrides.Decodable g ∧ k = s ∧
      ∀ n, u.get? n = (if n ∈ g.operations then overrides.asked n else none).or (t.get? n) := by
  intro events u later run
  have decodable := Overrides.decodable_of_apply run
  exact ⟨decodable, (Overrides.apply_leads decodable t).ensures events u later run⟩

/-- An override of an operation that the graph does not have adds none to the table. -/
theorem mem_reconciled (proposes : r.Proposes g proposed)
    (found : ∀ n, table.get? n =
      (if n ∈ g.operations then r.overrides.asked n else none).or (proposed.get? n))
    (op : String) : op ∈ table ↔ op ∈ g.operations := by
  by_cases known : op ∈ g.operations
  · obtain ⟨p, hp⟩ := NameMap.mem_iff.1 (proposes.mem_iff.2 known)
    refine iff_of_true (NameMap.mem_iff.2 ?_) known
    rw [found, if_pos known, hp]
    cases r.overrides.asked op <;> exact ⟨_, rfl⟩
  · rw [← proposes.mem_iff, NameMap.mem_iff, NameMap.mem_iff, found, if_neg known,
      Option.none_or]

/-- The assigned graph differs from `g` in the platforms only, so its rework is one of `g`. -/
theorem written_of_reworked (proposes : r.Proposes g proposed)
    (decodable : r.overrides.Decodable g)
    (found : ∀ n, table.get? n =
      (if n ∈ g.operations then r.overrides.asked n else none).or (proposed.get? n))
    (reworked : Reworked (g.assign table.platforms) g') : Written r g table g' := by
  have keys := mem_reconciled proposes found
  have kept : ∀ op o, g.getOperation? op = some o → o.type ≠ switchType →
      ∃ o', g'.getOperation? op = some o' ∧ table.get? op = some o'.platform ∧
        o'.type = o.type ∧ o'.attributes = o.attributes ∧ o'.outputs = o.outputs ∧
        o'.inputs.length = o.inputs.length := by
    intro op o ho unswitched
    obtain ⟨o', ho', rewired⟩ := reworked.kept op _ (assign_eq_some.2 ⟨o, ho, rfl⟩)
      (decide_eq_false unswitched)
    obtain ⟨p, hp⟩ := NameMap.mem_iff.1 ((keys op).2 (mem_operations_iff.2 ⟨o, ho⟩))
    have platform : o'.platform = p := by
      rw [rewired.platform, DispatchTable.platforms, hp, Option.getD_some]
    exact ⟨o', ho', platform ▸ hp, rewired.type, rewired.attributes, rewired.outputs,
      rewired.slots⟩
  constructor
  case keys => exact keys
  case kept => exact kept
  case decided =>
    refine ⟨proposed, proposes, fun op known => ⟨fun code asked => ?_, fun silent => ?_⟩⟩
    · obtain ⟨p, hp⟩ := decodable op code asked known
      refine ⟨p, hp, ?_⟩
      rw [found, if_pos known, Overrides.asked, asked, Option.bind_some, hp, Option.some_or]
    · rw [found, if_pos known, Overrides.asked, silent, Option.bind_none, Option.none_or]
  case added =>
    intro op o' ho' new
    rcases reworked.stems op o' ho' with ⟨o, ho, -⟩ | ⟨switch, platform⟩
    · obtain ⟨p, hp, -⟩ := assign_eq_some.1 ho
      exact absurd (mem_operations_iff.2 ⟨p, hp⟩) new
    · exact ⟨of_decide_eq_true switch, platform⟩
  case removed =>
    intro op o ho gone
    refine Decidable.byContradiction fun unswitched => gone ?_
    obtain ⟨o', ho', -⟩ := kept op o ho unswitched
    exact mem_operations_iff.2 ⟨o', ho'⟩

/-- A dispatch that succeeds has put the overrides on top of its proposal, assigned the platforms
and inserted switches. -/
theorem run_ensures (hg : g.Linked) {Q : DispatchTable → Graph α → Prop}
    (inserts : ∀ {table proposed}, r.Proposes g proposed → r.overrides.Decodable g →
      (∀ n, table.get? n =
        (if n ∈ g.operations then r.overrides.asked n else none).or (proposed.get? n)) →
      Task.Ensures insertSwitches (g.assign table.platforms) fun _ h => Q table h) :
    Task.Ensures (run r) g Q := by
  unfold run
  apply Task.Ensures.state_bind
  apply Task.Ensures.ofExcept_bind
  intro plan planned
  obtain ⟨strategy, proposed⟩ := plan
  have proposes := Request.proposes_of_planned planned
  apply Task.Ensures.state_bind
  refine (notes_leads g _).ensures.bind fun _ k same => ?_
  rw [same]
  apply Task.Ensures.state_bind
  refine (apply_ensures r.overrides proposed).bind fun table k done => ?_
  obtain ⟨decodable, same, found⟩ := done
  rw [same]
  have covers := fun op => (mem_reconciled proposes found op).2
  refine (DispatchTable.commit_leads hg covers).ensures.bind fun _ k same => ?_
  rw [same]
  refine (inserts proposes decodable found).bind fun _ h left => ?_
  apply Task.Ensures.state_bind
  exact Task.Ensures.note_bind (.pure left)

theorem run_writes (hg : g.Linked) (r : Request) :
    Task.Ensures (run r) g fun table g' => Written r g table g' :=
  run_ensures hg fun proposes decodable found =>
    (insertSwitches_reworks (hg.assign _)).mono fun _ _ reworked =>
      written_of_reworked proposes decodable found reworked

/-- A dispatch that succeeds returns a table of the operations of the graph, and its graph has
the operations of the table on their platforms. Only switches come and go. -/
theorem run_returns_written [Scalar α] (reachable : Reachable g) {events later : List Event}
    (success : run r ⟨g, events⟩ = .ok table ⟨g', later⟩) : Written r g table g' :=
  run_writes reachable.linked r events table ⟨g', later⟩ success

/-- The second override is of no operation, so nobody decodes it. -/
def steered : Request :=
  ⟨.trtInt8, "conservative", .quantizationFirst,
    .ofList [("conv", Platform.fp32.code), ("gone", 77)]⟩

theorem run_returns_written_detoured : ∃ table g' later,
    run steered ⟨detoured, []⟩ = .ok table ⟨g', later⟩ ∧ Written steered detoured table g' := by
  have reachable : Reachable detoured := ⟨_, detour, .empty "net", rfl⟩
  have accepted : steered.Accepted detoured :=
    ⟨⟨trtTypes, rfl⟩, ⟨.conservative, by decide⟩, by decide⟩
  obtain ⟨table, g', later, success, -⟩ :=
    run_succeeds reachable.linked detoured_acyclic accepted []
  exact ⟨table, g', later, success, run_returns_written reachable success⟩

end GraphDispatch.Dispatch
