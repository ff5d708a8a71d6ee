import GraphDispatch.Proofs.Dispatch.Runs
import GraphDispatch.Proofs.Switches.Progress

/-!
# Failing dispatches

A dispatch fails for four reasons, all of which are met before the first platform is
written. Once the table is written nothing can fail any more.
-/

namespace GraphDispatch

/-- Whether a strategy looks for shape computations, in order of execution. -/
def Strategy.TracesShapes (s : Strategy) : Prop := s ≠ .pointwise

namespace Dispatch

open GraphDispatch.Graph

variable {α : Type} {g g' : Graph α} {r : Request} {kinds : Operation α → Kinds}

/-- The reasons for which a dispatch fails. -/
inductive Request.Rejected (r : Request) (g : Graph α) : Prop where
  | quantizer : r.platform.quantizer? = none → Rejected r g
  | strategy : Strategy.parse? r.strategy = none → Rejected r g
  | cycle {s : Strategy} : Strategy.parse? r.strategy = some s → s.TracesShapes → ¬g.Acyclic →
    Rejected r g
  | code {op : String} {code : Int64} : r.overrides.get? op = some code → op ∈ g.operations →
    Platform.ofCode? code = none → Rejected r g

/-- The request names the strategy that does not notice cycles. -/
def Request.Pointwise (r : Request) : Prop := Strategy.parse? r.strategy = some .pointwise

theorem acyclic_of_classify (hg : g.Linked) {s : Strategy} {quantTypes : List String}
    (traces : s.TracesShapes) (h : classify s g quantTypes = .ok kinds) : g.Acyclic := by
  cases run : shapeDerived g with
  | ok shapes => exact acyclic_of_shapeDerived hg run
  | error e =>
    unfold classify at h
    cases s with
    | pointwise => exact absurd rfl traces
    | aggressive =>
      simp only [run] at h
      cases h
    | conservative =>
      simp only [run] at h
      cases h

theorem Request.Sees.acyclic (sees : r.Sees g kinds) (hg : g.Linked)
    (pointwise : r.Pointwise → g.Acyclic) : g.Acyclic := by
  obtain ⟨quantTypes, s, -, parsed, run⟩ := sees
  by_cases traces : s.TracesShapes
  · exact acyclic_of_classify hg traces run
  · apply pointwise
    rw [Request.Pointwise, parsed, not_not.1 traces]

theorem acyclic_of_not_rejected (accepted : r.Accepted g) (pointwise : r.Pointwise → g.Acyclic)
    (h : ¬r.Rejected g) : g.Acyclic := by
  obtain ⟨s, parsed⟩ := accepted.strategy
  by_cases traces : s.TracesShapes
  · by_contra cyclic
    exact h (.cycle parsed traces cyclic)
  · apply pointwise
    rw [Request.Pointwise, parsed, not_not.1 traces]

theorem accepted_of_not_rejected (h : ¬r.Rejected g) : r.Accepted g := by
  constructor
  · cases quantizer : r.platform.quantizer? with
    | none => exact absurd (.quantizer quantizer) h
    | some quantTypes => exact ⟨quantTypes, rfl⟩
  · cases parsed : Strategy.parse? r.strategy with
    | none => exact absurd (.strategy parsed) h
    | some s => exact ⟨s, rfl⟩
  · intro op code found known
    cases decoded : Platform.ofCode? code with
    | none => exact absurd (.code found known decoded) h
    | some p => exact ⟨p, rfl⟩

theorem Request.Rejected.not_accepted (rejected : r.Rejected g) (hg : g.Linked)
    (sees : r.Sees g kinds) : ¬r.Accepted g := by
  intro accepted
  cases rejected with
  | quantizer none =>
    obtain ⟨quantTypes, quantizer⟩ := accepted.quantizer
    rw [none] at quantizer
    cases quantizer
  | strategy none =>
    obtain ⟨s, parsed⟩ := accepted.strategy
    rw [none] at parsed
    cases parsed
  | cycle parsed traces cyclic =>
    obtain ⟨_, s, -, parsed', run⟩ := sees
    cases parsed.symm.trans parsed'
    exact cyclic (acyclic_of_classify hg traces run)
  | code found known undecodable =>
    obtain ⟨p, decoded⟩ := accepted.overrides _ _ found known
    rw [undecodable] at decoded
    cases decoded

/-- On a graph without cycles nothing fails that is not the fault of the request. -/
theorem run_succeeds (hg : g.Linked) (acyclic : g.Acyclic) (accepted : r.Accepted g) :
    Task.Leads (run r) g fun _ g' => g'.Linked := by
  obtain ⟨kinds, sees⟩ := accepted.sees hg acyclic
  exact run_leads_to hg accepted sees
    (insertSwitches_succeeds (hg.assign _) (acyclic.assign _))

theorem not_rejected_of_run (hg : g.Linked) {events later : List Event} {table : DispatchTable}
    (success : run r ⟨g, events⟩ = .ok table ⟨g', later⟩) : ¬r.Rejected g := by
  intro rejected
  cases plan : planned r g with
  | error e =>
    rw [run_of_error plan] at success
    cases success
  | ok p =>
    obtain ⟨kinds, sees⟩ := planned_eq_ok plan
    exact rejected.not_accepted hg sees (accepted_of_run success)

/-- Before the overrides are applied nothing is written, and after that nothing fails. -/
theorem run_error_keeps (hg : g.Linked) (pointwise : r.Pointwise → g.Acyclic) {events : List Event}
    {e : DispatchError} {h : Logged (Graph α)} (failure : run r ⟨g, events⟩ = .error e h) :
    h.state = g := by
  cases plan : planned r g with
  | error e =>
    rw [run_of_error plan] at failure
    cases failure
    rfl
  | ok p =>
    obtain ⟨strategy, proposed⟩ := p
    obtain ⟨kinds, sees⟩ := planned_eq_ok plan
    obtain ⟨reported, goes⟩ := run_of_planned plan events
    cases applied : r.overrides.apply g proposed ⟨g, reported⟩ with
    | error e k =>
      rw [goes, bind_of_error applied] at failure
      cases failure
      have kept := keeps_apply_overrides (P := (· = g)) r.overrides g proposed
        ⟨g, reported⟩ rfl
      rw [applied] at kept
      exact kept
    | ok table k =>
      have accepted := sees.accepted (Overrides.decodable_of_apply applied)
      have acyclic := sees.acyclic hg pointwise
      obtain ⟨_, _, _, success, -⟩ := run_succeeds hg acyclic accepted events
      rw [failure] at success
      cases success

variable [Scalar α]

/-- A dispatch fails exactly for the reasons of `Request.Rejected`, and it leaves the graph
as it was where it fails. -/
theorem run_fails_iff_rejected (reachable : Reachable g) (pointwise : r.Pointwise → g.Acyclic)
    (events : List Event) :
    ((∃ e h, run r ⟨g, events⟩ = .error e h) ↔ r.Rejected g) ∧
      ∀ e h, run r ⟨g, events⟩ = .error e h → h.state = g := by
  have linked := reachable.linked
  refine ⟨⟨?_, fun rejected => ?_⟩, fun e h failure => run_error_keeps linked pointwise failure⟩
  · rintro ⟨e, h, failure⟩
    by_contra allowed
    have accepted := accepted_of_not_rejected allowed
    have acyclic := acyclic_of_not_rejected accepted pointwise allowed
    obtain ⟨_, _, _, success, -⟩ := run_succeeds linked acyclic accepted events
    rw [failure] at success
    cases success
  · cases outcome : run r ⟨g, events⟩ with
    | ok table h => exact absurd rejected (not_rejected_of_run linked outcome)
    | error e h => exact ⟨e, h, rfl⟩

/-- No platform has this code. -/
def misdirected : Request := ⟨.trtInt8, "pointwise", .quantizationFirst, .ofList [("conv", 77)]⟩

theorem run_fails_detoured :
    ∃ e h, run misdirected ⟨detoured, []⟩ = .error e h ∧ h.state = detoured := by
  have found : misdirected.overrides.get? "conv" = some 77 := by decide
  have rejected : misdirected.Rejected detoured := .code found (by decide) (by decide)
  obtain ⟨fails, kept⟩ := run_fails_iff_rejected (r := misdirected)
    ⟨_, detour, .empty "net", rfl⟩ (fun _ => detoured_acyclic) []
  obtain ⟨e, h, failure⟩ := fails.2 rejected
  exact ⟨e, h, failure, kept e h failure⟩

end Dispatch

end GraphDispatch
