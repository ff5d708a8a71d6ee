import GraphDispatch.Proofs.Switches.Handed

/-!
# Inserting switches again

Where no switch is stale and nothing is read across platforms, inserting switches changes
nothing. Every successful run leaves such a graph, whatever switches it found.
-/

namespace GraphDispatch

variable {α : Type} {g : Graph α} {s : String} {o : Operation α}

namespace Graph

/-- The insertion of switches has nothing left to do. -/
structure AtRest (g : Graph α) : Prop where
  linked : g.Linked
  tidy : g.Tidy
  covered : g.Covered []

end Graph

namespace Dispatch

open GraphDispatch.Graph

/-- `P` is kept while switches are dropped and becomes `Q`, which is kept while crossings are
relayed. -/
theorem insertSwitches_settle {P Q : Graph α → Prop} (hg : g.Linked)
    (drops : ∀ {k k' : Graph α} {o s x r}, Dropped k k' o s x r → P k → P k')
    (turn : ∀ {k : Graph α}, k.Linked → k.Tidy → P k → Q k)
    (hands : ∀ {k k' : Graph α} {c r}, Handed k k' c r → Q k → Q k') (start : P g) :
    Task.Ensures insertSwitches g fun _ k => k.AtRest ∧ Q k := by
  apply insertSwitches_ensures_of (removeStaleSwitches_tidies hg drops start)
  intro h left
  obtain ⟨linked, tidy, holds⟩ := left
  refine (relayCrossings_settle linked tidy hands (turn linked tidy holds)).mono fun _ k done => ?_
  obtain ⟨owing, holds⟩ := done
  exact ⟨⟨owing.linked, owing.tidy, owing.covered⟩, holds⟩

theorem crossings_eq_nil (hg : g.Linked) (covered : g.Covered []) : crossings g = [] := by
  apply List.eq_nil_iff_forall_not_mem.2
  intro c hc
  have due := crossings_due hg hc
  obtain ⟨q, consumes⟩ := List.exists_mem_of_ne_nil _ due.consumed
  obtain ⟨reads, sits⟩ := due.consumers q consumes
  obtain ⟨d, hd, -⟩ := covered due.made sits reads due.distinct
  cases hd

/-- A switch that hands nothing on is passed over. -/
theorem removeStale_portless (ho : g.getOperation? s = some o)
    (ports : o.inputs = [] ∨ o.outputs = []) :
    Task.Leads (removeStale s) g fun _ k => k = g := by
  apply Task.leads_state_bind
  rw [ho]
  cases input : o.inputs.head? with
  | none =>
    simp only [input]
    exact Task.leads_pure rfl
  | some x =>
    cases output : o.outputs.head? with
    | none =>
      simp only [input, output]
      exact Task.leads_pure rfl
    | some r => rcases ports with ports | ports <;> simp [ports] at input output

namespace AtRest

/-- The switches that still count as stale hand nothing on. -/
theorem portless (rest : g.AtRest) (stale : s ∈ staleSwitches g) :
    ∃ o, g.getOperation? s = some o ∧ (o.inputs = [] ∨ o.outputs = []) := by
  obtain ⟨o, ho, switch, unfit, hidden⟩ := (mem_staleSwitches rest.linked).1 stale
  refine ⟨o, ho, ?_⟩
  cases rest.tidy s o ho switch with
  | exposed exposed => exact absurd exposed hidden
  | portless ports => exact ports
  | bridging bridges =>
    have fitting := (isFitting_iff_bridges rest.linked ho).2 ⟨_, _, _, _, bridges⟩
    simp [unfit] at fitting

theorem removeStaleSwitches_idle (rest : g.AtRest) :
    Task.Leads removeStaleSwitches g fun _ k => k = g := by
  apply Task.leads_state_bind
  have passed : Task.Leads ((staleSwitches g).forM removeStale) g fun _ k =>
      (∀ s ∈ ([] : List String), s ∈ staleSwitches g) ∧ k = g := by
    refine Task.leads_forM (fun l k => (∀ s ∈ l, s ∈ staleSwitches g) ∧ k = g)
      (fun s l k state => ?_) ⟨fun _ hs => hs, rfl⟩
    obtain ⟨stale, rfl⟩ := state
    obtain ⟨o, ho, ports⟩ := portless rest (stale s List.mem_cons_self)
    apply (removeStale_portless ho ports).mono
    intro _ k' same
    exact ⟨fun n hn => stale n (List.mem_cons_of_mem _ hn), same⟩
  apply passed.bind
  intro _ k same
  exact Task.leads_pure same.2

theorem insertSwitches_idle (rest : g.AtRest) :
    Task.Leads insertSwitches g fun n k => n = 0 ∧ k = g := by
  apply insertSwitches_leads_of (removeStaleSwitches_idle rest)
  intro k same
  subst same
  rw [crossings_eq_nil rest.linked rest.covered]
  exact Task.leads_pure ⟨rfl, rfl⟩

end AtRest

variable [Scalar α]

/-- After a run that succeeded, inserting switches once more succeeds, adds none and leaves the
graph as it is. -/
theorem insertSwitches_idempotent (reachable : Reachable g) :
    Task.Ensures insertSwitches g fun _ k =>
      Task.Leads insertSwitches k fun n k' => n = 0 ∧ k' = k := by
  refine (insertSwitches_settle (P := fun _ => True) (Q := fun _ => True) reachable.linked
    (fun _ => id) (fun _ _ => id) (fun _ => id) trivial).mono fun _ k left => ?_
  exact AtRest.insertSwitches_idle left.1

/-- Switches in all shapes: `blank` has no platforms, `idle` no output, `shown` is what the graph
returns, `late` reads `early`, and `wide` has two inputs and two outputs. -/
def knot : Document Float32 where
  name := "net"
  inputs := []
  outputs := ["shown.relay", "y"]
  vars := ["x", "y", "z", "blank.relay", "shown.relay", "early.relay", "late.relay", "wide.first",
    "wide.second"].map fun var => ⟨var, none, false⟩
  operations :=
    [⟨"conv", "Conv", ∅, [], ["x"], .fp32⟩,
      ⟨"blank", switchType, ∅, ["x"], ["blank.relay"], .boundary⟩,
      ⟨"idle", switchType, switchAttributes .fp32 .shapeOrIndex, ["x"], [], .boundary⟩,
      ⟨"shown", switchType, switchAttributes .fp32 .shapeOrIndex, ["x"], ["shown.relay"], .boundary⟩,
      ⟨"early", switchType, switchAttributes .shapeOrIndex .fp32, ["x"], ["early.relay"], .boundary⟩,
      ⟨"late", switchType, switchAttributes .fp32 .shapeOrIndex, ["early.relay"], ["late.relay"],
        .boundary⟩,
      ⟨"wide", switchType, switchAttributes .fp32 .shapeOrIndex, ["x", "late.relay"],
        ["wide.first", "wide.second"], .boundary⟩,
      ⟨"add", "Add", ∅, ["late.relay", "wide.first"], ["y"], .shapeOrIndex⟩,
      ⟨"relu", "Relu", ∅, ["shown.relay"], ["z"], .fp32⟩]

theorem knot_build : knot.build = .ok knot.graph := rfl

theorem knot_acyclic : knot.graph.Acyclic := by
  have ranked : knot.graph.Ranked fun op =>
      ["conv", "blank", "idle", "shown", "early", "late", "wide", "add", "relu"].idxOf op := by
    decide
  exact ranked.acyclic

theorem insertSwitches_idempotent_knot :
    Task.Leads insertSwitches knot.graph fun _ k =>
      Task.Leads insertSwitches k fun n k' => n = 0 ∧ k' = k := by
  have reachable : Reachable knot.graph := ⟨knot.graph, [], .built knot_build, rfl⟩
  exact (insertSwitches_succeeds reachable.linked knot_acyclic).ensuring
    (insertSwitches_idempotent reachable)

end Dispatch

end GraphDispatch
