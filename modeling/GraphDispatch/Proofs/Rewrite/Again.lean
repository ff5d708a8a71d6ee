import GraphDispatch.Proofs.Rewrite.NormalForm

/-!
# Commands run again

Every command but the folds takes what it leaves behind for finished, so a second run has nothing
to do. A clip that reads nothing would get one input in each run, until it has three.
-/

namespace GraphDispatch

open GraphDispatch.Graph

variable {α : Type} [Scalar α] {g : Graph α}

namespace Rewrite

theorem clips_settles (hg : g.Linked) (reading : ClipsHave 1 g) :
    Task.Ensures clips g fun _ g' => Command.clips.Idle g' := by
  refine ((clips_ensures hg).and (clips_fill hg reading)).mono fun _ g' done op o ho type => ?_
  obtain ⟨pass, filled⟩ := done
  obtain ⟨_, -, clipped⟩ := pass.done op o ho type List.not_mem_nil
  exact ⟨filled op o ho type, clipped.limited.1⟩

end Rewrite

open Rewrite

/-- What a command was about is settled after its run. -/
theorem rewrite_settles {c : Command} (other : c ≠ .batchNorms) (hg : g.Linked)
    (reading : ClipsHave 1 g) : Task.Ensures c.rewrite g fun _ g' => c.Idle g' := by
  cases c with
  | constants => exact constants_settles hg
  | batchNorms => exact absurd rfl other
  | sharedParameters => exact sharedParameters_settles hg
  | casts => exact casts_settles hg
  | slices => exact slices_settles hg
  | clips => exact clips_settles hg reading
  | isolated => exact isolated_settles hg

/-- A command other than the folds that has succeeded succeeds again, counts no change and leaves
the graph as it is. -/
theorem process_again {c : Command} (other : c ≠ .batchNorms) (reachable : Reachable g)
    (reading : ∀ op o, g.getOperation? op = some o → o.type = "Clip" → 1 ≤ o.inputs.length)
    {events : List Event} {n : Nat} {once : Logged (Graph α)}
    (run : process c ⟨g, events⟩ = .ok n once) :
    ∃ twice, process c once = .ok 0 twice ∧ twice.state = once.state := by
  have linked := reachable.linked
  have settled := process_ensures ((rewrite_stems c linked).and
    (rewrite_settles other linked reading)) events n once run
  obtain ⟨⟨linked', -⟩, idle⟩ := settled
  obtain ⟨m, g', later, again, rfl, same⟩ := process_leads linked' idle once.events
  exact ⟨⟨g', later⟩, again, same⟩

/-- The first clip has its limits as attributes, the second reads one of them. -/
def halfLimited : Document Float32 where
  name := "net"
  inputs := ["x"]
  outputs := ["z"]
  vars := [⟨"x", none, false⟩, ⟨"y", none, false⟩, ⟨"low", some ⟨[], .floats [-1]⟩, true⟩,
    ⟨"z", none, false⟩]
  operations := [⟨"relu6", "Clip", .ofList [("max", .float 6)], ["x"], ["y"], .unspecified⟩,
    ⟨"half", "Clip", ∅, ["y", "low"], ["z"], .unspecified⟩]

theorem process_again_halfLimited : ∃ once twice, halfLimited.build = .ok halfLimited.graph ∧
    process .clips ⟨halfLimited.graph, []⟩ = .ok 2 once ∧ process .clips once = .ok 0 twice ∧
    twice.state = once.state := by
  have built : halfLimited.build = .ok halfLimited.graph := rfl
  have reading : ∀ op o, halfLimited.graph.getOperation? op = some o → o.type = "Clip" →
      1 ≤ o.inputs.length := NameMap.forall_get?_iff.2 (by decide)
  have first : ∃ n once, process .clips ⟨halfLimited.graph, []⟩ = .ok n once ∧ n = 2 := by
    decide +kernel
  obtain ⟨n, once, run, rfl⟩ := first
  obtain ⟨twice, again, same⟩ := process_again (by decide) ⟨_, [], .built built, rfl⟩ reading run
  exact ⟨once, twice, built, run, again, same⟩

end GraphDispatch
