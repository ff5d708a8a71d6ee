import GraphDispatch.Proofs.Dispatch.Written
import GraphDispatch.Proofs.Outcomes
import GraphDispatch.Proofs.Switches.Handed

/-!
# Platforms of switches

Switches belong to the boundary, whatever the strategy of a dispatch, and so do the switches that
it inserts. What the user asks for wins, also for a switch that an earlier dispatch has left; it
does not matter to whether the switch is kept.
-/

namespace GraphDispatch

variable {α : Type} {g k k' : Graph α} {o : Operation α} {s x t : String}

namespace Graph

/-- Every switch that stays in `g` is still there, and only what it reads may have changed. -/
def KeepsStaying (g k : Graph α) : Prop :=
  ∀ s o, g.getOperation? s = some o → o.isSwitch = true → g.Stays o →
    ∃ o', k.getOperation? s = some o' ∧ o.Rewired o'

/-- A switch that stays is not stale, or it has nothing that could be handed on. -/
theorem Stays.not_dropped (stays : g.Stays o) (hg : g.Linked) (ho : g.getOperation? s = some o)
    (stale : s ∈ Dispatch.staleSwitches g) {o' : Operation α} (rewired : o.Rewired o')
    (input : o'.inputs.head? = some x) : o'.outputs.head? ≠ some t := by
  intro output
  obtain ⟨p, hp, -, unfit, hidden⟩ := (Dispatch.mem_staleSwitches hg).1 stale
  cases ho.symm.trans hp
  cases stays with
  | exposed exposed => exact hidden exposed
  | bridging bridges =>
    have fitting := (isFitting_iff_bridges hg ho).2 ⟨_, _, _, _, bridges⟩
    simp [unfit] at fitting
  | portless ports =>
    rcases ports with none | none
    · have empty : o'.inputs = [] := List.eq_nil_of_length_eq_zero (by simp [rewired.slots, none])
      simp [empty] at input
    · simp [rewired.outputs, none] at output

namespace KeepsStaying

theorem refl (g : Graph α) : KeepsStaying g g := fun _ o ho _ _ => ⟨o, ho, .refl o⟩

theorem drop (kept : KeepsStaying g k) (hg : g.Linked) (stale : s ∈ Dispatch.staleSwitches g)
    (dropped : Dropped k k' o s x t) : KeepsStaying g k' := by
  intro n p hp switch stays
  obtain ⟨p', hp', rewired⟩ := kept n p hp switch stays
  have other : n ≠ s := by
    rintro rfl
    cases hp'.symm.trans dropped.found
    exact stays.not_dropped hg hp stale rewired dropped.input dropped.output
  exact ⟨p'.redirect t x, dropped.getOperation?_eq_some.2 ⟨other, p', hp', rfl⟩,
    rewired.trans (Operation.rewired_redirect t x p')⟩

theorem hand {c : Dispatch.Crossing} (kept : KeepsStaying g k) (handed : Handed k k' c t) :
    KeepsStaying g k' := by
  intro n p hp switch stays
  obtain ⟨p', hp', rewired⟩ := kept n p hp switch stays
  exact ⟨p', handed.keeps_switch hp' (rewired.isSwitch.trans switch), rewired⟩

end KeepsStaying

end Graph

namespace Dispatch

open GraphDispatch.Graph

theorem insertSwitches_keepsStaying (hg : g.Linked) :
    Task.Ensures insertSwitches g fun _ k => KeepsStaying g k := by
  have removal := removeStaleSwitches_keeps hg (P := KeepsStaying g)
    (fun stale dropped kept => kept.drop hg stale dropped) (.refl g)
  apply insertSwitches_ensures_of removal
  intro h left
  obtain ⟨linked, tidy, kept⟩ := left
  refine (relayCrossings_settle (P := KeepsStaying g) linked tidy
    (fun handed kept => kept.hand handed) kept).mono fun _ k done => done.2

variable {r : Request} {table proposed : DispatchTable}

/-- The platform that a dispatch gives to a switch it finds. -/
def Request.switchPlatform (r : Request) (s : String) : Platform :=
  (r.overrides.asked s).getD .boundary

theorem Request.Proposes.switch (proposes : r.Proposes g proposed)
    (ho : g.getOperation? s = some o) (switch : o.isSwitch = true) :
    proposed.get? s = some .boundary := by
  obtain ⟨_, strategy, -, -, found⟩ := proposes
  unfold propose at found
  obtain ⟨kinds, -, found⟩ := except_bind_eq_ok found
  cases found
  rw [NameMap.get?_mapEntries, show g.operations.get? s = some o from ho, Option.map_some, place,
    if_pos switch]

theorem platforms_switch (proposes : r.Proposes g proposed)
    (found : ∀ n, table.get? n =
      (if n ∈ g.operations then r.overrides.asked n else none).or (proposed.get? n))
    (ho : g.getOperation? s = some o) (switch : o.isSwitch = true) :
    table.platforms s = r.switchPlatform s := by
  rw [DispatchTable.platforms, found, if_pos (mem_operations_iff.2 ⟨o, ho⟩),
    proposes.switch ho switch, Request.switchPlatform]
  cases r.overrides.asked s <;> rfl

/-- What the insertion of switches adds is on the boundary, and what it finds stays where it is. -/
theorem placed_of_reworked {a g' : Graph α} (reworked : Reworked a g') {o' : Operation α}
    (ho' : g'.getOperation? s = some o') (switch : o'.isSwitch = true) :
    o'.platform = .boundary ∨
      ∃ o, a.getOperation? s = some o ∧ o.isSwitch = true ∧ o'.platform = o.platform := by
  rcases reworked.stems s o' ho' with ⟨o, ho, rewired⟩ | ⟨-, platform⟩
  · exact Or.inr ⟨o, ho, rewired.isSwitch.symm.trans switch, rewired.platform⟩
  · exact Or.inl platform

theorem Request.boundary_or_asked (r : Request) (s : String) :
    r.switchPlatform s = .boundary ∨ r.overrides.asked s = some (r.switchPlatform s) := by
  unfold switchPlatform
  cases r.overrides.asked s with
  | none => exact Or.inl rfl
  | some p => exact Or.inr rfl

theorem run_keeps_switches (hg : g.Linked) : Task.Ensures (run r) g fun table g' =>
    (∀ s o, (g.assign table.platforms).getOperation? s = some o → o.isSwitch = true →
      o.platform = r.switchPlatform s) ∧
    Reworked (g.assign table.platforms) g' ∧ KeepsStaying (g.assign table.platforms) g' := by
  apply run_ensures hg
  intro table proposed proposes decodable found
  have inserted := (insertSwitches_reworks (hg.assign table.platforms)).and
    (insertSwitches_keepsStaying (hg.assign table.platforms))
  refine inserted.mono fun _ g' left => ⟨?_, left⟩
  intro s o ho switch
  obtain ⟨p, hp, rfl⟩ := assign_eq_some.1 ho
  exact platforms_switch proposes found hp switch

/-- After a dispatch that succeeds a switch is on the boundary, or it was a switch before and the
user asks for its platform. Every switch that stays where the platforms of the table are assigned
is on the platform that the user asks for, and on the boundary where nobody asks. -/
theorem run_places_switches [Scalar α] {g' : Graph α} (reachable : Reachable g)
    {events later : List Event} (success : run r ⟨g, events⟩ = .ok table ⟨g', later⟩) :
    (∀ s o', g'.getOperation? s = some o' → o'.isSwitch = true → o'.platform = .boundary ∨
      ∃ o, g.getOperation? s = some o ∧ o.isSwitch = true ∧
        r.overrides.asked s = some o'.platform) ∧
    ∀ s o, (g.assign table.platforms).getOperation? s = some o → o.isSwitch = true →
      (g.assign table.platforms).Stays o → ∃ o', g'.getOperation? s = some o' ∧ o.Rewired o' ∧
        o'.platform = (r.overrides.asked s).getD .boundary := by
  obtain ⟨given, reworked, kept⟩ :=
    run_keeps_switches reachable.linked events table ⟨g', later⟩ success
  constructor
  · intro s o' ho' switch
    rcases placed_of_reworked reworked ho' switch with boundary | ⟨o, ho, switch', platform⟩
    · exact Or.inl boundary
    · have own := platform.trans (given s o ho switch')
      obtain ⟨p, hp, rfl⟩ := assign_eq_some.1 ho
      rw [own]
      exact (r.boundary_or_asked s).imp_right fun asked => ⟨p, hp, switch', asked⟩
  · intro s o ho switch stays
    obtain ⟨o', ho', rewired⟩ := kept s o ho switch stays
    exact ⟨o', ho', rewired, rewired.platform.trans (given s o ho switch)⟩

/-- What a dispatch makes of a convolution whose result is asked for its shape. -/
def handedOn : Document Float32 where
  name := "net"
  inputs := ["in"]
  outputs := ["y"]
  vars := ["in", "x", "x.relay", "y"].map fun var => ⟨var, none, false⟩
  operations :=
    [⟨"conv", "Conv", ∅, ["in"], ["x"], .unspecified⟩,
      ⟨"switch", switchType, switchAttributes .unspecified .shapeOrIndex, ["x"], ["x.relay"],
        .boundary⟩,
      ⟨"shape", "Shape", ∅, ["x.relay"], ["y"], .shapeOrIndex⟩]

theorem handedOn_reachable : Reachable handedOn.graph :=
  ⟨handedOn.graph, [], .built (show handedOn.build = .ok handedOn.graph from rfl), rfl⟩

/-- The user asks for a platform of the switch. -/
def pinned : Request :=
  ⟨.trtInt8, "pointwise", .shapeOrIndexFirst, .ofList [("switch", Platform.fp32.code)]⟩

theorem run_places_switches_pinned : ∃ table g' later,
    run pinned ⟨handedOn.graph, []⟩ = .ok table ⟨g', later⟩ ∧
    (∀ s o', g'.getOperation? s = some o' → o'.isSwitch = true → o'.platform = .boundary ∨
      ∃ o, handedOn.graph.getOperation? s = some o ∧ o.isSwitch = true ∧
        pinned.overrides.asked s = some o'.platform) ∧
    ∃ o', g'.getOperation? "switch" = some o' ∧ o'.platform = .fp32 := by
  have fits : ∃ table later, run pinned ⟨handedOn.graph, []⟩ = .ok table later ∧
      ((handedOn.graph.assign table.platforms).getOperation? "switch").any (fun o =>
        o.isSwitch && isFitting (handedOn.graph.assign table.platforms) o) = true := by
    decide +kernel
  obtain ⟨table, ⟨g', later⟩, success, fits⟩ := fits
  have linked := handedOn_reachable.linked.assign table.platforms
  obtain ⟨placed, stayed⟩ := run_places_switches handedOn_reachable success
  refine ⟨table, g', later, success, placed, ?_⟩
  cases ho : (handedOn.graph.assign table.platforms).getOperation? "switch" with
  | none => simp [ho] at fits
  | some o =>
    rw [ho, Option.any_some, Bool.and_eq_true] at fits
    obtain ⟨_, _, _, _, bridges⟩ := (isFitting_iff_bridges linked ho).1 fits.2
    obtain ⟨o', ho', -, platform⟩ := stayed "switch" o ho fits.1 (.bridging bridges)
    exact ⟨o', ho', platform⟩

/-- A switch that fits is kept where the user asks for it. -/
theorem pinned_leaves_boundary : Reachable handedOn.graph ∧ handedOn.graph.Acyclic ∧
    ∃ table later, run pinned ⟨handedOn.graph, []⟩ = .ok table later ∧
      (later.state.getOperation? "switch").map (·.isSwitch) = some true ∧
      (later.state.getOperation? "switch").map (·.platform) = some .fp32 := by
  refine ⟨handedOn_reachable, ?_, by decide +kernel⟩
  have ranked : handedOn.graph.Ranked fun op => ["conv", "switch", "shape"].idxOf op := by decide
  exact ranked.acyclic

end Dispatch

end GraphDispatch
