import GraphDispatch.Proofs.Outcomes
import GraphDispatch.Proofs.Rewrite.Canonical
import GraphDispatch.Rewrite.Format

/-!
# Bounds become inputs

The passes over slices and clips change nothing but slices and clips. Each keeps its inputs in
their slots and reads its bounds from new parameters behind them. A slice whose axes are given in
another way than as a list is taken for one without axes.
-/

namespace GraphDispatch

open GraphDispatch.Graph

variable {α : Type} {g g' : Graph α}

/-- In `g'` the operations of the type are what `M` allows. All else that `g` has is the same. -/
structure Graph.Rewritten (g : Graph α) (type : String) (M : Operation α → Operation α → Prop)
    (g' : Graph α) : Prop where
  rewritten : ∀ op o, g.getOperation? op = some o → o.type = type →
    ∃ o', g'.getOperation? op = some o' ∧ M o o'
  others : ∀ op o, g.getOperation? op = some o → o.type ≠ type → g'.getOperation? op = some o
  known : ∀ op ∈ g'.operations, op ∈ g.operations
  vars : ∀ var ∈ g.vars, g'.getVariable? var = g.getVariable? var
  inputs : g'.inputs = g.inputs
  outputs : g'.outputs = g.outputs

theorem Rewrite.Passing.rewritten {type : String} {M : Graph α → Operation α → Operation α → Prop}
    (p : Passing type M g [] g') (hg : g.Linked) : g.Rewritten type (M g') g' where
  rewritten op o ho isType := by
    obtain ⟨o', -, ho', type', -⟩ := p.supplied.operation ho
    obtain ⟨q, hq, made⟩ := p.done op o' ho' (type'.trans isType) List.not_mem_nil
    cases ho.symm.trans hq
    exact ⟨o', ho', made⟩
  others op o ho other := by
    refine (p.supplied.others op ?_).trans ho
    rintro ⟨q, hq, isType⟩
    cases ho.symm.trans hq
    exact other isType
  known op hop := by
    obtain ⟨o', ho'⟩ := mem_operations_iff.1 hop
    obtain ⟨o, -, ho, -⟩ := p.supplied.operations op o' ho'
    exact mem_operations_iff.2 ⟨o, ho⟩
  vars _ known := p.supplied.getVariable?_eq hg known
  inputs := p.supplied.inputs
  outputs := p.supplied.outputs

variable [Scalar α]

/-- A pass over the slices or the clips that succeeds has rewritten them and nothing else. -/
theorem bounds_become_inputs (reachable : Reachable g) {events : List Event} {n : Nat}
    {later : Logged (Graph α)} :
    (process .slices ⟨g, events⟩ = .ok n later →
      g.Rewritten "Slice" (Rewrite.Sliced g later.state) later.state) ∧
    (process .clips ⟨g, events⟩ = .ok n later →
      g.Rewritten "Clip" (Rewrite.Clipped g later.state) later.state) := by
  have linked := reachable.linked
  constructor
  · intro run
    have pass := process_ensures (c := .slices) (Rewrite.slices_ensures linked) events n later run
    exact pass.rewritten linked
  · intro run
    have pass := process_ensures (c := .clips) (Rewrite.clips_ensures linked) events n later run
    exact pass.rewritten linked

/-- The first slice gives its bounds as attributes, without axes, and the first name for its
starts is taken. The second one reads starts and ends, and the clip reads its lower bound. -/
def partlyBounded : Document Float32 where
  name := "net"
  inputs := ["x"]
  outputs := ["z"]
  vars := [⟨"x", none, false⟩, ⟨"y", none, false⟩, ⟨"first.starts_0", none, false⟩,
    ⟨"low", some ⟨[], .floats [-1]⟩, true⟩, ⟨"starts", some ⟨[2], .ints [4, 5]⟩, true⟩,
    ⟨"ends", some ⟨[2], .ints [6, 7]⟩, true⟩, ⟨"z", none, false⟩]
  operations := [⟨"first", "Slice", .ofList [("starts", .ints [0, 1]), ("ends", .ints [2, 3])],
      ["x"], ["y"], .unspecified⟩,
    ⟨"half", "Clip", ∅, ["y", "low"], ["first.starts_0"], .unspecified⟩,
    ⟨"second", "Slice", ∅, ["first.starts_0", "starts", "ends"], ["z"], .unspecified⟩]

theorem bounds_become_inputs_partlyBounded : ∃ sliced clipped,
    partlyBounded.build = .ok partlyBounded.graph ∧
    process .slices ⟨partlyBounded.graph, []⟩ = .ok 2 sliced ∧
    partlyBounded.graph.Rewritten "Slice"
      (Rewrite.Sliced partlyBounded.graph sliced.state) sliced.state ∧
    process .clips ⟨partlyBounded.graph, []⟩ = .ok 1 clipped ∧
    partlyBounded.graph.Rewritten "Clip"
      (Rewrite.Clipped partlyBounded.graph clipped.state) clipped.state := by
  have built : partlyBounded.build = .ok partlyBounded.graph := rfl
  have reachable : Reachable partlyBounded.graph := ⟨_, [], .built built, rfl⟩
  have slices : ∃ n sliced, process .slices ⟨partlyBounded.graph, []⟩ = .ok n sliced ∧ n = 2 := by
    decide +kernel
  have clips : ∃ n clipped, process .clips ⟨partlyBounded.graph, []⟩ = .ok n clipped ∧ n = 1 := by
    decide +kernel
  obtain ⟨_, sliced, slicing, rfl⟩ := slices
  obtain ⟨_, clipped, clipping, rfl⟩ := clips
  exact ⟨sliced, clipped, built, slicing, (bounds_become_inputs reachable).1 slicing, clipping,
    (bounds_become_inputs reachable).2 clipping⟩

/-- The axis of the slice is a number. -/
def sideways : Document Float32 where
  name := "net"
  inputs := ["x"]
  outputs := ["y"]
  vars := [⟨"x", none, false⟩, ⟨"y", none, false⟩]
  operations := [⟨"sl", "Slice",
    .ofList [("starts", .ints [0]), ("ends", .ints [2]), ("axes", .int 1)], ["x"], ["y"],
    .unspecified⟩]

/-- Axis 1 is lost, and the slice goes along axis 0. -/
theorem slices_lose_axis : ∃ n later, sideways.build = .ok sideways.graph ∧
    process .slices ⟨sideways.graph, []⟩ = .ok n later ∧
    (sideways.graph.getOperation? "sl").bind (·.attributes.get? "axes") = some (.int 1) ∧
    (later.state.getOperation? "sl").bind (·.inputs[3]?) = some "sl.axes_0" ∧
    (later.state.getVariable? "sl.axes_0").bind (·.value) = some (.intVector [0]) := by
  have outcome : ∃ n later, process .slices ⟨sideways.graph, []⟩ = .ok n later ∧
      (later.state.getOperation? "sl").bind (·.inputs[3]?) = some "sl.axes_0" ∧
      (later.state.getVariable? "sl.axes_0").bind (·.value) = some (.intVector [0]) := by
    decide +kernel
  obtain ⟨n, later, run, slots, value⟩ := outcome
  exact ⟨n, later, rfl, run, rfl, slots, value⟩

end GraphDispatch
