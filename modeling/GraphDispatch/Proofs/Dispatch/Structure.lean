import GraphDispatch.Proofs.Dispatch.Blind
import GraphDispatch.Proofs.Dispatch.Written

/-!
# Dispatching depends on structure only

The proposal is made from the frames of operations, and the platforms that it replaces are
gone before the first switch is looked at. So values, attributes and earlier platforms have
no influence on a dispatch, however often the graphs were dispatched before.
-/

namespace GraphDispatch

open GraphDispatch.Graph GraphDispatch.Dispatch

variable {α : Type} {g h : Graph α} {view : Operation α → Operation α} {r : Request}

namespace Graph

/-- The same variables, parameters and interface, and operations that the view makes equal. -/
structure SameUnder (view : Operation α → Operation α) (g h : Graph α) : Prop where
  operations : ∀ op, (g.getOperation? op).map view = (h.getOperation? op).map view
  parameters : ∀ var, (g.getVariable? var).map (·.isParameter) =
    (h.getVariable? var).map (·.isParameter)
  inputs : g.inputs = h.inputs
  outputs : g.outputs = h.outputs

theorem SameUnder.of_outline (same : g.outline view = h.outline view) : g.SameUnder view h where
  operations op := by
    rw [← getOperation?_outline, same, getOperation?_outline]
  parameters var := by
    have flags : ∀ g : Graph α, ((g.outline view).getVariable? var).map (·.isParameter) =
        (g.getVariable? var).map (·.isParameter) := by
      intro g
      rw [getVariable?_outline]
      cases g.getVariable? var <;> rfl
    rw [← flags, same, flags]
  inputs := (congrArg Graph.inputs same :)
  outputs := (congrArg Graph.outputs same :)

section Frames

variable (same : g.SameUnder Operation.frame h)
include same

/-- What the frames of operations tell is the same. -/
theorem SameUnder.of_frame {β : Type} {f : Operation α → β} (sees : ∀ o, f o.frame = f o)
    (op : String) : (g.getOperation? op).map f = (h.getOperation? op).map f := by
  have frames := congrArg (Option.map f) (same.operations op)
  simp only [Option.map_map, Function.comp_def, sees] at frames
  exact frames

theorem SameUnder.produces_iff {op var : String} : g.Produces op var ↔ h.Produces op var := by
  rw [← mem_outputsOf, ← mem_outputsOf, outputsOf, outputsOf,
    same.of_frame (f := (·.outputs)) fun _ => rfl]

theorem SameUnder.producer?_eq (hg : g.Linked) (hh : h.Linked) (var : String) :
    g.producer? var = h.producer? var := hg.producer?_congr hh fun _ => same.produces_iff

theorem SameUnder.consumersOf_eq (hg : g.Linked) (hh : h.Linked) (var : String) :
    g.consumersOf var = h.consumersOf var :=
  hg.consumersOf_congr hh (same.of_frame (f := (·.inputs.count var)) fun _ => rfl)

/-- Links follow from slots, so graphs whose links are right have one outline. -/
theorem SameUnder.outline_eq (hg : g.Linked) (hh : h.Linked) :
    g.outline Operation.frame = h.outline Operation.frame := by
  have operations : (g.operations.mapEntries fun _ o => o.frame) =
      h.operations.mapEntries fun _ o => o.frame := by
    refine NameMap.ext_get? fun op => ?_
    rw [NameMap.get?_mapEntries, NameMap.get?_mapEntries]
    exact same.operations op
  have vars : (g.vars.mapEntries fun _ v => v.hollow) = h.vars.mapEntries fun _ v => v.hollow := by
    refine NameMap.ext_get? fun var => ?_
    rw [NameMap.get?_mapEntries, NameMap.get?_mapEntries]
    change (g.getVariable? var).map _ = (h.getVariable? var).map _
    obtain ⟨hv, hw⟩ | ⟨v, w, hv, hw, parameter⟩ := map_eq_map (same.parameters var)
    · rw [hv, hw]
    · obtain ⟨name, -, producer, consumers⟩ := hg.variable_links hv
      obtain ⟨name', -, producer', consumers'⟩ := hh.variable_links hw
      have hollow : v.hollow = w.hollow := by
        unfold Variable.hollow
        rw [name, name', parameter, producer, producer', consumers, consumers',
          same.producer?_eq hg hh, same.consumersOf_eq hg hh]
      rw [hv, hw, Option.map_some, Option.map_some, hollow]
  rw [outline, outline, operations, vars, same.inputs, same.outputs]

end Frames

/-- On the same platforms equal frames make twins. -/
theorem twins_assign (same : g.outline Operation.frame = h.outline Operation.frame)
    (platforms : String → Platform) : Twins (g.assign platforms) (h.assign platforms) := by
  have seated : ∀ g : Graph α, (g.assign platforms).outline Operation.bare =
      (g.outline Operation.frame).assign platforms := by
    intro g
    simp only [outline, Graph.assign, NameMap.mapEntries_mapEntries]
    rfl
  rw [Twins, seated, seated, same]

end Graph

namespace Overrides

variable {σ τ : Type} {R : σ → τ → Prop}

theorem agree_request (same : ∀ op, g.operations.contains op = h.operations.contains op)
    (op : String) (code : Int64) :
    Task.Agree R Eq (request g op code) (request h op code) := by
  unfold request
  rw [same]
  split
  · exact (Task.agree_note _ _).next fun _ => .pure rfl
  · cases Platform.ofCode? code with
    | some platform => exact .pure rfl
    | none => exact .throw _

theorem agree_force (t : DispatchTable) (e : String × Platform) :
    Task.Agree R Eq (force t e) (force t e) := by
  unfold force
  cases t.get? e.1 with
  | none => exact .pure rfl
  | some previous =>
    dsimp only
    split
    · exact (Task.agree_note _ _).next fun _ => .pure rfl
    · exact .pure rfl

/-- Overrides ask only which operations there are. -/
theorem agree_apply (same : ∀ op, g.operations.contains op = h.operations.contains op)
    (overrides : Overrides) (t : DispatchTable) :
    Task.Agree R Eq (overrides.apply g t) (overrides.apply h t) :=
  Agree.next (.filterMapM fun e _ => agree_request same e.1 e.2) fun _ =>
    .foldlM (fun t e _ => agree_force t e) t

end Overrides

namespace Dispatch

/-- A table that covers both graphs is carried out on both alike. -/
theorem carryOut_agrees (hg : g.Linked) (hh : h.Linked)
    (same : g.outline Operation.frame = h.outline Operation.frame) (strategy : Strategy)
    {table : DispatchTable} (covers : ∀ op ∈ g.operations, op ∈ table)
    (events later : List Event) :
    SameOutcome (fun t t' l l' => t = t' ∧ Twins l.state l'.state)
      (carryOut strategy table ⟨g, events⟩) (carryOut strategy table ⟨h, later⟩) := by
  have covers' : ∀ op ∈ h.operations, op ∈ table :=
    fun op known => covers op ((operations_contains_eq same op).trans known)
  obtain ⟨_, _, noted, run, rfl⟩ := DispatchTable.commit_leads hg covers events
  obtain ⟨_, _, noted', run', rfl⟩ := DispatchTable.commit_leads hh covers' later
  have rest : Blind (do
      let switches ← insertSwitches
      Task.note (.dispatched table.size (← Task.state).name strategy switches)
      return table : Dispatching α DispatchTable) :=
    blind_insertSwitches.next fun _ => Task.agree_state_bind fun _ _ _ =>
      (Task.agree_note _ _).next fun _ => .pure rfl
  unfold carryOut
  rw [bind_of_ok run, bind_of_ok run']
  exact rest ⟨_, noted⟩ ⟨_, noted'⟩ (twins_assign same table.platforms)

/-- Without cycles both graphs get one plan. -/
theorem planned_eq {order : List String} (run : g.executionOrder = .ok order)
    (same : g.outline Operation.frame = h.outline Operation.frame) (r : Request) :
    planned r g = planned r h := by
  have run' : h.executionOrder = .ok order := by
    rw [← executionOrder_outline, ← same, executionOrder_outline]
    exact run
  rw [← planned_outline run, same, planned_outline run']

theorem run_agrees (hg : g.Linked) (hh : h.Linked) (acyclic : g.Acyclic)
    (same : g.outline Operation.frame = h.outline Operation.frame) (events later : List Event) :
    SameOutcome (fun t t' l l' => t = t' ∧ Twins l.state l'.state)
      (run r ⟨g, events⟩) (run r ⟨h, later⟩) := by
  obtain ⟨order, ordered, -⟩ := hg.executionOrder_ok acyclic
  have plans : planned r g = planned r h := planned_eq ordered same r
  cases plan : planned r g with
  | error e =>
    rw [run_of_error plan, run_of_error (plans ▸ plan)]
    exact .error
  | ok p =>
    obtain ⟨strategy, proposed⟩ := p
    have proposes := Request.proposes_of_planned plan
    obtain ⟨reported, goes⟩ := run_of_planned plan events
    obtain ⟨reported', goes'⟩ := run_of_planned (plans ▸ plan) later
    have applied := Overrides.agree_apply (R := fun s t => s = g ∧ t = h)
      (operations_contains_eq same) r.overrides proposed ⟨g, reported⟩ ⟨h, reported'⟩ ⟨rfl, rfl⟩
    rw [goes, goes']
    refine (applied.mono fun table table' l l' run _ post => ?_).bind
      (Q := fun table table' l l' => table = table' ∧ l.state = g ∧ l'.state = h ∧
        ∀ op ∈ g.operations, op ∈ table) ?_
    · obtain ⟨-, -, found⟩ := apply_ensures r.overrides proposed reported table l run
      exact ⟨post.1, post.2.1, post.2.2, fun op => (mem_reconciled proposes found op).2⟩
    · rintro table _ ⟨_, noted⟩ ⟨_, noted'⟩ ⟨rfl, rfl, rfl, covers⟩
      exact carryOut_agrees hg hh same strategy covers noted noted'

variable [Scalar α]

/-- Two graphs without cycles that differ in values, in attributes of operations that are no
switches and in platforms are dispatched alike: with the same table or the same error, and to
graphs that differ in values and in such attributes at most. -/
theorem dispatched_by_structure (hg : Reachable g) (hh : Reachable h) (acyclic : g.Acyclic)
    (same : g.SameUnder Operation.frame h) (r : Request) (events later : List Event) :
    SameOutcome (fun table table' l l' => table = table' ∧
        l.state.SameUnder Operation.bare l'.state)
      (run r ⟨g, events⟩) (run r ⟨h, later⟩) :=
  (run_agrees hg.linked hh.linked acyclic (same.outline_eq hg.linked hh.linked) events later).mono
    fun _ _ _ _ _ _ post => ⟨post.1, .of_outline post.2⟩

/-- The relay of the switch is returned, so the switch stays. -/
def weigh : List (Action Float32) :=
  detour ++ [.createVariable "weight" (some ⟨[1], .ints [1]⟩), .appendInput "conv" "weight",
    .markOutput "x.relay"]

def weighed : Graph Float32 := performAll (.empty "net") weigh

/-- The weight gets another value, an operation another attribute, and all of them another
platform. -/
def reweigh : List (Action Float32) :=
  [.setValue "weight" ⟨[1], .ints [2]⟩, .setAttribute "relu" "alpha" (.int 1),
    .dispatch ⟨.trtInt8, "pointwise", .quantizationFirst, .ofList
      [("conv", Platform.fp32.code), ("add", Platform.fp32.code), ("relu", Platform.fp32.code)]⟩]

def reweighed : Graph Float32 := performAll (.empty "net") (weigh ++ reweigh)

def aimed : Request := ⟨.trtInt8, "conservative", .quantizationFirst, ∅⟩

theorem dispatched_by_structure_weighed : ∃ table l l', run aimed ⟨weighed, []⟩ = .ok table l ∧
    run aimed ⟨reweighed, []⟩ = .ok table l' ∧ l.state.SameUnder Operation.bare l'.state := by
  have reachable : Reachable weighed := ⟨_, weigh, .empty "net", rfl⟩
  have reachable' : Reachable reweighed := ⟨_, weigh ++ reweigh, .empty "net", rfl⟩
  have ranked : weighed.Ranked fun op => ["conv", "switch", "add", "relu"].idxOf op := by decide
  have same : weighed.SameUnder Operation.frame reweighed := .of_outline (by decide +kernel)
  have accepted : aimed.Accepted weighed :=
    ⟨⟨trtTypes, rfl⟩, ⟨.conservative, by decide⟩, by decide⟩
  obtain ⟨table, k, later, success, -⟩ :=
    run_succeeds reachable.linked ranked.acyclic accepted []
  have ends := dispatched_by_structure reachable reachable' ranked.acyclic same aimed [] []
  rw [success] at ends
  generalize run aimed ⟨reweighed, []⟩ = other at ends
  cases ends with
  | ok post =>
    obtain ⟨rfl, kept⟩ := post
    exact ⟨_, _, _, success, rfl, kept⟩

end Dispatch

end GraphDispatch
