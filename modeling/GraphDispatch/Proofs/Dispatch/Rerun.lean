import GraphDispatch.Proofs.Dispatch.Runs
import GraphDispatch.Proofs.Switches.Grown

/-!
# Dispatching again

A dispatch takes no notice of the switches that an earlier one left: it decides on the same
platforms, and completes the boundaries between them with the same switches.
-/

namespace GraphDispatch.Dispatch

open GraphDispatch.Graph

variable {α : Type} {g g' : Graph α} {r : Request}

/-- An operation is of the same kinds with switches around it. -/
theorem kinds_eq (ext : Extended g g') (acyclic : g.Acyclic) (acyclic' : g'.Acyclic)
    {strategy : Strategy} {quantTypes : List String} {kinds kinds' : Operation α → Kinds}
    (sees : classify strategy g quantTypes = .ok kinds)
    (sees' : classify strategy g' quantTypes = .ok kinds') {op : String} {o o' : Operation α}
    (ho : g.getOperation? op = some o) (ho' : g'.getOperation? op = some o')
    (type : o'.type = o.type) (outputs : o'.outputs = o.outputs) : kinds' o' = kinds o := by
  obtain ⟨shapes, run, mem⟩ := shapeDerived_ok ext.base acyclic
  obtain ⟨shapes', run', mem'⟩ := shapeDerived_ok ext.linked acyclic'
  have blind : ∀ {var root}, g'.Origin var root → root ∈ g.vars →
      (var ∈ shapes' ↔ root ∈ shapes) := by
    intro var root origin _
    rw [mem', mem]
    exact ext.shapeDerived_iff origin
  have shape : o'.outputs.any shapes'.contains = o.outputs.any shapes.contains := by
    rw [Bool.eq_iff_iff, outputs]
    simp only [List.any_eq_true, List.contains_iff_mem]
    refine exists_congr fun var => and_congr_right fun hvar => ?_
    have known := ext.base.output_known ho hvar
    exact blind (.here (ext.genuine var known)) known
  have path : (mainPath g' shapes').contains o'.name = (mainPath g shapes).contains o.name := by
    rw [ext.linked.operation_name ho', ext.base.operation_name ho, Bool.eq_iff_iff]
    simp only [List.contains_iff_mem, mem_mainPath ext.linked, mem_mainPath ext.base]
    exact ext.mainPath_iff blind (mem_operations_iff.2 ⟨o, ho⟩)
  unfold classify at sees sees'
  cases strategy with
  | pointwise =>
    cases sees
    cases sees'
    dsimp only
    rw [type]
  | aggressive =>
    simp only [run, run'] at sees sees'
    cases sees
    cases sees'
    dsimp only
    rw [type, shape]
  | conservative =>
    simp only [run, run'] at sees sees'
    cases sees
    cases sees'
    dsimp only
    rw [type, shape, path]

/-- A request decides on the same platforms with switches in the graph. -/
theorem decide_eq (ext : Extended g g') (acyclic : g.Acyclic) (acyclic' : g'.Acyclic)
    {kinds kinds' : Operation α → Kinds} (sees : r.Sees g kinds) (sees' : r.Sees g' kinds') :
    ∀ op ∈ g.operations, r.decide kinds' g' op = r.decide kinds g op := by
  intro op known
  obtain ⟨o, ho⟩ := mem_operations_iff.1 known
  obtain ⟨o', ho', type, outputs, -⟩ := ext.kept op o ho
  obtain ⟨quantTypes, strategy, quantizer, parsed, classified⟩ := sees
  obtain ⟨quantTypes', strategy', quantizer', parsed', classified'⟩ := sees'
  cases quantizer.symm.trans quantizer'
  cases parsed.symm.trans parsed'
  have same := kinds_eq ext acyclic acyclic' classified classified' ho ho' type outputs
  have placed : place targets r.precedence kinds' o' = place targets r.precedence kinds o := by
    unfold place
    rw [Operation.isSwitch, Operation.isSwitch, type, same]
  unfold Request.decide
  rw [ho, ho', Option.map_some, Option.map_some, placed]

/-- Switches that no override names make no difference to what is accepted. -/
theorem accepted_iff (ext : Extended g g')
    (spared : ∀ op o, g'.getOperation? op = some o → o.isSwitch = true → op ∉ r.overrides) :
    r.Accepted g' ↔ r.Accepted g := by
  constructor
  · rintro ⟨quantizer, strategy, decodable⟩
    refine ⟨quantizer, strategy, fun op code found known => decodable op code found ?_⟩
    obtain ⟨o, ho⟩ := mem_operations_iff.1 known
    obtain ⟨o', ho', -⟩ := ext.kept op o ho
    exact mem_operations_iff.2 ⟨o', ho'⟩
  · rintro ⟨quantizer, strategy, decodable⟩
    refine ⟨quantizer, strategy, fun op code found known => decodable op code found ?_⟩
    obtain ⟨o', ho'⟩ := mem_operations_iff.1 known
    cases switch : o'.isSwitch with
    | true => exact absurd (NameMap.mem_of_get? found) (spared op o' ho' switch)
    | false => exact ext.only op o' ho' switch

/-- A plain graph and the same graph after a dispatch are dispatched alike: both succeed or none
does, and the platforms and switches do not depend on the dispatch that was before. -/
theorem dispatched_again_alike {d : Document α} {r₁ r₂ : Request} {g₁ : Graph α} {events : List Event}
    (built : d.build = .ok g) (acyclic : g.Acyclic) (plain : g.Plain)
    (first : Dispatched r₁ events g g₁)
    (spared : ∀ op o, g₁.getOperation? op = some o → o.isSwitch = true → op ∉ r₂.overrides)
    (events₁ events₂ : List Event) :
    ((∃ h, Dispatched r₂ events₁ g₁ h) ↔ ∃ k, Dispatched r₂ events₂ g k) ∧
      ∀ h k, Dispatched r₂ events₁ g₁ h → Dispatched r₂ events₂ g k → Alike g h k := by
  have live := live_of_build built
  have sound : g.Sound := ⟨live.linked, acyclic, plain.ports⟩
  obtain ⟨kinds₁, sees₁⟩ := first.accepted.sees live.linked acyclic
  obtain ⟨_, way⟩ := first.reswitched sound sees₁
  have done := way.completed (plain.assign _) (sound.assign _)
  have ext := done.extended live plain (way.grown (plain.assign _))
  constructor
  · rw [dispatched_iff done.sound, dispatched_iff sound]
    exact accepted_iff ext spared
  · intro h k again direct
    obtain ⟨kinds, sees⟩ := direct.accepted.sees live.linked acyclic
    obtain ⟨kinds', sees'⟩ := again.accepted.sees done.sound.linked done.sound.acyclic
    obtain ⟨_, way'⟩ := again.reswitched done.sound sees'
    obtain ⟨_, way''⟩ := direct.reswitched sound sees
    have platforms := decide_eq ext acyclic done.sound.acyclic sees sees'
    have done' := way'.recompleted done
    rw [assign_assign, assign_congr platforms] at done'
    have done'' := way''.completed (plain.assign _) (sound.assign _)
    exact (done'.alike done'').of_assign

/-- A shape that is read together with the numbers it was taken from. -/
def shapeOfConv : Document Float32 where
  name := "net"
  inputs := ["x"]
  outputs := ["z"]
  vars := [⟨"x", none, false⟩, ⟨"y", none, false⟩, ⟨"y.shape", none, false⟩, ⟨"z", none, false⟩]
  operations := [⟨"conv", "Conv", ∅, ["x"], ["y"], .unspecified⟩,
    ⟨"shape", "Shape", ∅, ["y"], ["y.shape"], .unspecified⟩,
    ⟨"reshape", "Reshape", ∅, ["y", "y.shape"], ["z"], .unspecified⟩]

def shapeGraph : Graph Float32 :=
  match shapeOfConv.build with
  | .ok g => g
  | .error _ => .empty ""

def careful : Request :=
  ⟨.trtInt8, "conservative", .shapeOrIndexFirst, .ofList [("conv", Platform.fp32.code)]⟩

def quick : Request := ⟨.pplCudaInt8, "pointwise", .quantizationFirst, ∅⟩

theorem dispatched_again_alike_shapes : ∃ g g₁ : Graph Float32, shapeOfConv.build = .ok g ∧
    Dispatched careful [] g g₁ ∧
    ((∃ h, Dispatched quick [] g₁ h) ↔ ∃ k, Dispatched quick [] g k) ∧
      ∀ h k, Dispatched quick [] g₁ h → Dispatched quick [] g k → Alike g h k := by
  have built : shapeOfConv.build = .ok shapeGraph := rfl
  have plain : shapeGraph.Plain := by decide
  have ranked : shapeGraph.Ranked fun op => ["conv", "shape", "reshape"].idxOf op := by decide
  have sound : shapeGraph.Sound := ⟨linked_of_build built, ranked.acyclic, plain.ports⟩
  have accepted : careful.Accepted shapeGraph :=
    ⟨⟨trtTypes, rfl⟩, ⟨.conservative, by decide⟩, by decide⟩
  obtain ⟨g₁, first⟩ := (dispatched_iff sound []).2 accepted
  refine ⟨shapeGraph, g₁, built, first, ?_⟩
  exact dispatched_again_alike built ranked.acyclic plain first (fun _ _ _ _ h => by cases h) [] []

end GraphDispatch.Dispatch
