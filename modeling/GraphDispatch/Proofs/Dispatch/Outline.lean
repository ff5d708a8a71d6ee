import GraphDispatch.Dispatch.Run
import GraphDispatch.Proofs.MainPath
import GraphDispatch.Proofs.Order
import GraphDispatch.Proofs.Success

/-!
# What a dispatch sees of a graph

The outline of a graph has its slots, its links and its interface, but no values, and of each
operation only what a view leaves. Proposals are made from the frames of operations; the
switches also need to know where operations sit.
-/

namespace GraphDispatch

variable {α : Type} {g h : Graph α} {view : Operation α → Operation α} {o : Operation α}

/-- The operation without its attributes, if it is no switch. -/
def Operation.bare (o : Operation α) : Operation α :=
  { o with attributes := if o.isSwitch then o.attributes else ∅ }

/-- What is left of an operation that sits nowhere yet. -/
def Operation.frame (o : Operation α) : Operation α := { o.bare with platform := .unspecified }

def Variable.hollow (v : Variable α) : Variable α := { v with value := none }

theorem Operation.switchPlatforms?_bare (o : Operation α) :
    o.bare.switchPlatforms? = o.switchPlatforms? := by
  unfold switchPlatforms? platformAttribute? bare
  by_cases switch : o.isSwitch = true
  · simp only [switch, if_true]
  · have hidden : ∀ attributes, ({ o with attributes } : Operation α).isSwitch = false :=
      fun _ => Bool.eq_false_iff.2 switch
    simp only [hidden, Bool.false_eq_true, if_false]

namespace Graph

def outline (view : Operation α → Operation α) (g : Graph α) : Graph α where
  name := ""
  operations := g.operations.mapEntries fun _ o => view o
  vars := g.vars.mapEntries fun _ v => v.hollow
  inputs := g.inputs
  outputs := g.outputs

/-- What does not depend on more than the outline is the same for equal outlines. -/
theorem eq_of_outline {β : Type} {F : Graph α → β} (sees : ∀ g, F (g.outline view) = F g)
    (same : g.outline view = h.outline view) : F g = F h := by
  rw [← sees g, same, sees h]

section Lookups

variable (view g)

theorem getOperation?_outline (op : String) :
    (g.outline view).getOperation? op = (g.getOperation? op).map view :=
  NameMap.get?_mapEntries _ _ _

theorem getVariable?_outline (var : String) :
    (g.outline view).getVariable? var = (g.getVariable? var).map Variable.hollow :=
  NameMap.get?_mapEntries _ _ _

theorem producer?_outline : (g.outline view).producer? = g.producer? := by
  funext var
  unfold producer?
  rw [getVariable?_outline]
  cases g.getVariable? var <;> rfl

theorem consumersOf_outline : (g.outline view).consumersOf = g.consumersOf := by
  funext var
  unfold consumersOf
  rw [getVariable?_outline]
  cases g.getVariable? var <;> rfl

theorem usedNames_outline : (g.outline view).usedNames = g.usedNames := by
  unfold usedNames outline
  rw [NameMap.names_mapEntries, NameMap.names_mapEntries]

theorem freshName_outline (base : String) : (g.outline view).freshName base = g.freshName base := by
  rw [freshName, usedNames_outline, freshName]

theorem operations_contains_outline (op : String) :
    (g.outline view).operations.contains op = g.operations.contains op := by
  simp only [NameMap.contains, outline, NameMap.get?_mapEntries, Option.isSome_map]

theorem vars_contains_outline (var : String) :
    (g.outline view).vars.contains var = g.vars.contains var := by
  simp only [NameMap.contains, outline, NameMap.get?_mapEntries, Option.isSome_map]

variable {view g} in
theorem operations_contains_eq (same : g.outline view = h.outline view) (op : String) :
    g.operations.contains op = h.operations.contains op :=
  eq_of_outline (F := fun g => g.operations.contains op)
    (fun g => operations_contains_outline g view op) same

end Lookups

section Frames

variable (g)

theorem upstream_outline : (g.outline Operation.frame).upstream = g.upstream := by
  funext op
  unfold upstream
  rw [getOperation?_outline, producer?_outline]
  cases g.getOperation? op <;> rfl

theorem downstream_outline : (g.outline Operation.frame).downstream = g.downstream := by
  funext op
  unfold downstream
  rw [getOperation?_outline, consumersOf_outline]
  cases g.getOperation? op <;> rfl

theorem start_outline : Sorting.start (g.outline Operation.frame) = Sorting.start g := by
  unfold Sorting.start
  rw [upstream_outline, outline, NameMap.mapEntries_mapEntries]

theorem round_outline (s : Sorting) : s.round (g.outline Operation.frame) = s.round g := by
  unfold Sorting.round
  rw [downstream_outline]

/-- Where there is an order, it is that of the outline; an error would name the graph. -/
theorem executionOrder_outline {order : List String} :
    (g.outline Operation.frame).executionOrder = .ok order ↔ g.executionOrder = .ok order := by
  have names : (g.outline Operation.frame).operations.names = g.operations.names :=
    NameMap.names_mapEntries _ _
  have size : (g.outline Operation.frame).operations.size = g.operations.size :=
    List.length_map _
  unfold executionOrder
  simp only [names, size, start_outline, round_outline]
  cases g.operations.names.foldlM (fun s _ => Sorting.round g s) (Sorting.start g) with
  | error e => exact Iff.rfl
  | ok s =>
    change (if s.order.length = g.operations.size then _ else _) = _ ↔
      (if s.order.length = g.operations.size then _ else _) = _
    by_cases complete : s.order.length = g.operations.size
    · simp only [complete, if_true]
    · simp only [complete, if_false]
      exact ⟨nofun, nofun⟩

end Frames

end Graph

namespace Dispatch

open GraphDispatch.Graph

section Proposals

variable (g)

theorem activations_outline (o : Operation α) :
    activations (g.outline Operation.frame) o.frame = activations g o := by
  have flags : ∀ var, ((g.outline Operation.frame).getVariable? var).any (!·.isParameter) =
      (g.getVariable? var).any (!·.isParameter) := by
    intro var
    rw [getVariable?_outline]
    cases g.getVariable? var <;> rfl
  unfold activations
  simp only [flags]
  rfl

theorem extendShapes_outline :
    extendShapes (g.outline Operation.frame) = extendShapes g := by
  funext derived op
  unfold extendShapes
  rw [getOperation?_outline]
  cases g.getOperation? op with
  | none => rfl
  | some o =>
    have yields : yieldsShapes (g.outline Operation.frame) derived o.frame =
        yieldsShapes g derived o := by
      unfold yieldsShapes
      rw [activations_outline]
      rfl
    simp only [Option.map_some, yields]
    rfl

variable {g} in
theorem shapeDerived_outline {order : List String} (run : g.executionOrder = .ok order) :
    shapeDerived (g.outline Operation.frame) = shapeDerived g := by
  unfold shapeDerived
  rw [(executionOrder_outline g).2 run, run, extendShapes_outline]

theorem readers_outline (view : Operation α → Operation α) (shapes : List String) :
    readers (g.outline view) shapes = readers g shapes := by
  funext var
  have carries : carriesNumbers (g.outline view) shapes var = carriesNumbers g shapes var := by
    unfold carriesNumbers
    rw [getVariable?_outline]
    cases g.getVariable? var <;> rfl
  unfold readers
  rw [carries, consumersOf_outline]

theorem outputsOf_outline : outputsOf (g.outline Operation.frame) = outputsOf g := by
  funext op
  unfold outputsOf
  rw [getOperation?_outline]
  cases g.getOperation? op <;> rfl

theorem mainPath_outline (shapes : List String) :
    mainPath (g.outline Operation.frame) shapes = mainPath g shapes := by
  unfold mainPath
  rw [readers_outline, outputsOf_outline]
  rw [show (g.outline Operation.frame).vars.names = g.vars.names from NameMap.names_mapEntries _ _]
  rfl

variable {g}

theorem classify_outline {order : List String} (run : g.executionOrder = .ok order)
    (strategy : Strategy) (quantTypes : List String) :
    classify strategy (g.outline Operation.frame) quantTypes = classify strategy g quantTypes := by
  unfold classify
  simp only [shapeDerived_outline run, mainPath_outline]

/-- Kinds are told from frames. -/
theorem kinds_frame {strategy : Strategy} {quantTypes : List String}
    {kinds : Operation α → Kinds} (h : classify strategy g quantTypes = .ok kinds)
    (o : Operation α) : kinds o.frame = kinds o := by
  unfold classify at h
  cases strategy with
  | pointwise =>
    cases h
    rfl
  | aggressive =>
    obtain ⟨shapes, -, h⟩ := except_bind_eq_ok h
    cases h
    rfl
  | conservative =>
    obtain ⟨shapes, -, h⟩ := except_bind_eq_ok h
    cases h
    rfl

theorem planned_outline {order : List String} (run : g.executionOrder = .ok order) (r : Request) :
    planned r (g.outline Operation.frame) = planned r g := by
  have proposals : ∀ strategy quantTypes,
      propose strategy r.precedence (g.outline Operation.frame) quantTypes targets =
        propose strategy r.precedence g quantTypes targets := by
    intro strategy quantTypes
    unfold propose
    rw [classify_outline run]
    cases found : classify strategy g quantTypes with
    | error e => rfl
    | ok kinds =>
      have placed : ∀ o : Operation α, place targets r.precedence kinds o.frame =
          place targets r.precedence kinds o := by
        intro o
        unfold place
        rw [kinds_frame found]
        rfl
      have tables : ((g.outline Operation.frame).operations.mapEntries fun _ o =>
          place targets r.precedence kinds o) =
          g.operations.mapEntries fun _ o => place targets r.precedence kinds o := by
        rw [outline, NameMap.mapEntries_mapEntries]
        simp only [placed]
      exact congrArg Except.ok tables
  unfold planned
  simp only [proposals]

end Proposals

section Switches

variable (g)

theorem feeder?_outline (o : Operation α) :
    feeder? (g.outline Operation.bare) o.bare = (feeder? g o).map Operation.bare := by
  unfold feeder?
  rw [producer?_outline]
  change (o.inputs.head?.bind _).bind _ = _
  cases o.inputs.head?.bind g.producer? with
  | none => rfl
  | some op => exact getOperation?_outline g _ op

theorem receivers_outline (o : Operation α) :
    receivers (g.outline Operation.bare) o.bare = receivers g o := by
  unfold receivers
  change ((o.outputs.head?.bind _).map _).getD [] = _
  cases o.outputs.head? with
  | none => rfl
  | some var =>
    rw [Option.bind_some, Option.bind_some, getVariable?_outline]
    cases g.getVariable? var <;> rfl

theorem sitsOn_outline : sitsOn (g.outline Operation.bare) = sitsOn g := by
  funext platform op
  unfold sitsOn
  rw [getOperation?_outline]
  cases g.getOperation? op <;> rfl

theorem isFitting_outline (o : Operation α) :
    isFitting (g.outline Operation.bare) o.bare = isFitting g o := by
  unfold isFitting
  rw [Operation.switchPlatforms?_bare, feeder?_outline, receivers_outline, sitsOn_outline]
  cases o.switchPlatforms? <;> cases feeder? g o <;> rfl

theorem staleSwitches_outline : staleSwitches (g.outline Operation.bare) = staleSwitches g := by
  have stale : ∀ o : Operation α, (o.bare.isSwitch &&
      !isFitting (g.outline Operation.bare) o.bare &&
      !isExposed (g.outline Operation.bare) o.bare) =
        (o.isSwitch && !isFitting g o && !isExposed g o) := by
    intro o
    rw [isFitting_outline]
    rfl
  unfold staleSwitches
  rw [show (g.outline Operation.bare).operations.values = g.operations.values.map Operation.bare
    from NameMap.values_mapEntries _ _, List.filter_map, List.map_map]
  simp only [Function.comp_def, stale]
  rfl

theorem relay?_outline (v : Variable α) (target : Platform) :
    relay? (g.outline Operation.bare) v.hollow target = relay? g v target := by
  unfold relay?
  have found : v.hollow.consumerNames.filterMap (g.outline Operation.bare).getOperation? =
      (v.consumerNames.filterMap g.getOperation?).map Operation.bare := by
    rw [List.map_filterMap]
    exact List.filterMap_congr fun op _ => getOperation?_outline g _ op
  rw [found, ← List.map_reverse, List.findSome?_map]
  simp only [Function.comp_def, isFitting_outline, Operation.switchPlatforms?_bare]
  rfl

theorem crossingsOf_outline (v : Variable α) :
    crossingsOf (g.outline Operation.bare) v.hollow = crossingsOf g v := by
  unfold crossingsOf
  have producer : v.hollow.producer.bind (g.outline Operation.bare).getOperation? =
      (v.producer.bind g.getOperation?).map Operation.bare := by
    change v.producer.bind _ = _
    cases v.producer with
    | none => rfl
    | some op => exact getOperation?_outline g _ op
  rw [producer]
  cases v.producer.bind g.getOperation? with
  | none => rfl
  | some p =>
    simp only [Option.map_some, sitsOn_outline, relay?_outline]
    rfl

theorem crossings_outline : crossings (g.outline Operation.bare) = crossings g := by
  unfold crossings
  rw [show (g.outline Operation.bare).vars.values = g.vars.values.map Variable.hollow
    from NameMap.values_mapEntries _ _, List.flatMap_map]
  simp only [crossingsOf_outline]

end Switches

end Dispatch

end GraphDispatch
