import GraphDispatch.Dispatch.Proposal
import GraphDispatch.Proofs.Sorting
import GraphDispatch.Proofs.Switches.Extended
import Mathlib.Data.List.Chain
import Mathlib.Data.List.Flatten
import Mathlib.Data.List.Perm.Subperm
import Mathlib.Order.Bounds.Defs

/-!
# What the strategies trace

Shape tracing finds the least set of variables that its rule allows, and the search for the
main path finds what a chain of readings leads to from a graph input. The two traces exclude
each other: numbers do not reach an operation that computes shapes from shapes, so the
conservative strategy has no reason to quantize it.
-/

namespace GraphDispatch.Dispatch

open GraphDispatch.Graph

variable {α : Type} {g : Graph α} {op var : String} {o : Operation α} {shapes : List String}

section Shapes

variable {D : Set String}

/-- The operation makes a shape out of a tensor. -/
def IsShapeSource (o : Operation α) : Prop :=
  o.type = "Shape" ∨ o.type = "Size" ∨ o.type = "NonZero"

theorem isShapeSource_iff : IsShapeSource o ↔ o.type ∈ shapeSourceTypes := by
  simp only [IsShapeSource, shapeSourceTypes, List.mem_cons, List.not_mem_nil, or_false]
  tauto

/-- The set has the outputs of each shape source, and of each operation that reads activations
and only such as are in the set. -/
def HoldsShapes (g : Graph α) (D : Set String) : Prop :=
  ∀ op o, g.getOperation? op = some o →
    IsShapeSource o ∨
      (∃ a ∈ o.inputs, g.carries a = true) ∧ (∀ a ∈ o.inputs, g.carries a = true → a ∈ D) →
    ∀ var ∈ o.outputs, var ∈ D

theorem holdsShapes_shapeDerived (g : Graph α) : HoldsShapes g {var | ShapeDerived g var} := by
  intro op o ho makes var hvar
  rcases makes with source | ⟨⟨a, ha, carries⟩, all⟩
  · exact .source ho (isShapeSource_iff.1 source) hvar
  · have member : a ∈ activations g o := Extended.mem_activations.2 ⟨ha, carries⟩
    apply ShapeDerived.activations ho (List.ne_nil_of_mem member) _ hvar
    intro b hb
    have read := Extended.mem_activations.1 hb
    exact all b read.1 read.2

theorem HoldsShapes.of_shapeDerived (h : HoldsShapes g D) (derived : ShapeDerived g var) :
    var ∈ D := by
  induction derived with
  | source ho type hvar => exact h _ _ ho (Or.inl (isShapeSource_iff.2 type)) _ hvar
  | activations ho some all hvar ih =>
    apply h _ _ ho (Or.inr ⟨_, _⟩) _ hvar
    · obtain ⟨a, ha⟩ := List.exists_mem_of_ne_nil _ some
      exact ⟨a, Extended.mem_activations.1 ha⟩
    · intro a ha carries
      exact ih a (Extended.mem_activations.2 ⟨ha, carries⟩)

/-- The rule describes the least set. -/
theorem isLeast_shapeDerived (g : Graph α) :
    IsLeast {D : Set String | HoldsShapes g D} {var | ShapeDerived g var} := by
  constructor
  · exact holdsShapes_shapeDerived g
  · intro D holds var derived
    exact holds.of_shapeDerived derived

/-- A graph with a cycle has no order to trace shapes in. -/
theorem shapeDerived_error (hg : g.Linked) (cyclic : ¬g.Acyclic) :
    shapeDerived g = .error (.cycle g.name) := by
  cases run : g.executionOrder with
  | ok order => exact absurd (hg.listsInOrder run).acyclic cyclic
  | error e =>
    unfold shapeDerived
    rw [run, hg.eq_cycle_of_error run]
    simp [bind, Except.bind]

variable [Scalar α]

/-- One pass in order of execution finds the least set that holds the shapes, and it fails
where there is no such order. -/
theorem shapeDerived_least (reachable : Reachable g) :
    (g.Acyclic → ∃ shapes, shapeDerived g = .ok shapes ∧
      IsLeast {D : Set String | HoldsShapes g D} {var | var ∈ shapes}) ∧
    (¬g.Acyclic → shapeDerived g = .error (.cycle g.name)) := by
  constructor
  · intro acyclic
    obtain ⟨shapes, run, mem⟩ := shapeDerived_ok reachable.linked acyclic
    have same : {var | var ∈ shapes} = {var | ShapeDerived g var} := Set.ext mem
    refine ⟨shapes, run, ?_⟩
    rw [same]
    exact isLeast_shapeDerived g
  · exact shapeDerived_error reachable.linked

/-- `mul` scales the shape that `reshape` reads. -/
def scaling : List (Action Float32) :=
  [.createVariable "x" none, .createVariable "two" (some ⟨[1], .ints [2]⟩),
    .createVariable "s" none, .createVariable "n" none, .createVariable "y" none,
    .createOperation "shape" "Shape" ∅ ["x"] ["s"],
    .createOperation "mul" "Mul" ∅ ["s", "two"] ["n"],
    .createOperation "reshape" "Reshape" ∅ ["x", "n"] ["y"], .markInput "x", .markOutput "y"]

def scaled : Graph Float32 := performAll (.empty "net") scaling

theorem scaled_acyclic : scaled.Acyclic := by
  have ranked : scaled.Ranked fun op => ["shape", "mul", "reshape"].idxOf op := by decide
  exact ranked.acyclic

/-- `conv` reads what `add` makes of its own output, and `count` reads shapes only. -/
def feedback : List (Action Float32) :=
  [.createVariable "x" none, .createVariable "y" none, .createVariable "z" none,
    .createVariable "n" none, .createOperation "conv" "Conv" ∅ ["x"] ["y"],
    .createOperation "add" "Add" ∅ ["y", "y"] ["z"], .createOperation "count" "Size" ∅ ["z"] ["n"],
    .appendInput "conv" "z", .markInput "x", .markInput "n"]

def fedBack : Graph Float32 := performAll (.empty "net") feedback

theorem fedBack_cyclic : ¬fedBack.Acyclic := by
  intro acyclic
  have forth : "conv" ∈ fedBack.upstream "add" := by decide
  have back : "add" ∈ fedBack.upstream "conv" := by decide
  exact acyclic "conv" (.tail (.single forth) back)

theorem shapeDerived_least_scaled :
    shapeDerived scaled = .ok ["s", "n"] ∧
      IsLeast {D : Set String | HoldsShapes scaled D} {"s", "n"} ∧
      shapeDerived fedBack = .error (.cycle "net") := by
  obtain ⟨traces, -⟩ := shapeDerived_least (g := scaled) ⟨_, scaling, .empty "net", rfl⟩
  obtain ⟨-, fails⟩ := shapeDerived_least (g := fedBack) ⟨_, feedback, .empty "net", rfl⟩
  have traced : shapeDerived scaled = .ok ["s", "n"] := rfl
  obtain ⟨shapes, run, least⟩ := traces scaled_acyclic
  cases run.symm.trans traced
  refine ⟨traced, ?_, fails fedBack_cyclic⟩
  simpa [Set.insert_def] using least

end Shapes

section MainPath

/-- Readings in a row: the first is of a graph input, each of the others is of a variable that
the operation before has produced, and none is of a parameter or of one of `shapes`. -/
structure NumberChain (g : Graph α) (shapes : List String) (chain : List (String × String)) :
    Prop where
  starts : ∀ link ∈ chain.head?, link.1 ∈ g.inputs
  reads : ∀ link ∈ chain, g.Reads link.2 link.1
  numeric : ∀ link ∈ chain, link.1 ∉ shapes ∧ g.carries link.1 = true
  produced : chain.IsChain fun link next => g.Produces link.2 next.1

theorem mem_readers_iff (hg : g.Linked) :
    op ∈ readers g shapes var ↔ var ∉ shapes ∧ g.carries var = true ∧ g.Reads op var := by
  rw [mem_readers hg, carriesNumbers, ← carries]
  simp [and_assoc]

namespace NumberChain

variable {chain : List (String × String)} {x p : String}

theorem single (hg : g.Linked) (hvar : var ∈ g.inputs) (reads : op ∈ readers g shapes var) :
    NumberChain g shapes [(var, op)] := by
  obtain ⟨numeric, carries, reads⟩ := (mem_readers_iff hg).1 reads
  constructor
  case produced => exact .singleton _
  all_goals simp [*]

theorem snoc (hg : g.Linked) (h : NumberChain g shapes chain) (last : chain.getLast? = some (x, p))
    (made : g.Produces p var) (reads : op ∈ readers g shapes var) :
    NumberChain g shapes (chain ++ [(var, op)]) := by
  obtain ⟨numeric, carries, reads⟩ := (mem_readers_iff hg).1 reads
  constructor
  case starts =>
    intro link hlink
    apply h.starts
    cases chain with
    | nil => cases last
    | cons first rest => exact hlink
  case produced =>
    apply List.isChain_append.2 ⟨h.produced, .singleton _, _⟩
    simp [last, made]
  case reads =>
    intro link hlink
    rcases List.mem_append.1 hlink with hlink | hlink
    · exact h.reads link hlink
    · simp_all
  case numeric =>
    intro link hlink
    rcases List.mem_append.1 hlink with hlink | hlink
    · exact h.numeric link hlink
    · simp_all

/-- The chain before its last link. -/
theorem init {link : String × String} (h : NumberChain g shapes (chain ++ [link])) :
    NumberChain g shapes chain where
  starts first hfirst := h.starts first (by simp [List.head?_append, Option.mem_def.1 hfirst])
  reads l hl := h.reads l (List.mem_append_left _ hl)
  numeric l hl := h.numeric l (List.mem_append_left _ hl)
  produced := h.produced.left_of_append

/-- The induction is on the chain from its end, as the main path grows. -/
theorem onMainPath (hg : g.Linked) (h : NumberChain g shapes chain)
    (last : chain.getLast? = some (var, op)) : OnMainPath g shapes op := by
  induction chain using List.reverseRecOn generalizing var op with
  | nil => cases last
  | append_singleton chain link ih =>
    rw [List.getLast?_concat, Option.some.injEq] at last
    subst last
    have reading : op ∈ readers g shapes var := by
      have numeric := h.numeric (var, op) (by simp)
      exact (mem_readers_iff hg).2 ⟨numeric.1, numeric.2, h.reads (var, op) (by simp)⟩
    cases before : chain.getLast? with
    | none =>
      rw [List.getLast?_eq_none_iff] at before
      subst before
      exact .input (h.starts (var, op) rfl) reading
    | some link =>
      have made : g.Produces link.2 var :=
        (List.isChain_append.1 h.produced).2.2 link before (var, op) rfl
      exact .step (ih h.init before) (mem_outputsOf.2 made) reading

end NumberChain

theorem onMainPath_iff_chain (hg : g.Linked) : OnMainPath g shapes op ↔
    ∃ chain var, NumberChain g shapes chain ∧ chain.getLast? = some (var, op) := by
  constructor
  · intro h
    induction h with
    | @input var op hvar reads => exact ⟨_, var, .single hg hvar reads, rfl⟩
    | @step op var next _ made reads ih =>
      obtain ⟨chain, x, h, last⟩ := ih
      exact ⟨_, var, h.snoc hg last (mem_outputsOf.1 made) reads, List.getLast?_concat⟩
  · rintro ⟨chain, var, h, last⟩
    exact h.onMainPath hg last

/-- A search visits no name twice and fresh names only. -/
theorem reach_subperm (next : String → List String) (fresh queue : List String) :
    (reach next fresh queue).Subperm fresh := by
  fun_induction reach next fresh queue with
  | case1 fresh => exact List.nil_subperm
  | case2 fresh n queue hn ih =>
    exact ((List.subperm_cons n).2 ih).trans (List.perm_cons_erase hn).symm.subperm
  | case3 fresh n queue hn ih => exact ih

theorem readers_sublist (g : Graph α) (shapes : List String) (var : String) :
    (readers g shapes var).Sublist (g.consumersOf var) := by
  unfold readers
  split
  · exact List.Sublist.refl _
  · exact List.nil_sublist _

/-- Each slot is followed at most once. -/
theorem mainPath_subperm (g : Graph α) (shapes : List String) :
    (mainPath g shapes).Subperm (g.vars.names.flatMap g.consumersOf) := by
  unfold mainPath
  obtain ⟨visited, perm, sublist⟩ := reach_subperm
    (fun var => (readers g shapes var).flatMap (outputsOf g)) g.vars.names g.inputs
  have followed : (visited.flatMap (readers g shapes)).Sublist
      (g.vars.names.flatMap g.consumersOf) :=
    (sublist.flatMap _).trans (.flatMap_right _ fun var _ => readers_sublist g shapes var)
  exact ⟨_, perm.flatMap_right _, followed⟩

/-- On graphs with or without cycles the search ends after it has followed each slot once at
most, and it finds the operations that a chain of readings ends in. -/
theorem mainPath_eq_chains [Scalar α] (reachable : Reachable g) (shapes : List String) :
    (mainPath g shapes).Subperm (g.vars.names.flatMap g.consumersOf) ∧
    ∀ op, op ∈ mainPath g shapes ↔
      ∃ chain var, NumberChain g shapes chain ∧ chain.getLast? = some (var, op) := by
  constructor
  · exact mainPath_subperm g shapes
  · intro op
    rw [mem_mainPath reachable.linked]
    exact onMainPath_iff_chain reachable.linked

theorem mainPath_eq_chains_fedBack :
    "add" ∈ mainPath fedBack ["z"] ∧ "count" ∉ mainPath fedBack ["z"] := by
  obtain ⟨-, found⟩ := mainPath_eq_chains (g := fedBack) ⟨_, feedback, .empty "net", rfl⟩ ["z"]
  have chain : NumberChain fedBack ["z"] [("x", "conv"), ("y", "add")] := by
    constructor
    case starts => simp [show fedBack.inputs = ["x", "n"] from rfl]
    case produced => exact .cons_cons ⟨_, rfl, by decide⟩ (.singleton _)
    all_goals
      intro link hlink
      simp only [List.mem_cons, List.not_mem_nil, or_false] at hlink
    case reads => rcases hlink with rfl | rfl <;> exact ⟨_, rfl, by decide⟩
    case numeric => rcases hlink with rfl | rfl <;> exact ⟨by decide, rfl⟩
  refine ⟨(found "add").2 ⟨_, "y", chain, rfl⟩, fun reached => ?_⟩
  obtain ⟨chain, var, h, last⟩ := (found "count").1 reached
  have link := List.mem_of_getLast? last
  obtain ⟨o, ho, hvar⟩ := h.reads _ link
  obtain rfl : var = "z" := by
    cases ho
    simpa using hvar
  exact (h.numeric _ link).1 (by simp)

end MainPath

section Conservative

/-- Numbers do not reach an operation that computes shapes from shapes: it reads nothing else. -/
theorem not_onMainPath (hg : g.Linked) (ho : g.getOperation? op = some o)
    (derives : ¬IsShapeSource o) (hvar : var ∈ o.outputs) (derived : ShapeDerived g var)
    (mem : ∀ a, ShapeDerived g a → a ∈ shapes) : ¬OnMainPath g shapes op := by
  intro onPath
  obtain ⟨a, -, reads⟩ := onMainPath_iff.1 onPath
  obtain ⟨numeric, carries, o', ho', ha⟩ := (mem_readers_iff hg).1 reads
  cases ho.symm.trans ho'
  have makes : MakesShapes g o := (shapeDerived_output hg ho hvar).1 derived
  rcases makes with source | ⟨-, all⟩
  · exact derives (isShapeSource_iff.2 source)
  · exact numeric (mem a (all a (Extended.mem_activations.2 ⟨ha, carries⟩)))

/-- What the conservative strategy proposes once the shapes are known. -/
theorem propose_conservative (run : shapeDerived g = .ok shapes) (precedence : Precedence)
    (quantTypes : List String) (targets : Targets) :
    propose .conservative precedence g quantTypes targets =
      .ok (g.operations.mapEntries fun _ o => place targets precedence
        (fun o => ⟨shapeOrIndexTypes.contains o.type || o.outputs.any shapes.contains,
          quantTypes.contains o.type && (mainPath g shapes).contains o.name⟩) o) := by
  simp only [propose, classify, run]
  rfl

/-- What computes shapes from shapes goes where shapes are computed, also if its type can be
quantized and quantization comes first. -/
theorem conservative_spares_shapes [Scalar α] (reachable : Reachable g) (acyclic : g.Acyclic)
    (precedence : Precedence) (quantTypes : List String) (targets : Targets) :
    ∃ shapes table, shapeDerived g = .ok shapes ∧
      propose .conservative precedence g quantTypes targets = .ok table ∧
      ∀ op o, g.getOperation? op = some o → o.isSwitch = false → ¬IsShapeSource o →
        (∃ var ∈ o.outputs, var ∈ shapes) → table.get? op = some targets.shapeOrIndex := by
  have linked := reachable.linked
  obtain ⟨shapes, run, mem⟩ := shapeDerived_ok linked acyclic
  refine ⟨shapes, _, run, propose_conservative run precedence quantTypes targets, ?_⟩
  rintro op o ho unswitched derives ⟨var, hvar, shape⟩
  have off : ¬OnMainPath g shapes op :=
    not_onMainPath linked ho derives hvar ((mem var).1 shape) fun a => (mem a).2
  have unquantized : (mainPath g shapes).contains o.name = false := by
    rw [linked.operation_name ho, Bool.eq_false_iff]
    simpa [mem_mainPath linked] using off
  have shaped : o.outputs.any shapes.contains = true :=
    List.any_eq_true.2 ⟨var, hvar, List.contains_iff_mem.2 shape⟩
  have look : g.operations.get? op = some o := ho
  rw [NameMap.get?_mapEntries, look, Option.map_some]
  simp only [place, unswitched, shaped, unquantized, Bool.or_true, Bool.and_false,
    Bool.false_eq_true, if_false]
  rfl

theorem conservative_spares_shapes_scaled : ∃ table,
    propose .conservative .quantizationFirst scaled ["Mul"] ⟨.unspecified, .fp32, .shapeOrIndex⟩ =
      .ok table ∧ table.get? "mul" = some .shapeOrIndex := by
  obtain ⟨shapes, table, run, proposed, spares⟩ :=
    conservative_spares_shapes (g := scaled) ⟨_, scaling, .empty "net", rfl⟩ scaled_acyclic
      .quantizationFirst ["Mul"] ⟨.unspecified, .fp32, .shapeOrIndex⟩
  have traced : shapeDerived scaled = .ok ["s", "n"] := rfl
  cases run.symm.trans traced
  refine ⟨table, proposed, spares "mul" _ rfl rfl ?_ ⟨"n", by decide, by decide⟩⟩
  simp [IsShapeSource]

end Conservative

end GraphDispatch.Dispatch
