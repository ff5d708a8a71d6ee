import GraphDispatch.Proofs.Links.Built
import GraphDispatch.Proofs.Rewrite.Isolated
import GraphDispatch.Proofs.Rewrite.SharedParameters
import GraphDispatch.Proofs.Values.Basic
import GraphDispatch.Rewrite.Format

/-!
# Rewrites that keep what a graph computes

Constants become parameters, shared parameters are copied and isolated nodes are removed,
and each output of the graph still evaluates to what it did. Each step simulates: an
operation stays and reads alike, or its result is there without it.
-/

namespace GraphDispatch

open GraphDispatch.Graph

variable {α V : Type} {I : Interpretation α V} {feed : String → V} {g g' : Graph α}

namespace Rewrite

section Constants

variable {op output : String} {t : Tensor α}

/-- What the constant has produced holds its value. -/
theorem Inlined.evaluates_output (h : Inlined g g' op output t) :
    Evaluates I feed g' output (I.tensor t) := by
  have known : output ∈ g.content.declarations :=
    mem_declarations.2 (h.before.produces_known h.produces)
  obtain ⟨d, hd⟩ := NameMap.mem_iff.1 known
  have hd' : g'.content.declarations.get? output =
      some { d with value := some t, isParameter := true } := by
    rw [h.declarations_get?, if_pos rfl, hd, Option.map_some]
  apply Evaluates.given hd'
  intro n hn
  obtain ⟨ne, produces⟩ := h.produces_iff.1 hn
  exact ne (h.before.produces_unique produces h.produces)

theorem Inlined.simulates (h : Inlined g g' op output t) (constants : I.YieldsConstants)
    (type : ∀ o, g.getOperation? op = some o → o.type = "Constant") :
    Simulates I feed g g' (· = ·) where
  given {a a' d} same hd unmade := by
    subst same
    have ne : a ≠ output := by
      rintro rfl
      exact unmade op h.produces
    have hd' : g'.content.declarations.get? a = some d := by
      rw [h.declarations_get?, if_neg ne, hd]
    have inputs : g'.inputs = g.inputs := congrArg Content.inputs h.content
    have value : I.given feed g' d = I.given feed g d := by simp only [Interpretation.given, inputs]
    rw [← value]
    exact .given hd' fun n hn => unmade n (h.produces_iff.1 hn).2
  made {a a' n o slot} same ho hvar := by
    subst same
    by_cases hn : n = op
    · subst hn
      right
      obtain ⟨o', ho', constant⟩ := h.constant
      cases ho.symm.trans ho'
      obtain ⟨key, found, carries⟩ := constant.value
      rw [constant.outputs, List.getElem?_singleton] at hvar
      split at hvar
      · rename_i first
        cases hvar
        intro xs length
        rw [constant.inputs, List.length_nil, List.length_eq_zero_iff] at length
        rw [length, first, type o ho, constants _ _ _ found carries]
        exact h.evaluates_output
      · cases hvar
    · left
      refine ⟨n, o, ?_, hvar, rfl, rfl, List.forall₂_same.2 fun _ _ => rfl⟩
      rw [h.getOperation?_eq, if_neg hn, ho]

/-- The state in which the constants of `l` are still to be replaced. -/
structure Inlining (I : Interpretation α V) (feed : String → V) (g₀ : Graph α) (l : List String)
    (g : Graph α) : Prop where
  linked : g.Linked
  outputs : g.outputs = g₀.outputs
  type : ∀ op ∈ l, ∀ o, g.getOperation? op = some o → o.type = "Constant"
  kept : ∀ var x, Evaluates I feed g₀ var x → Evaluates I feed g var x

theorem Inlining.next {g₀ : Graph α} {l : List String} (state : Inlining I feed g₀ (op :: l) g)
    (constants : I.YieldsConstants) (h : Inlined g g' op output t) :
    Inlining I feed g₀ l g' where
  linked := h.after
  outputs := (congrArg Content.outputs h.content).trans state.outputs
  type n hn o ho := by
    rw [h.getOperation?_eq] at ho
    split at ho
    · cases ho
    · exact state.type n (List.mem_cons_of_mem _ hn) o ho
  kept var x value := by
    have simulates : Simulates I feed g g' (· = ·) :=
      h.simulates constants (state.type op List.mem_cons_self)
    exact simulates.evaluates (state.kept var x value) rfl

theorem constants_keeps (hg : g.Linked) (constants : I.YieldsConstants) :
    Task.Ensures Rewrite.constants g fun _ g' => KeepsOutputs I feed g g' := by
  have start : Inlining I feed g (g.operationsOfType "Constant") g := by
    refine ⟨hg, rfl, fun op hop o ho => ?_, fun _ _ value => value⟩
    obtain ⟨o', ho', type⟩ := hg.mem_operationsOfType.1 hop
    rw [ho] at ho'
    cases ho'
    exact type
  refine (countChanges_ensures (Inlining I feed g) (fun op l k state => ?_) start).mono ?_
  · refine (replaceConstant_ensures state.linked op).mono fun _ k' hk' => ?_
    obtain ⟨output, t, inlined⟩ := hk'
    exact state.next constants inlined
  · intro _ g' done
    exact ⟨done.linked, done.outputs, fun var _ => done.kept var⟩

end Constants

section SharedParameters

variable {op var copy : String} {value : Option (Tensor α)}

/-- The variable has the value and no producer; without a value it is not fed either. -/
structure Spare (g : Graph α) (var : String) (value : Option (Tensor α)) : Prop where
  declared : ∃ d, g.content.declarations.get? var = some d ∧ d.name = var ∧ d.value = value
  unmade : ∀ op, ¬g.Produces op var
  unfed : value = none → var ∉ g.inputs

theorem Copied.spare (h : Copied g g' op var copy value) {x : String} {value' : Option (Tensor α)}
    (spare : Spare g x value') : Spare g' x value' where
  declared := by
    obtain ⟨d, hd, name, same⟩ := spare.declared
    exact ⟨d, h.declared hd, name, same⟩
  unmade n hn := spare.unmade n (h.produces_iff.1 hn)
  unfed none := h.inputs.symm ▸ spare.unfed none

/-- A copy is worth what its parameter is. -/
theorem Copied.given_copy (h : Copied g g' op var copy value) {d : Declaration α}
    (hd : g.content.declarations.get? var = some d) (spare : Spare g var value) :
    I.given feed g' ⟨copy, value, value.isSome⟩ = I.given feed g d := by
  obtain ⟨d', hd', name, same⟩ := spare.declared
  cases hd.symm.trans hd'
  have unfed : copy ∉ g'.inputs := fun hc => h.fresh (h.before.inputs_known _ (h.inputs ▸ hc))
  unfold Interpretation.given
  rw [same, name]
  cases value with
  | some t => rfl
  | none =>
    dsimp only
    rw [if_neg unfed, if_neg (spare.unfed rfl)]

theorem Copied.simulates (h : Copied g g' op var copy value) (spare : Spare g var value) :
    Simulates I feed g g' fun a a' => a' = a ∨ a = var ∧ a' = copy where
  given {a a' d} related hd unmade := by
    rcases related with rfl | ⟨rfl, rfl⟩
    · have same : I.given feed g' d = I.given feed g d := by
        simp only [Interpretation.given, h.inputs]
      rw [← same]
      exact .given (h.declared hd) fun n hn => unmade n (h.produces_iff.1 hn)
    · rw [← h.given_copy hd spare]
      apply Evaluates.given
      · rw [h.declarations_get?, if_pos rfl]
      · intro n hn
        exact h.fresh (h.before.produces_known (h.produces_iff.1 hn))
  made {a a' n o slot} related ho hvar := by
    left
    rcases related with rfl | ⟨rfl, -⟩
    · by_cases hn : n = op
      · subst hn
        refine ⟨n, o.redirect var copy, ?_, hvar, rfl, rfl, ?_⟩
        · rw [h.getOperation?_eq, if_pos rfl, ho, Option.map_some]
        · refine List.forall₂_map_right_iff.2 (List.forall₂_same.2 fun b _ => ?_)
          split
          · exact Or.inr ⟨‹b = var›, rfl⟩
          · exact Or.inl rfl
      · refine ⟨n, o, ?_, hvar, rfl, rfl, List.forall₂_same.2 fun _ _ => Or.inl rfl⟩
        rw [h.getOperation?_eq, if_neg hn, ho]
    · exact absurd (produces_of_slot ho hvar) (spare.unmade n)

/-- The state in which the parameters of `l` are still to be copied. -/
structure Copying (I : Interpretation α V) (feed : String → V) (g₀ : Graph α)
    (l : List (Sharing α)) (g : Graph α) : Prop where
  linked : g.Linked
  outputs : g.outputs = g₀.outputs
  spare : ∀ s ∈ l, Spare g s.var s.value
  kept : ∀ var x, Evaluates I feed g₀ var x → Evaluates I feed g var x

theorem Copying.next {g₀ : Graph α} {l : List (Sharing α)} {s : Sharing α}
    (state : Copying I feed g₀ (s :: l) g) (h : Copied g g' op s.var copy s.value) :
    Copying I feed g₀ (s :: l) g' where
  linked := h.after
  outputs := h.outputs.trans state.outputs
  spare s' hs' := h.spare (state.spare s' hs')
  kept var x value := by
    have simulates : Simulates I feed g g' _ := h.simulates (state.spare s List.mem_cons_self)
    exact simulates.evaluates (state.kept var x value) (Or.inl rfl)

theorem sharedParameters_keeps (hg : g.Linked)
    (unfed : ∀ var ∈ g.inputs, ∀ v, g.getVariable? var = some v → v.isParameter = false) :
    Task.Ensures sharedParameters g fun _ g' => KeepsOutputs I feed g g' := by
  have start : Copying I feed g (g.vars.values.filterMap sharing?) g := by
    refine ⟨hg, rfl, fun s hs => ?_, fun _ _ value => value⟩
    obtain ⟨v, first, hv, value, parameter, producer, -⟩ := sharing_of_mem hg hs
    refine ⟨⟨v.declaration, declared_iff.2 ⟨v, hv, rfl⟩, hg.variable_name hv, value⟩, ?_, ?_⟩
    · intro op hop
      rw [(hg.producer_iff hv op).2 hop] at producer
      cases producer
    · intro _ fed
      rw [unfed s.var fed v hv] at parameter
      cases parameter
  unfold sharedParameters
  apply Task.Ensures.state_bind
  refine (Task.Ensures.edit (Ensures.forM (Copying I feed g) (fun s l k state => ?_) start)).bind
    fun _ g' done => .pure ⟨done.linked, done.outputs, fun var _ => done.kept var⟩
  refine (Ensures.forM (fun _ => Copying I feed g (s :: l)) (fun op _ k state => ?_) state).mono ?_
  · refine (copyFor_ensures state.linked s.var s.value op).mono fun _ k' hk' => ?_
    obtain ⟨copy, copied⟩ := hk'
    exact state.next copied
  · intro _ k' state
    exact ⟨state.linked, state.outputs, fun s hs => state.spare s (List.mem_cons_of_mem _ hs),
      state.kept⟩

end SharedParameters

section Isolated

variable {ops vars : List String}

/-- The graph returns the variable, or it is read on the way to an output. -/
def Needed (g : Graph α) (var : String) : Prop :=
  var ∈ g.outputs ∨ ∃ op ∈ contributing g, g.Reads op var

theorem Pruned.simulates (h : Pruned g g' ops vars) :
    Simulates I feed g g' fun a a' => a' = a ∧ Needed g a where
  given {a a' d} related hd unmade := by
    obtain ⟨rfl, needed⟩ := related
    have kept : a' ∉ vars := by
      intro gone
      rcases needed with returned | ⟨op, contributes, reads⟩
      · exact h.unreturned a' gone returned
      · exact h.unread a' gone op (fun dead => h.dead op dead contributes) reads
    have same : I.given feed g' d = I.given feed g d := by
      simp only [Interpretation.given, h.trimmed.inputs]
    rw [← same]
    apply Evaluates.given
    · rw [h.trimmed.declarations, if_neg kept, hd]
    · exact fun n hn => unmade n (h.trimmed.produces_iff.1 hn).2
  made {a a' n o slot} related ho hvar := by
    obtain ⟨rfl, needed⟩ := related
    have produces := produces_of_slot ho hvar
    have contributes : n ∈ contributing g := by
      rcases needed with returned | ⟨op, contributes, reads⟩
      · exact mem_contributing_of_produces h.before returned produces
      · exact mem_contributing_of_feeds h.before (h.before.feeds_iff.2 ⟨a', produces, reads⟩)
          contributes
    have kept : n ∉ ops := fun dead => h.dead n dead contributes
    left
    refine ⟨n, o, ?_, hvar, rfl, rfl, List.forall₂_same.2 fun b hb => ⟨rfl, Or.inr ?_⟩⟩
    · rw [h.trimmed.operations, if_neg kept, ho]
    · exact ⟨n, contributes, o, ho, hb⟩

theorem isolated_keeps (hg : g.Linked) :
    Task.Ensures isolated g fun _ g' => KeepsOutputs I feed g g' := by
  refine (isolated_ensures hg).mono fun _ g' hg' => ?_
  obtain ⟨ops, vars, pruned⟩ := hg'
  refine ⟨pruned.trimmed.linked, pruned.trimmed.outputs, fun var returned x value => ?_⟩
  have simulates : Simulates I feed g g' _ := pruned.simulates
  exact simulates.evaluates value ⟨rfl, Or.inl returned⟩

end Isolated

end Rewrite

/-- The commands that leave alone what operations compute. -/
def Command.KeepsResults (c : Command) : Prop :=
  c = .constants ∨ c = .sharedParameters ∨ c = .isolated

/-- No graph input is a parameter or has a producer. -/
def Graph.FreeInputs (g : Graph α) : Prop :=
  ∀ var ∈ g.inputs, ∀ v, g.getVariable? var = some v → v.isParameter = false ∧ v.producer = none

/-- A command that replaces constants, copies shared parameters or removes isolated nodes
does not change the outputs of a graph, whatever its operations compute and its inputs are. -/
theorem process_keeps_results [Scalar α] {d : Document α} (built : d.build = .ok g)
    (acyclic : g.Acyclic) (free : g.FreeInputs) (constants : I.YieldsConstants)
    (feed : String → V) {c : Command} (hc : c.KeepsResults) {events : List Event} {n : Nat}
    {later : Logged (Graph α)} (run : process c ⟨g, events⟩ = .ok n later) :
    SameResults I feed g later.state := by
  have linked := linked_of_build built
  have kept : Task.Ensures c.rewrite g fun _ g' => KeepsOutputs I feed g g' := by
    rcases hc with rfl | rfl | rfl
    · exact Rewrite.constants_keeps linked constants
    · exact Rewrite.sharedParameters_keeps linked fun var fed v hv => (free var fed v hv).1
    · exact Rewrite.isolated_keeps linked
  exact (process_ensures kept events n later run).sameResults linked acyclic

/-- Every operation hands on the tensors that it reads or holds. -/
def gathering : Interpretation Float32 (List (Tensor Float32)) where
  absent := []
  tensor t := [t]
  output type attributes read _ :=
    if type = "Constant" then
      ((Rewrite.constantKeys.findSome? attributes.get?).bind fun a =>
        (Rewrite.constantValue a).toOption).toList
    else read.flatten

theorem gathering_yieldsConstants : gathering.YieldsConstants := by
  intro attributes a t found carries
  have value : Rewrite.constantValue a = .ok t := Rewrite.constantValue_eq_ok.2 carries
  simp only [gathering, if_pos, found, Option.bind_some, value]
  rfl

def addsConstant : Document Float32 where
  name := "net"
  inputs := ["x"]
  outputs := ["y"]
  vars := [⟨"x", none, false⟩, ⟨"one", none, false⟩, ⟨"y", none, false⟩]
  operations := [⟨"const", "Constant", .ofList [("value_int", .int 1)], [], ["one"], .unspecified⟩,
    ⟨"add", "Add", ∅, ["x", "one"], ["y"], .unspecified⟩]

def constantGraph : Graph Float32 :=
  match addsConstant.build with
  | .ok g => g
  | .error _ => .empty ""

theorem process_keeps_results_constant : ∃ later, addsConstant.build = .ok constantGraph ∧
    process .constants ⟨constantGraph, []⟩ = .ok 1 later ∧
    SameResults gathering (fun _ => []) constantGraph later.state := by
  have built : addsConstant.build = .ok constantGraph := rfl
  have ranked : constantGraph.Ranked fun op => ["const", "add"].idxOf op := by decide
  have free : constantGraph.FreeInputs := by
    intro var fed v hv
    obtain rfl : var = "x" := List.mem_singleton.1 fed
    cases hv
    exact ⟨rfl, rfl⟩
  refine ⟨_, built, rfl, ?_⟩
  exact process_keeps_results built ranked.acyclic free gathering_yieldsConstants _ (Or.inl rfl) rfl

end GraphDispatch
