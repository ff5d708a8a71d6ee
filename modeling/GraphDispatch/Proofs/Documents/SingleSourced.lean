import GraphDispatch.Proofs.Documents.RoundTrip
import Mathlib.Data.List.Induction

/-!
# Variables of one source

A variable comes from an operation or it is a parameter. New operations, values and documents
are held to this, so it is kept by every action but one: an operation that comes to produce
another variable may be given a parameter. From then on the document of the graph is refused.
-/

namespace GraphDispatch

variable {α : Type} {g : Graph α}

open GraphDispatch.Graph

/-- What an operation produces is no parameter and holds no value. -/
def Graph.SingleSourced (g : Graph α) : Prop := ∀ var v, g.getVariable? var = some v →
  v.producer.isSome → v.isParameter = false ∧ v.value = none

/-- Whether the action lets an operation produce a parameter. -/
def Action.producesParameter (g : Graph α) : Action α → Bool
  | replaceOutput op old new =>
    (g.getVariable? new).any (fun v => v.isParameter && v.producer.isNone) &&
      (g.getOperation? op).any (·.outputs.contains old)
  | _ => false

namespace Graph.Linked

theorem live_iff_singleSourced (hg : g.Linked) : g.Live ↔ g.SingleSourced := by
  rw [hg.live_iff]
  constructor
  · intro plain var v hv made
    have unowned := plain var v hv made
    refine ⟨unowned, Option.eq_none_iff_forall_ne_some.2 fun t value => ?_⟩
    have parameter := hg.parameter_of_value hv (Option.isSome_iff_exists.2 ⟨t, value⟩)
    rw [unowned] at parameter
    cases parameter
  · exact fun single var v hv made => (single var v hv made).1

/-- The document of a graph is refused as soon as something produced is a parameter. -/
theorem singleSourced_of_build (hg : g.Linked) {h : Graph α}
    (built : (Document.ofGraph g).build = .ok h) : g.SingleSourced := by
  obtain ⟨buildable, -, -⟩ := Document.build_eq_ok_iff.1 built
  intro var v hv made
  obtain ⟨op, hop⟩ := Option.isSome_iff_exists.1 made
  obtain ⟨o, ho, hvar⟩ := (hg.producer_iff hv op).1 hop
  have name := hg.variable_name hv
  have declared : v.declaration ∈ (Document.ofGraph g).vars :=
    List.mem_map.2 ⟨v, hg.mem_vars_values.2 (name.symm ▸ hv), rfl⟩
  have produced : v.declaration.name ∈ o.outputs := by rwa [Variable.declaration, name]
  exact buildable.outputs_plain o (NameMap.mem_values.2 ⟨op, ho⟩) _ declared produced

theorem producesParameter_replaceOutput (hg : g.Linked) {op old new : String} :
    (Action.replaceOutput op old new).producesParameter g = true ↔ g.Produces op old ∧
      (∀ p, ¬g.Produces p new) ∧ ∃ v, g.getVariable? new = some v ∧ v.isParameter = true := by
  simp only [Action.producesParameter, Bool.and_eq_true, Option.any_eq_true,
    Option.isNone_iff_eq_none, List.contains_iff_mem]
  constructor
  · rintro ⟨⟨v, hv, parameter, free⟩, o, ho, hold⟩
    refine ⟨⟨o, ho, hold⟩, fun p hp => ?_, v, hv, parameter⟩
    rw [(hg.producer_iff hv p).2 hp] at free
    cases free
  · rintro ⟨⟨o, ho, hold⟩, unmade, v, hv, parameter⟩
    refine ⟨⟨v, hv, parameter, ?_⟩, o, ho, hold⟩
    exact Option.eq_none_iff_forall_not_mem.2 fun p hp => unmade p ((hg.producer_iff hv p).1 hp)

end Graph.Linked

namespace Edit

theorem truncateInputs_live {op : String} {keep : Nat} :
    Keeps Live (truncateInputs (α := α) op keep) :=
  (truncateInputs_modifies _ _).keeps_live fun _ => rfl

/-- Either the edit is refused, or the new output was a variable without a value. -/
theorem replaceOutput_leaves_live_unless (hg : g.Live) {op old new : String}
    (h : (Action.replaceOutput op old new).producesParameter g = false) :
    (finalState (replaceOutput op old new g)).Live := by
  by_cases moves : g.Produces op old ∧ new ∈ g.vars ∧ ∀ p, ¬g.Produces p new
  · obtain ⟨made, known, unmade⟩ := moves
    obtain ⟨v, hv⟩ := mem_vars_iff.1 known
    have plain : v.isParameter = false := by
      rw [Bool.eq_false_iff] at h ⊢
      exact fun parameter =>
        h (hg.linked.producesParameter_replaceOutput.2 ⟨made, unmade, v, hv, parameter⟩)
    refine replaceOutput_leaves_live ⟨hg, fun n hn => ?_⟩ op old
    cases List.mem_singleton.1 hn
    exact ⟨v.declaration, by rw [get?_declarations, hv, Option.map_some], plain⟩
  · obtain ⟨e, run⟩ := replaceOutput_refuses hg.linked moves
    rw [run]
    exact hg

theorem replaceOutput_leaves_parameter (hg : g.Linked) {op old new : String}
    (h : (Action.replaceOutput op old new).producesParameter g = true) :
    ¬(finalState (replaceOutput op old new g)).SingleSourced := by
  obtain ⟨made, unmade, v, hv, parameter⟩ := hg.producesParameter_replaceOutput.1 h
  obtain ⟨g', run, linked, content⟩ :=
    replaceOutput_yields hg made (mem_vars_iff.2 ⟨v, hv⟩) unmade
  obtain ⟨o, ho, hold⟩ := made
  have produces : g'.Produces op new := by
    have operations : g'.operations = _ := congrArg Content.operations content
    refine ⟨_, by rw [getOperation?, operations, NameMap.get?_modify, if_pos rfl, ← getOperation?,
      ho, Option.map_some], ?_⟩
    exact (mem_replace (hg.outputs_nodup ho) hold).2 (Or.inl rfl)
  have declared : g'.content.declarations.get? new = some v.declaration := by
    rw [content, get?_declarations, hv, Option.map_some]
  rw [get?_declarations] at declared
  obtain ⟨w, hw, same⟩ := Option.map_eq_some_iff.1 declared
  have parameter' : w.isParameter = true := (congrArg Declaration.isParameter same).trans parameter
  rw [run, finalState_ok]
  intro single
  have plain := (single new w hw
    (Option.isSome_iff_exists.2 ⟨op, (linked.producer_iff hw op).2 produces⟩)).1
  rw [parameter'] at plain
  cases plain

end Edit

theorem Initial.live (h : Initial g) : g.Live := by
  cases h with
  | empty name => exact live_empty name
  | built h => exact live_of_build h

variable [Scalar α]

namespace Action

theorem perform_live (hg : g.Live) (a : Action α) (h : a.producesParameter g = false) :
    (a.perform g).Live := by
  have stable := Edit.dispatchStable_live (α := α)
  cases a with
  | createVariable var value => exact stable.createVariable var value g hg
  | createOperation op type attributes inputs outputs => exact Edit.createOperation_live g hg
  | markInput var => exact Edit.markInput_live g hg
  | markOutput var => exact Edit.markOutput_live g hg
  | removeOperation op => exact stable.removeOperation op g hg
  | removeVariable var => exact stable.removeVariable var g hg
  | replaceInput op old new => exact stable.replaceInput op old new g hg
  | replaceOutput op old new => exact Edit.replaceOutput_leaves_live_unless hg h
  | appendInput op var => exact stable.appendInput op var g hg
  | truncateInputs op keep => exact Edit.truncateInputs_live g hg
  | insertOnVariable op type attributes var consumers =>
    exact stable.insertOnVariable op type attributes var consumers g hg
  | setAttribute op key value => exact stable.setAttribute op key value g hg
  | removeAttribute op key => exact stable.removeAttribute op key g hg
  | setValue var value => exact stable.setValue var value g hg
  | process command =>
    have passes : ∀ a ∈ [Action.process (α := α) command], a.isPass = true := by simp [isPass]
    exact hg.performAll passes
  | insertSwitches => exact stable.insertSwitches.leave hg
  | dispatch request => exact (stable.run request).leave hg

theorem perform_not_singleSourced (hg : g.Linked) (a : Action α)
    (h : a.producesParameter g = true) : ¬(a.perform g).SingleSourced := by
  cases a with
  | replaceOutput op old new => exact Edit.replaceOutput_leaves_parameter hg h
  | _ => cases h

end Action

theorem performAll_append (g : Graph α) (first second : List (Action α)) :
    performAll g (first ++ second) = performAll (performAll g first) second :=
  List.foldl_append

/-- The induction is on the run from its end: the last action meets the graph that all the
others have left. -/
theorem performAll_live (hg : g.Live) {actions : List (Action α)}
    (h : ∀ before a after, actions = before ++ a :: after →
      a.producesParameter (performAll g before) = false) : (performAll g actions).Live := by
  induction actions using List.reverseRecOn with
  | nil => exact hg
  | append_singleton actions a ih =>
    rw [performAll_append]
    refine Action.perform_live (ih fun before b after split => ?_) a (h actions a [] rfl)
    exact h before b (after ++ [a]) (by rw [split, List.append_assoc, List.cons_append])

/-- As long as no action lets an operation produce a parameter, whatever is produced is no
parameter and the document of the graph builds it again. The first such action ends both. -/
theorem rebuilt_until_parameter_produced (initial : Initial g) (actions : List (Action α))
    (h : ∀ before a after, actions = before ++ a :: after →
      a.producesParameter (performAll g before) = false) :
    (performAll g actions).SingleSourced ∧
      (Document.ofGraph (performAll g actions)).build = .ok (performAll g actions) ∧
      ∀ a, a.producesParameter (performAll g actions) = true →
        ¬(performAll g (actions ++ [a])).SingleSourced ∧
          ∀ rebuilt, (Document.ofGraph (performAll g (actions ++ [a]))).build ≠ .ok rebuilt := by
  have live := performAll_live (initial.live) h
  refine ⟨live.linked.live_iff_singleSourced.1 live, Document.build_ofGraph live, fun a bad => ?_⟩
  have broken : ¬(performAll g (actions ++ [a])).SingleSourced := by
    rw [performAll_append]
    exact a.perform_not_singleSourced live.linked bad
  have linked := performAll_keeps Edit.stable_linked (actions ++ [a]) initial.linked
  exact ⟨broken, fun rebuilt built => broken (linked.singleSourced_of_build built)⟩

/-- A parameter, a variable and the operation that produces the variable. -/
def besideParameter : List (Action Float32) :=
  [.createVariable "p" (some ⟨[1], .ints [1]⟩), .createVariable "y" none,
    .createOperation "op" "Relu" ∅ [] ["y"]]

theorem rebuilt_until_parameter_produced_beside :
    let g := performAll (Graph.empty "net") besideParameter
    g.SingleSourced ∧ (Document.ofGraph g).build = .ok g ∧
      ¬(performAll (Graph.empty "net")
        (besideParameter ++ [.replaceOutput "op" "y" "p"])).SingleSourced := by
  have quiet : ∀ before a after, besideParameter = before ++ a :: after →
      a.producesParameter (performAll (Graph.empty "net") before) = false := by
    intro before a after split
    have listed : a ∈ besideParameter := split ▸ List.mem_append_right _ List.mem_cons_self
    simp only [besideParameter, List.mem_cons, List.not_mem_nil, or_false] at listed
    rcases listed with rfl | rfl | rfl <;> rfl
  obtain ⟨single, built, broken⟩ :=
    rebuilt_until_parameter_produced (.empty "net") besideParameter quiet
  exact ⟨single, built, (broken (.replaceOutput "op" "y" "p") rfl).1⟩

/-- The operation is let to produce the parameter, and no document builds the graph any more. -/
theorem parameter_produced_beside :
    let g := performAll (Graph.empty "net") (besideParameter ++ [.replaceOutput "op" "y" "p"])
    (∃ v, g.getVariable? "p" = some v ∧ v.producer = some "op" ∧ v.isParameter = true ∧
      v.value = some ⟨[1], .ints [1]⟩) ∧
    ∀ rebuilt, (Document.ofGraph g).build ≠ .ok rebuilt := by
  have parameter : ∃ v, (performAll (Graph.empty "net")
      (besideParameter ++ [.replaceOutput "op" "y" "p"])).getVariable? "p" = some v ∧
      v.producer = some "op" ∧ v.isParameter = true ∧ v.value = some ⟨[1], .ints [1]⟩ :=
    ⟨_, rfl, rfl, rfl, rfl⟩
  refine ⟨parameter, fun rebuilt built => ?_⟩
  obtain ⟨v, hv, producer, isParameter, -⟩ := parameter
  have linked := performAll_keeps Edit.stable_linked
    (besideParameter ++ [.replaceOutput "op" "y" "p"]) (Graph.linked_empty "net")
  have plain := (linked.singleSourced_of_build built "p" v hv (by simp [producer])).1
  rw [isParameter] at plain
  cases plain

end GraphDispatch
