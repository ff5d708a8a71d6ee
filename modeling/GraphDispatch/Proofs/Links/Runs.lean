import GraphDispatch.Proofs.Links.Effects
import GraphDispatch.Proofs.Links.Stable

/-!
# Runs on a graph

What can be done to a graph from outside, one action after the other. Every graph
that is built and worked on in this way is linked, also after actions that fail.
-/

namespace GraphDispatch

variable {α : Type} {g : Graph α}

namespace Edit

theorem stable_linked : Stable (Graph.Linked (α := α)) where
  linked _ hg := hg
  createVariable _ _ := (createVariable_effects _ _).keeps_linked
  createOperation _ _ _ _ _ := (createOperation_effects _ _ _ _ _).keeps_linked
  markInput _ := (markInput_effects _).keeps_linked
  markOutput _ := (markOutput_effects _).keeps_linked
  removeOperation _ := (removeOperation_effects _).keeps_linked
  removeVariable _ := (removeVariable_effects _).keeps_linked
  replaceInput _ _ _ := (replaceInput_modifies _ _ _).keeps_linked
  replaceOutput _ _ _ := (replaceOutput_effects _ _ _).keeps_linked
  appendInput _ _ := (appendInput_modifies _ _).keeps_linked
  truncateInputs _ _ := (truncateInputs_modifies _ _).keeps_linked
  setAttribute _ _ _ := (setAttribute_modifies _ _ _).keeps_linked
  removeAttribute _ _ := (removeAttribute_modifies _ _).keeps_linked
  setValue _ _ := (setValue_effects _ _).keeps_linked
  setPlatform _ _ := (setPlatform_modifies _ _).keeps_linked

end Edit

namespace Graph

theorem linked_empty (name : String) : (empty name : Graph α).Linked := by
  constructor
  all_goals simp [empty, getOperation?, getVariable?]

theorem linked_declare (d : Declaration α) : Keeps Linked (Document.declare d) := by
  intro g hg
  simp only [Document.declare, run_bind, run_get]
  split
  · exact hg
  · rename_i fresh
    exact hg.putVariable fresh ⟨rfl, rfl⟩ fun h => by simp [h]

theorem linked_construct (d : Document α) : Keeps Linked d.construct := by
  refine (Keeps.forM fun d _ => linked_declare d).bind fun _ => ?_
  refine (Keeps.forM fun o _ => Keeps.adaptExcept ?_).bind fun _ => Keeps.adaptExcept ?_
  · exact (Edit.stable_linked.createOperation _ _ _ _ _).discard.bind fun _ =>
      Edit.stable_linked.setPlatform _ _
  · exact (Keeps.forM fun _ _ => Edit.stable_linked.markInput _).bind fun _ =>
      Keeps.forM fun _ _ => Edit.stable_linked.markOutput _

/-- What the construction keeps holds of the graph that is built. -/
theorem keeps_build {d : Document α} {P : Graph α → Prop} (kept : Keeps P d.construct)
    (start : P (empty d.name)) (h : d.build = .ok g) : P g := by
  have kept := kept _ start
  unfold Document.build at h
  cases run : d.construct (empty d.name) with
  | ok b g' =>
    rw [run] at h kept
    cases h
    exact kept
  | error e g' =>
    rw [run] at h
    cases h

theorem linked_of_build {d : Document α} (h : d.build = .ok g) : g.Linked :=
  keeps_build (linked_construct d) (linked_empty d.name) h

end Graph

/-- What can be done to a graph from outside. -/
inductive Action (α : Type) where
  | createVariable (var : String) (value : Option (Tensor α))
  | createOperation (op type : String) (attributes : NameMap (Attribute α))
    (inputs outputs : List String)
  | markInput (var : String)
  | markOutput (var : String)
  | removeOperation (op : String)
  | removeVariable (var : String)
  | replaceInput (op old new : String)
  | replaceOutput (op old new : String)
  | appendInput (op var : String)
  | truncateInputs (op : String) (keep : Nat)
  | insertOnVariable (op type : String) (attributes : NameMap (Attribute α)) (var : String)
    (consumers : List String)
  | setAttribute (op key : String) (value : Attribute α)
  | removeAttribute (op key : String)
  | setValue (var : String) (value : Tensor α)
  | process (command : Command)
  | insertSwitches
  | dispatch (request : Dispatch.Request)

/-- The graph that a task leaves behind. -/
def Task.leave {ε β : Type} (m : Task (Graph α) ε β) (g : Graph α) : Graph α :=
  (finalState (m ⟨g, []⟩)).state

theorem Task.Keeps.leave {ε β : Type} {P : Graph α → Prop} {m : Task (Graph α) ε β}
    (h : Task.Keeps P m) (hg : P g) : P (m.leave g) := h ⟨g, []⟩ hg

namespace Action

variable [Scalar α]

/-- The graph that an action leaves behind, whether it succeeds or not. -/
def perform (g : Graph α) : Action α → Graph α
  | createVariable var value => finalState (Edit.createVariable var value g)
  | createOperation op type attributes inputs outputs =>
    finalState (Edit.createOperation op type attributes inputs outputs g)
  | markInput var => finalState (Edit.markInput var g)
  | markOutput var => finalState (Edit.markOutput var g)
  | removeOperation op => finalState (Edit.removeOperation op g)
  | removeVariable var => finalState (Edit.removeVariable var g)
  | replaceInput op old new => finalState (Edit.replaceInput op old new g)
  | replaceOutput op old new => finalState (Edit.replaceOutput op old new g)
  | appendInput op var => finalState (Edit.appendInput op var g)
  | truncateInputs op keep => finalState (Edit.truncateInputs op keep g)
  | insertOnVariable op type attributes var consumers =>
    finalState (Edit.insertOnVariable op type attributes var consumers g)
  | setAttribute op key value => finalState (Edit.setAttribute op key value g)
  | removeAttribute op key => finalState (Edit.removeAttribute op key g)
  | setValue var value => finalState (Edit.setValue var value g)
  | process command => (GraphDispatch.process command).leave g
  | insertSwitches => Dispatch.insertSwitches.leave g
  | dispatch request => (Dispatch.run request).leave g

/-- What no edit loses, no action loses. -/
theorem keeps_of_stable {P : Graph α → Prop} (h : Edit.Stable P) (a : Action α) (hg : P g) :
    P (a.perform g) := by
  cases a with
  | createVariable var value => exact h.createVariable var value g hg
  | createOperation op type attributes inputs outputs =>
    exact h.createOperation op type attributes inputs outputs g hg
  | markInput var => exact h.markInput var g hg
  | markOutput var => exact h.markOutput var g hg
  | removeOperation op => exact h.removeOperation op g hg
  | removeVariable var => exact h.removeVariable var g hg
  | replaceInput op old new => exact h.replaceInput op old new g hg
  | replaceOutput op old new => exact h.replaceOutput op old new g hg
  | appendInput op var => exact h.appendInput op var g hg
  | truncateInputs op keep => exact h.truncateInputs op keep g hg
  | insertOnVariable op type attributes var consumers =>
    exact h.insertOnVariable op type attributes var consumers g hg
  | setAttribute op key value => exact h.setAttribute op key value g hg
  | removeAttribute op key => exact h.removeAttribute op key g hg
  | setValue var value => exact h.setValue var value g hg
  | process command => exact (h.process h.linked command).leave hg
  | insertSwitches => exact h.insertSwitches.leave hg
  | dispatch request => exact (h.run request).leave hg

end Action

/-- Whether an action is a pass, the insertion of switches or a dispatch. -/
def Action.isPass : Action α → Bool
  | process _ | insertSwitches | dispatch _ => true
  | _ => false

/-- A graph to start from. -/
inductive Initial : Graph α → Prop where
  | empty (name : String) : Initial (Graph.empty name)
  | built {d : Document α} {g : Graph α} : d.build = .ok g → Initial g

/-- The graph of a document that can be built. -/
def Document.graph (d : Document α) : Graph α :=
  match d.build with
  | .ok g => g
  | .error _ => .empty d.name

theorem Initial.linked (h : Initial g) : g.Linked := by
  cases h with
  | empty name => exact Graph.linked_empty name
  | built h => exact Graph.linked_of_build h

section Reachable

variable [Scalar α]

/-- The graph after a list of actions. -/
def performAll (g : Graph α) (actions : List (Action α)) : Graph α :=
  actions.foldl Action.perform g

theorem performAll_keeps {P : Graph α → Prop} (h : Edit.Stable P) (actions : List (Action α))
    (hg : P g) : P (performAll g actions) := by
  induction actions generalizing g with
  | nil => exact hg
  | cons a actions ih => exact ih (a.keeps_of_stable h hg)

theorem performAll_keeps_of_passes {P : Graph α → Prop}
    (commands : ∀ c, Task.Keeps P (process (α := α) c))
    (switches : Task.Keeps P (Dispatch.insertSwitches (α := α)))
    (dispatches : ∀ r, Task.Keeps P (Dispatch.run (α := α) r)) {passes : List (Action α)}
    (h : ∀ a ∈ passes, a.isPass = true) (hg : P g) : P (performAll g passes) := by
  induction passes generalizing g with
  | nil => exact hg
  | cons a passes ih =>
    obtain ⟨first, rest⟩ := List.forall_mem_cons.1 h
    refine ih rest ?_
    cases a with
    | process command => exact (commands command).leave hg
    | insertSwitches => exact switches.leave hg
    | dispatch request => exact (dispatches request).leave hg
    | _ => cases first

/-- A graph that actions lead to. -/
def Reachable (g : Graph α) : Prop := ∃ start actions, Initial start ∧ performAll start actions = g

theorem Reachable.linked (h : Reachable g) : g.Linked := by
  obtain ⟨start, actions, initial, rfl⟩ := h
  exact performAll_keeps Edit.stable_linked actions initial.linked

/-- Both sides of every link agree after any run, also where actions of it fail. -/
theorem linked_after_actions (initial : Initial g) (actions : List (Action α)) :
    (performAll g actions).Linked :=
  performAll_keeps Edit.stable_linked actions initial.linked

/-- The second variable, the removal and the marked output are refused. -/
theorem linked_after_refusals : (performAll (Graph.empty "net" : Graph Float32)
    [.createVariable "x" none, .createVariable "x" none,
      .createOperation "add" "Add" ∅ ["x", "x"] [], .removeVariable "x", .markOutput "y",
      .truncateInputs "add" 1, .insertSwitches]).Linked :=
  linked_after_actions (.empty "net") _

end Reachable

end GraphDispatch
