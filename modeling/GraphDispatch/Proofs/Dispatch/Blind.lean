import GraphDispatch.Proofs.Agreement
import GraphDispatch.Proofs.Dispatch.Outline
import GraphDispatch.Proofs.Links.Relink

/-!
# Switches depend on the outline only

On graphs of one outline the edits that dispatches are made of do the same and fail for the
same reasons, and so does the insertion of switches. No links need to agree for that.
-/

namespace GraphDispatch

variable {α β γ : Type} {g h : Graph α}

/-- Nothing that switches depend on tells the graphs apart. -/
def Graph.Twins (g h : Graph α) : Prop := g.outline Operation.bare = h.outline Operation.bare

open GraphDispatch.Graph

theorem map_eq_map {f : β → γ} {a b : Option β} (h : a.map f = b.map f) :
    a = none ∧ b = none ∨ ∃ x y, a = some x ∧ b = some y ∧ f x = f y := by
  cases a with
  | none => exact Or.inl ⟨rfl, Option.map_eq_none_iff.1 h.symm⟩
  | some x =>
    obtain ⟨y, hb, same⟩ := Option.map_eq_some_iff.1 h.symm
    exact Or.inr ⟨x, y, rfl, hb, same.symm⟩

theorem Operation.slots_of_bare {o p : Operation α} (h : o.bare = p.bare) :
    o.inputs = p.inputs ∧ o.outputs = p.outputs :=
  ⟨(congrArg Operation.inputs h :), (congrArg Operation.outputs h :)⟩

namespace Graph.Twins

variable (twins : Twins g h)
include twins

/-- Twins have an operation of a name both or neither of them. -/
theorem getOperation? (op : String) : g.getOperation? op = none ∧ h.getOperation? op = none ∨
    ∃ o p, g.getOperation? op = some o ∧ h.getOperation? op = some p ∧ o.bare = p.bare := by
  refine map_eq_map ?_
  rw [← getOperation?_outline, twins, getOperation?_outline]

theorem getVariable? (var : String) : g.getVariable? var = none ∧ h.getVariable? var = none ∨
    ∃ v w, g.getVariable? var = some v ∧ h.getVariable? var = some w ∧ v.hollow = w.hollow := by
  refine map_eq_map ?_
  rw [← getVariable?_outline g Operation.bare, twins, getVariable?_outline]

theorem freshName (base : String) : g.freshName base = h.freshName base :=
  eq_of_outline (F := fun g => g.freshName base) (fun g => freshName_outline g _ base) twins

theorem operations_contains (op : String) :
    g.operations.contains op = h.operations.contains op := operations_contains_eq twins op

theorem vars_contains (var : String) : g.vars.contains var = h.vars.contains var :=
  eq_of_outline (F := fun g => g.vars.contains var) (fun g => vars_contains_outline g _ var) twins

theorem staleSwitches : Dispatch.staleSwitches g = Dispatch.staleSwitches h :=
  eq_of_outline Dispatch.staleSwitches_outline twins

theorem crossings : Dispatch.crossings g = Dispatch.crossings h :=
  eq_of_outline Dispatch.crossings_outline twins

end Graph.Twins

namespace Edit

/-- The edit does the same to graphs that are twins. -/
abbrev Blind (m : Edit α β) : Prop := Agree Twins Eq m m

theorem blind_require (c : Bool) (e : EditError) : Blind (require c e : Edit α Unit) := by
  cases c with
  | false => exact .throw e
  | true => exact .pure rfl

theorem blind_modify {F : Graph α → Graph α} (G : Graph α → Graph α)
    (h : ∀ g, (F g).outline Operation.bare = G (g.outline Operation.bare)) : Blind (modify F) := by
  refine .update fun g k twins => ?_
  rw [Twins, h, h, twins]

theorem agree_getOperation (op : String) :
    Agree Twins (fun o p => o.bare = p.bare) (getOperation op : Edit α (Operation α))
      (getOperation op) := by
  intro g h twins
  rw [run_getOperation, run_getOperation]
  obtain ⟨ho, hp⟩ | ⟨o, p, ho, hp, bare⟩ := twins.getOperation? op
  · rw [ho, hp]
    exact .error
  · rw [ho, hp]
    exact .ok ⟨bare, twins⟩

theorem agree_getVariable (var : String) :
    Agree Twins (fun v w => v.hollow = w.hollow) (getVariable var : Edit α (Variable α))
      (getVariable var) := by
  intro g h twins
  rw [run_getVariable, run_getVariable]
  obtain ⟨hv, hw⟩ | ⟨v, w, hv, hw, hollow⟩ := twins.getVariable? var
  · rw [hv, hw]
    exact .error
  · rw [hv, hw]
    exact .ok ⟨hollow, twins⟩

theorem blind_updateOperation {f : Operation α → Operation α} (hf : ∀ o, (f o).bare = f o.bare)
    (op : String) : Blind (updateOperation op f) := by
  refine (agree_getOperation op).discard.next fun _ => ?_
  refine blind_modify (modifyOperation op f) fun g => ?_
  simp only [outline, modifyOperation, NameMap.mapEntries_modify hf]

theorem blind_updateVariable {f : Variable α → Variable α} (hf : ∀ v, (f v).hollow = f v.hollow)
    (var : String) : Blind (updateVariable var f) := by
  refine (agree_getVariable var).discard.next fun _ => ?_
  refine blind_modify (modifyVariable var f) fun g => ?_
  simp only [outline, modifyVariable, NameMap.mapEntries_modify hf]

theorem hollow_addConsumers (op : String) (k : Nat) (v : Variable α) :
    (Nat.repeat (Variable.addConsumer op) k v).hollow =
      Nat.repeat (Variable.addConsumer op) k v.hollow := by
  induction k with
  | zero => rfl
  | succ k ih => exact congrArg (Variable.addConsumer op) ih

/-- A variable without a value has nothing to hide. -/
theorem blind_createVariable (var : String) : Blind (createVariable (α := α) var none) := by
  refine .get_bind fun g h twins => ?_
  rw [twins.vars_contains var]
  refine (blind_require _ _).next fun _ => ?_
  let v : Variable α := ⟨var, none, false, none, []⟩
  refine (blind_modify (putVariable v) fun g => ?_).next fun _ => .pure rfl
  simp only [outline, putVariable, NameMap.mapEntries_insert]
  rfl

theorem blind_requireFreeOutput (op var : String) :
    Blind (requireFreeOutput op var : Edit α Unit) := by
  refine (agree_getVariable var).bind fun v w same => ?_
  have producer : v.producer = w.producer := (congrArg Variable.producer same :)
  have parameter : v.isParameter = w.isParameter := (congrArg Variable.isParameter same :)
  rw [producer, parameter]
  cases w.producer with
  | none => exact blind_require _ _
  | some p => exact .throw _

theorem blind_createOperation (op type : String) (attributes : NameMap (Attribute α))
    (inputs outputs : List String) :
    Blind (createOperation op type attributes inputs outputs) := by
  refine .get_bind fun g h twins => ?_
  rw [twins.operations_contains op]
  refine (blind_require _ _).next fun _ => ?_
  refine Agree.next (.forM fun var _ => .get_bind fun g h twins => ?_) fun _ => ?_
  · rw [twins.vars_contains var]
    exact blind_require _ _
  refine Agree.next (.forM fun var _ => blind_requireFreeOutput op var) fun _ => ?_
  refine (blind_require _ _).next fun _ => ?_
  refine Agree.next (.forM fun var _ => blind_updateVariable (by intro _; rfl) var) fun _ => ?_
  refine Agree.next (.forM fun var _ => blind_updateVariable (by intro _; rfl) var) fun _ => ?_
  let o : Operation α := ⟨op, type, attributes, inputs, outputs, .unspecified⟩
  refine (blind_modify (putOperation o.bare) fun g => ?_).next fun _ => .pure rfl
  simp only [outline, putOperation, NameMap.mapEntries_insert]
  rfl

/-- The operations that are removed may differ in what they hide. -/
theorem agree_removeOperation (op : String) :
    Agree Twins (fun o p => o.bare = p.bare) (removeOperation op : Edit α (Operation α))
      (removeOperation op) := by
  refine .get_bind fun g h twins => ?_
  obtain ⟨ho, hp⟩ | ⟨o, p, ho, hp, bare⟩ := twins.getOperation? op
  · rw [ho, hp]
    exact .throw _
  rw [ho, hp]
  dsimp only
  rw [(Operation.slots_of_bare bare).1, (Operation.slots_of_bare bare).2]
  refine (blind_modify (fun g => { g with operations := g.operations.erase op }) fun g => ?_).next
    fun _ => ?_
  · simp only [outline, NameMap.mapEntries_erase]
  refine Agree.next (.forM fun var _ => blind_updateVariable (by intro _; rfl) var) fun _ => ?_
  refine Agree.next (.forM fun var _ => blind_updateVariable (by intro _; rfl) var) fun _ => ?_
  exact .pure bare

theorem agree_removeVariable (var : String) :
    Agree Twins (fun v w => v.hollow = w.hollow) (removeVariable var : Edit α (Variable α))
      (removeVariable var) := by
  refine .get_bind fun g h twins => ?_
  obtain ⟨hv, hw⟩ | ⟨v, w, hv, hw, hollow⟩ := twins.getVariable? var
  · rw [hv, hw]
    exact .throw _
  rw [hv, hw]
  have producer : v.producer = w.producer := (congrArg Variable.producer hollow :)
  have consumers : v.consumers = w.consumers := (congrArg Variable.consumers hollow :)
  dsimp only
  rw [producer, consumers]
  refine (blind_require _ _).next fun _ => ?_
  let remove (g : Graph α) : Graph α := { g with
    inputs := g.inputs.filter (· ≠ var)
    outputs := g.outputs.filter (· ≠ var)
    vars := g.vars.erase var }
  refine (blind_modify remove fun g => ?_).next fun _ => .pure hollow
  simp only [outline, remove, NameMap.mapEntries_erase]

theorem blind_replaceInput (op old new : String) :
    Blind (replaceInput (α := α) op old new) := by
  refine .get_bind fun g h twins => ?_
  rw [twins.vars_contains new]
  refine (blind_require _ _).next fun _ => (agree_getOperation op).bind fun o p bare => ?_
  rw [(Operation.slots_of_bare bare).1]
  refine (blind_updateOperation (by intro _; rfl) op).next fun _ => ?_
  refine (blind_require _ _).next fun _ => ?_
  refine (blind_updateVariable (by intro _; rfl) old).next fun _ => ?_
  exact blind_updateVariable (hollow_addConsumers op _) new

theorem blind_setPlatform (op : String) (platform : Platform) :
    Blind (setPlatform (α := α) op platform) := blind_updateOperation (by intro _; rfl) op

theorem blind_insertOnVariable (op type : String) (attributes : NameMap (Attribute α))
    (var : String) (consumers : List String) :
    Blind (insertOnVariable op type attributes var consumers) := by
  refine .get_bind fun g h twins => ?_
  obtain ⟨hv, hw⟩ | ⟨v, w, hv, hw, hollow⟩ := twins.getVariable? var
  · rw [hv, hw]
    exact .throw _
  rw [hv, hw]
  have listed : v.consumers = w.consumers := (congrArg Variable.consumers hollow :)
  dsimp only
  rw [listed]
  refine Agree.next (.forM fun c _ => blind_require _ _) fun _ => .get_bind fun g h twins => ?_
  rw [twins.freshName]
  refine (blind_createVariable _).discard.next fun _ => ?_
  refine (blind_createOperation _ _ _ _ _).discard.next fun _ => ?_
  exact Agree.next (.forM fun c _ => blind_replaceInput _ _ _) fun _ => .pure rfl

end Edit

namespace Dispatch

open Edit

/-- The task does the same to graphs that are twins, whatever was reported. -/
abbrev Blind (m : Dispatching α β) : Prop := Task.Agree Twins Eq m m

theorem blind_removeSwitch (op input relay : String) :
    Edit.Blind (removeSwitch (α := α) op input relay) := by
  refine .get_bind fun g h twins => ?_
  have readers : ((g.getVariable? relay).map (·.consumerNames)).getD [] =
      ((h.getVariable? relay).map (·.consumerNames)).getD [] := by
    obtain ⟨hv, hw⟩ | ⟨v, w, hv, hw, hollow⟩ := twins.getVariable? relay
    · rw [hv, hw]
    · have names : v.consumerNames = w.consumerNames := (congrArg Variable.consumerNames hollow :)
      rw [hv, hw, Option.map_some, Option.map_some, names]
  rw [readers]
  refine (agree_removeOperation op).discard.next fun _ => ?_
  refine Agree.next (.forM fun c _ => blind_replaceInput _ _ _) fun _ => ?_
  exact (agree_removeVariable relay).discard

theorem blind_removeStale (op : String) : Blind (removeStale (α := α) op) := by
  refine Task.agree_state_bind fun g h twins => ?_
  obtain ⟨ho, hp⟩ | ⟨o, p, ho, hp, bare⟩ := twins.getOperation? op
  · rw [ho, hp]
    exact Agree.pure rfl
  rw [ho, hp]
  dsimp only
  rw [(Operation.slots_of_bare bare).1, (Operation.slots_of_bare bare).2]
  split
  · exact (Task.agree_edit (blind_removeSwitch op _ _)).next fun _ => Task.agree_note _ _
  · exact Agree.pure rfl

theorem blind_removeStaleSwitches : Blind (removeStaleSwitches : Dispatching α Nat) := by
  refine Task.agree_state_bind fun g h twins => ?_
  rw [twins.staleSwitches]
  exact Agree.next (.forM fun op _ => blind_removeStale op) fun _ => .pure rfl

theorem blind_relayCrossing (c : Crossing) : Blind (relayCrossing (α := α) c) := by
  unfold relayCrossing
  cases c.relay with
  | some relay =>
    refine (Task.agree_edit ?_).next fun _ => .pure rfl
    exact .forM fun consumer _ => blind_replaceInput _ _ _
  | none =>
    refine (Task.agree_edit ?_).next fun _ => (Task.agree_note _ _).next fun _ => .pure rfl
    refine .get_bind fun g h twins => ?_
    rw [twins.freshName]
    refine (blind_insertOnVariable _ _ _ _ _).discard.next fun _ => ?_
    exact (blind_setPlatform _ _).next fun _ => .pure rfl

theorem blind_insertSwitches : Blind (insertSwitches : Dispatching α Nat) := by
  have relay : Blind (do
      (crossings (← Task.state)).foldlM
        (fun n c => return if ← relayCrossing c then n + 1 else n) 0 : Dispatching α Nat) := by
    refine Task.agree_state_bind fun g h twins => ?_
    rw [twins.crossings]
    exact .foldlM (fun n c _ => (blind_relayCrossing c).next fun new => .pure rfl) _
  refine blind_removeStaleSwitches.next fun removed => ?_
  dsimp only
  split
  · exact (Task.agree_note _ _).next fun _ => relay
  · exact relay

end Dispatch

end GraphDispatch
