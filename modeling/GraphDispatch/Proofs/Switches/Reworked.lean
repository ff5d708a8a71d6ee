import GraphDispatch.Proofs.Links.Effects
import GraphDispatch.Proofs.Switches.Progress

/-!
# Operations under the insertion of switches

Inserting switches takes out switches and puts in others. All other operations stay what they
are but for the variables that their slots read; here that needs neither a graph without cycles
nor switches in any shape.
-/

namespace GraphDispatch

variable {α : Type} {g h k : Graph α}

/-- The operations differ at most in the variables that they read. -/
structure Operation.Rewired (o o' : Operation α) : Prop where
  type : o'.type = o.type
  attributes : o'.attributes = o.attributes
  outputs : o'.outputs = o.outputs
  platform : o'.platform = o.platform
  slots : o'.inputs.length = o.inputs.length

namespace Operation

variable {o o' o'' : Operation α}

@[simp] theorem Rewired.refl (o : Operation α) : o.Rewired o := ⟨rfl, rfl, rfl, rfl, rfl⟩

theorem Rewired.trans (first : o.Rewired o') (second : o'.Rewired o'') : o.Rewired o'' where
  type := second.type.trans first.type
  attributes := second.attributes.trans first.attributes
  outputs := second.outputs.trans first.outputs
  platform := second.platform.trans first.platform
  slots := second.slots.trans first.slots

theorem Rewired.isSwitch (h : o.Rewired o') : o'.isSwitch = o.isSwitch := by
  simp only [Operation.isSwitch, h.type]

@[simp] theorem rewired_redirect (old new : String) (o : Operation α) :
    o.Rewired (o.redirect old new) := ⟨rfl, rfl, rfl, rfl, List.length_map _⟩

end Operation

namespace Graph

/-- In `h` the operations of `g` have been rewired, but for switches that are gone or new. -/
structure Reworked (g h : Graph α) : Prop where
  linked : h.Linked
  kept : ∀ op o, g.getOperation? op = some o → o.isSwitch = false →
    ∃ o', h.getOperation? op = some o' ∧ o.Rewired o'
  stems : ∀ op o', h.getOperation? op = some o' →
    (∃ o, g.getOperation? op = some o ∧ o.Rewired o') ∨
      o'.isSwitch = true ∧ o'.platform = .boundary

namespace Reworked

theorem of_map {f : String → Operation α → Operation α} (linked : h.Linked)
    (operations : ∀ op, h.getOperation? op = (g.getOperation? op).map (f op))
    (rewired : ∀ op (o : Operation α), o.Rewired (f op o)) : Reworked g h where
  linked := linked
  kept op o ho _ := ⟨f op o, by rw [operations, ho, Option.map_some], rewired op o⟩
  stems op o' ho' := by
    rw [operations] at ho'
    obtain ⟨o, ho, rfl⟩ := Option.map_eq_some_iff.1 ho'
    exact Or.inl ⟨o, ho, rewired op o⟩

theorem of_operations (linked : h.Linked) (same : h.operations = g.operations) :
    Reworked g h := by
  apply of_map (f := fun _ o => o) linked
  · intro op
    rw [getOperation?, same, Option.map_id']
    rfl
  · simp

theorem refl (hg : g.Linked) : Reworked g g := of_operations hg rfl

theorem trans (first : Reworked g h) (second : Reworked h k) : Reworked g k where
  linked := second.linked
  kept op o ho unswitched := by
    obtain ⟨o', ho', rewired⟩ := first.kept op o ho unswitched
    obtain ⟨o'', ho'', rewired'⟩ := second.kept op o' ho' (rewired.isSwitch.trans unswitched)
    exact ⟨o'', ho'', rewired.trans rewired'⟩
  stems op o'' ho'' := by
    rcases second.stems op o'' ho'' with ⟨o', ho', rewired'⟩ | new
    · rcases first.stems op o' ho' with ⟨o, ho, rewired⟩ | new
      · exact Or.inl ⟨o, ho, rewired.trans rewired'⟩
      · exact Or.inr ⟨rewired'.isSwitch.trans new.1, rewired'.platform.trans new.2⟩
    · exact Or.inr new

/-- A switch stays a switch where there is still an operation of its name. -/
theorem isSwitch (r : Reworked g h) {s : String} {o' : Operation α}
    (switch : ∀ o, g.getOperation? s = some o → o.isSwitch = true)
    (ho' : h.getOperation? s = some o') : o'.isSwitch = true := by
  rcases r.stems s o' ho' with ⟨o, ho, rewired⟩ | new
  · exact rewired.isSwitch.trans (switch o ho)
  · exact new.1

end Reworked

end Graph

namespace Dispatch

open GraphDispatch.Graph

section Removal

theorem replaceInput_reworks (hg : g.Linked) (op old new : String) :
    Ensures (Edit.replaceInput op old new) g fun _ h => Reworked g h := by
  refine ((Edit.replaceInput_modifies op old new).ensures hg).mono fun _ h done => ?_
  obtain ⟨linked, content⟩ := done
  have operations : h.operations = g.operations.modify op (Operation.redirect old new) :=
    congrArg Content.operations content
  apply Reworked.of_map linked
  · intro n
    rw [getOperation?, operations]
    exact NameMap.get?_mapEntries _ _ _
  · intro n o
    split <;> simp

theorem removeVariable_reworks (hg : g.Linked) (var : String) :
    Ensures (discard (Edit.removeVariable var)) g fun _ h => Reworked g h := by
  refine ((Edit.removeVariable_effects var).discard.ensures hg).mono fun _ h done => ?_
  obtain ⟨linked, content⟩ := done
  exact .of_operations linked (congrArg Content.operations content)

theorem removeOperation_reworks (hg : g.Linked) {s : String}
    (switch : ∀ o, g.getOperation? s = some o → o.isSwitch = true) :
    Ensures (discard (Edit.removeOperation s)) g fun _ h => Reworked g h := by
  refine ((Edit.removeOperation_effects s).discard.ensures hg).mono fun _ h done => ?_
  obtain ⟨linked, -, content⟩ := done
  have operations : h.operations = g.operations.erase s := congrArg Content.operations content
  have look : ∀ n, h.getOperation? n = if n = s then none else g.getOperation? n := by
    intro n
    rw [getOperation?, operations, NameMap.get?_erase]
    rfl
  refine ⟨linked, fun n p hp unswitched => ⟨p, ?_, .refl p⟩, fun n p hp => Or.inl ⟨p, ?_, .refl p⟩⟩
  · have other : n ≠ s := by
      rintro rfl
      rw [switch p hp] at unswitched
      cases unswitched
    rw [look, if_neg other, hp]
  · rw [look] at hp
    split at hp
    · cases hp
    · exact hp

theorem removeSwitch_reworks (hg : g.Linked) {s : String} (input relay : String)
    (switch : ∀ o, g.getOperation? s = some o → o.isSwitch = true) :
    Ensures (removeSwitch s input relay) g fun _ h => Reworked g h := by
  unfold removeSwitch
  apply Ensures.get_bind
  refine (removeOperation_reworks hg switch).bind fun _ h first => ?_
  refine (Ensures.forM (fun _ k => Reworked g k) (fun consumer _ k way => ?_) first).bind
    fun _ k way => ?_
  · exact (replaceInput_reworks way.linked consumer relay input).mono fun _ _ => way.trans
  · exact (removeVariable_reworks way.linked relay).mono fun _ _ => way.trans

theorem removeStale_reworks (hg : g.Linked) {s : String}
    (switch : ∀ o, g.getOperation? s = some o → o.isSwitch = true) :
    Task.Ensures (removeStale s) g fun _ h => Reworked g h := by
  refine Task.Ensures.state_bind ?_
  cases ho : g.getOperation? s with
  | none => exact .pure (.refl hg)
  | some o =>
    cases input : o.inputs.head? with
    | none =>
      simp only [input]
      exact .pure (.refl hg)
    | some x =>
      cases output : o.outputs.head? with
      | none =>
        simp only [input, output]
        exact .pure (.refl hg)
      | some r =>
        simp only [input, output]
        exact (Task.Ensures.edit (removeSwitch_reworks hg x r switch)).bind fun _ h way => .note way

theorem removeStaleSwitches_reworks (hg : g.Linked) :
    Task.Ensures removeStaleSwitches g fun _ h => Reworked g h := by
  refine Task.Ensures.state_bind ?_
  have stale : ∀ s ∈ staleSwitches g, ∀ o, g.getOperation? s = some o → o.isSwitch = true := by
    intro s hs o ho
    obtain ⟨p, hp, switch, -⟩ := (mem_staleSwitches hg).1 hs
    cases ho.symm.trans hp
    exact switch
  refine (Task.Ensures.forM (fun l h => Reworked g h ∧
    ∀ s ∈ l, ∀ o, h.getOperation? s = some o → o.isSwitch = true) (fun s l h state => ?_)
    ⟨.refl hg, stale⟩).bind fun _ h state => .pure state.1
  obtain ⟨way, switches⟩ := state
  refine (removeStale_reworks way.linked (switches s List.mem_cons_self)).mono fun _ h' step => ?_
  exact ⟨way.trans step, fun n hn o ho => step.isSwitch (switches n (List.mem_cons_of_mem _ hn)) ho⟩

end Removal

section Relaying

variable {c : Crossing}

theorem joinRelay_reworks (hg : g.Linked) (waiting : g.Waiting c) {r : String}
    (relay : c.relay = some r) : Ensures (joinRelay c r) g fun _ h => Reworked g h := by
  refine (joinRelay_yields hg waiting relay).ensures.mono fun _ h done => ?_
  obtain ⟨linked, content⟩ := done
  have operations : h.operations = g.operations.mapEntries fun n o =>
      if n ∈ c.consumers then o.redirect c.var r else o := congrArg Content.operations content
  apply Reworked.of_map linked
  · intro n
    rw [getOperation?, operations]
    exact NameMap.get?_mapEntries _ _ _
  · intro n o
    split <;> simp

theorem insertSwitch_reworks (hg : g.Linked) (waiting : g.Waiting c) :
    Ensures (insertSwitch c) g fun _ h => Reworked g h := by
  obtain ⟨s, r, fresh, -, yields⟩ := insertSwitch_yields hg waiting
  refine yields.ensures.mono fun _ h done => ?_
  obtain ⟨linked, content⟩ := done
  have operations : h.operations = (g.operations.mapEntries fun n o =>
      if n ∈ c.consumers then o.redirect c.var r else o).insert s (switchOn c s r) :=
    congrArg Content.operations content
  have rewired : ∀ n (o : Operation α),
      o.Rewired (if n ∈ c.consumers then o.redirect c.var r else o) := by
    intro n o
    split <;> simp
  constructor
  case linked => exact linked
  case kept =>
    intro n o ho _
    have other : n ≠ s := fun same => fresh (same ▸ mem_operations_iff.2 ⟨o, ho⟩)
    refine ⟨_, ?_, rewired n o⟩
    rw [getOperation?, operations, NameMap.get?_insert, if_neg other]
    exact NameMap.get?_mapEntries_eq_some.2 ⟨o, ho, rfl⟩
  case stems =>
    intro n o' ho'
    rw [getOperation?, operations, NameMap.get?_insert] at ho'
    split at ho'
    · cases ho'
      exact Or.inr ⟨decide_eq_true rfl, rfl⟩
    · obtain ⟨o, ho, rfl⟩ := NameMap.get?_mapEntries_eq_some.1 ho'
      exact Or.inl ⟨o, ho, rewired n o⟩

theorem relayCrossing_reworks (hg : g.Linked) (waiting : g.Waiting c) :
    Task.Ensures (relayCrossing c) g fun _ h => Reworked g h := by
  unfold relayCrossing
  cases relay : c.relay with
  | some r =>
    exact (Task.Ensures.edit (joinRelay_reworks hg waiting relay)).bind fun _ _ way => .pure way
  | none =>
    refine (Task.Ensures.edit (insertSwitch_reworks hg waiting)).bind fun _ _ way => ?_
    exact Task.Ensures.note_bind (.pure way)

end Relaying

theorem insertSwitches_ensures_of {P : Graph α → Prop} {Q : Nat → Graph α → Prop}
    (removal : Task.Ensures removeStaleSwitches g fun _ h => P h)
    (relaying : ∀ h, P h → Task.Ensures ((crossings h).foldlM
      (fun n c => return if ← relayCrossing c then n + 1 else n) 0 : Dispatching α Nat) h Q) :
    Task.Ensures insertSwitches g Q := by
  refine removal.bind fun removed h holds => ?_
  dsimp only
  split
  · exact Task.Ensures.note_bind (Task.Ensures.state_bind (relaying h holds))
  · exact Task.Ensures.state_bind (relaying h holds)

theorem insertSwitches_reworks (hg : g.Linked) :
    Task.Ensures insertSwitches g fun _ h => Reworked g h := by
  apply insertSwitches_ensures_of (removeStaleSwitches_reworks hg)
  intro h way
  have outstanding : h.Outstanding (crossings h) :=
    ⟨way.linked, fun c => crossings_waiting way.linked, crossings_apart way.linked⟩
  -- rerouting leaves the crossings that are still to come as they are
  refine (Task.Ensures.foldlM (fun l k => Reworked g k ∧ k.Outstanding l)
    (fun n c l k state => ?_) ⟨way, outstanding⟩).mono fun _ k state => state.1
  obtain ⟨way, outstanding⟩ := state
  have waiting := outstanding.waiting c List.mem_cons_self
  have step := (relayCrossing_reworks outstanding.linked waiting).and
    (relayCrossing_reroutes outstanding.linked waiting).ensures
  refine step.bind fun new k' done => .pure ?_
  obtain ⟨more, r, rerouted⟩ := done
  exact ⟨way.trans more, outstanding.next rerouted⟩

end Dispatch

end GraphDispatch
