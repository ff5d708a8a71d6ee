import GraphDispatch.Proofs.Switches.Reworked

/-!
# Switches of any shape

A switch may have several inputs and outputs, or none of them. When a stale switch goes, what
read its first output reads its first input. No other switch becomes stale by that, so the
stale switches can be chosen up front; all but those without ports are gone in the end.
-/

namespace GraphDispatch

variable {α : Type} {g g' : Graph α} {s x r : String} {o : Operation α}

namespace Graph

/-- A switch that stays: the graph returns its relay, it hands nothing on, or it leads from
one platform to another. -/
inductive Stays (g : Graph α) (o : Operation α) : Prop where
  | exposed : g.Exposed o → Stays g o
  | portless : o.inputs = [] ∨ o.outputs = [] → Stays g o
  | bridging {source target x r} : g.Bridges o source target x r → Stays g o

/-- No switch is left to take out. -/
def Tidy (g : Graph α) : Prop :=
  ∀ s o, g.getOperation? s = some o → o.isSwitch = true → g.Stays o

/-- What stays does so when another switch goes. -/
theorem Dropped.stays (h : Dropped g g' o s x r) {n : String} {p : Operation α}
    (hp : g.getOperation? n = some p) (hn : n ≠ s) (stays : g.Stays p) :
    g'.Stays (p.redirect r x) := by
  cases stays with
  | exposed exposed =>
    obtain ⟨t, ht, returned⟩ := exposed
    exact .exposed ⟨t, ht, h.outputs ▸ returned⟩
  | portless ports => exact .portless (ports.imp_left fun none => by simp [Operation.redirect, none])
  | bridging bridges => exact .bridging (h.bridges hp hn bridges)

end Graph

namespace Dispatch

open GraphDispatch.Graph

/-- A switch that reads its own relay can not be taken out: it is gone when its turn comes to
read something else. -/
theorem removeSwitch_unread (hg : g.Linked) (ho : g.getOperation? s = some o)
    (output : r ∈ o.outputs) : Ensures (removeSwitch s x r) g fun _ _ => r ∉ o.inputs := by
  by_cases reads : r ∈ o.inputs
  · obtain ⟨v, hv⟩ := mem_vars_iff.1 (hg.output_known ho output)
    have consumes : s ∈ v.consumerNames := (hg.mem_consumerNames hv).2 ⟨o, ho, reads⟩
    unfold removeSwitch
    apply Ensures.get_bind
    simp only [hv, Option.map_some, Option.getD_some]
    refine ((Edit.removeOperation_effects s).discard.ensures hg).bind fun _ h done => ?_
    obtain ⟨linked, -, content⟩ := done
    have operations : h.operations = g.operations.erase s := congrArg Content.operations content
    have gone : s ∉ h.operations := by simp [operations, NameMap.mem_erase]
    refine (Ensures.forM (fun l k => k.Linked ∧ s ∉ k.operations ∧ s ∈ l) ?_
      ⟨linked, gone, consumes⟩).bind fun _ k none => absurd none.2.2 List.not_mem_nil
    intro n l k waits
    obtain ⟨linked, gone, waits⟩ := waits
    refine ((Edit.replaceInput_effects n r x).ensures linked).mono fun _ k' done => ?_
    obtain ⟨linked', ⟨p, hp, -⟩, content⟩ := done
    have operations : k'.operations = k.operations.modify n (Operation.redirect r x) :=
      congrArg Content.operations content
    refine ⟨linked', by simpa [operations] using gone, ?_⟩
    rcases List.mem_cons.1 waits with rfl | later
    · exact absurd (mem_operations_iff.2 ⟨p, hp⟩) gone
    · exact later
  · exact fun _ _ _ => reads

theorem removeStale_ensures (hg : g.Linked) (ho : g.getOperation? s = some o)
    (switch : o.isSwitch = true) (hidden : ¬g.Exposed o) :
    Task.Ensures (removeStale s) g fun _ g' =>
      g' = g ∧ (o.inputs = [] ∨ o.outputs = []) ∨ ∃ x r, Dropped g g' o s x r := by
  apply Task.Ensures.state_bind
  rw [ho]
  cases input : o.inputs.head? with
  | none =>
    simp only [input]
    exact .pure (Or.inl ⟨rfl, Or.inl (List.head?_eq_none_iff.1 input)⟩)
  | some x =>
    cases output : o.outputs.head? with
    | none =>
      simp only [input, output]
      exact .pure (Or.inl ⟨rfl, Or.inr (List.head?_eq_none_iff.1 output)⟩)
    | some r =>
      have hx : x ∈ o.inputs := List.mem_of_head? input
      have hr : r ∈ o.outputs := List.mem_of_head? output
      have spliced : Ensures (removeSwitch s x r) g fun _ g' => Dropped g g' o s x r := by
        intro b g' run
        have unread := removeSwitch_unread hg ho hr b g' run
        obtain ⟨linked, content⟩ := (removeSwitch_yields hg ho hx hr unread).ensures b g' run
        exact ⟨⟨hg, linked, ⟨o, ho, hx⟩, ⟨o, ho, hr⟩, content⟩, ho, switch, input, output, unread,
          hidden⟩
      simp only [input, output]
      exact (Task.Ensures.edit spliced).bind fun _ g' dropped => .note (Or.inr ⟨x, r, dropped⟩)

/-- The switches of the list are still to go, all others stay. -/
structure Dropping (l : List String) (g : Graph α) : Prop where
  linked : g.Linked
  nodup : l.Nodup
  pending : ∀ s ∈ l, ∃ o, g.getOperation? s = some o ∧ o.isSwitch = true ∧ ¬g.Exposed o
  stays : ∀ s o, g.getOperation? s = some o → o.isSwitch = true → s ∉ l → g.Stays o

theorem Dropping.start (hg : g.Linked) : Dropping (staleSwitches g) g where
  linked := hg
  nodup := staleSwitches_nodup hg
  pending s stale := by
    obtain ⟨o, ho, switch, -, hidden⟩ := (mem_staleSwitches hg).1 stale
    exact ⟨o, ho, switch, hidden⟩
  stays s o ho switch kept := by
    by_cases exposed : g.Exposed o
    · exact .exposed exposed
    · by_cases fitting : isFitting g o = true
      · obtain ⟨source, target, x, r, bridges⟩ := (isFitting_iff_bridges hg ho).1 fitting
        exact .bridging bridges
      · exact absurd ((mem_staleSwitches hg).2 ⟨o, ho, switch, by simpa using fitting, exposed⟩) kept

namespace Dropping

variable {l : List String}

theorem skip (h : Dropping (s :: l) g) (ho : g.getOperation? s = some o)
    (ports : o.inputs = [] ∨ o.outputs = []) : Dropping l g where
  linked := h.linked
  nodup := (List.nodup_cons.1 h.nodup).2
  pending n hn := h.pending n (List.mem_cons_of_mem _ hn)
  stays n p hp switch kept := by
    by_cases same : n = s
    · subst same
      cases ho.symm.trans hp
      exact .portless ports
    · exact h.stays n p hp switch (by simp [same, kept])

theorem next (h : Dropping (s :: l) g) (dropped : Dropped g g' o s x r) : Dropping l g' where
  linked := dropped.after
  nodup := (List.nodup_cons.1 h.nodup).2
  pending n hn := by
    have other : n ≠ s := fun e => (List.nodup_cons.1 h.nodup).1 (e ▸ hn)
    obtain ⟨p, hp, switch, hidden⟩ := h.pending n (List.mem_cons_of_mem _ hn)
    refine ⟨p.redirect r x, dropped.getOperation?_eq_some.2 ⟨other, p, hp, rfl⟩, switch, ?_⟩
    rintro ⟨t, ht, returned⟩
    exact hidden ⟨t, ht, dropped.outputs ▸ returned⟩
  stays n p' hp' switch kept := by
    obtain ⟨other, p, hp, rfl⟩ := dropped.getOperation?_eq_some.1 hp'
    exact dropped.stays hp other (h.stays n p hp switch (by simp [other, kept]))

end Dropping

/-- What holds whenever a stale switch is dropped holds when all of them are gone. -/
theorem removeStaleSwitches_keeps {P : Graph α → Prop} (hg : g.Linked)
    (drops : ∀ {k k' : Graph α} {o s x r}, s ∈ staleSwitches g → Dropped k k' o s x r → P k → P k')
    (start : P g) : Task.Ensures removeStaleSwitches g fun _ k => k.Linked ∧ k.Tidy ∧ P k := by
  apply Task.Ensures.state_bind
  refine (Task.Ensures.forM (fun l k => (∀ s ∈ l, s ∈ staleSwitches g) ∧ Dropping l k ∧ P k)
    (fun s l k state => ?_) ⟨fun _ => id, .start hg, start⟩).bind fun _ k state => ?_
  · obtain ⟨stale, dropping, holds⟩ := state
    obtain ⟨o, ho, switch, hidden⟩ := dropping.pending s List.mem_cons_self
    refine (removeStale_ensures dropping.linked ho switch hidden).mono fun _ k' left => ?_
    have later : ∀ n ∈ l, n ∈ staleSwitches g := fun n hn => stale n (List.mem_cons_of_mem _ hn)
    rcases left with ⟨rfl, ports⟩ | ⟨x, r, dropped⟩
    · exact ⟨later, dropping.skip ho ports, holds⟩
    · exact ⟨later, dropping.next dropped, drops (stale s List.mem_cons_self) dropped holds⟩
  · obtain ⟨-, dropping, holds⟩ := state
    exact .pure ⟨dropping.linked, fun s o ho switch =>
      dropping.stays s o ho switch List.not_mem_nil, holds⟩

theorem removeStaleSwitches_tidies {P : Graph α → Prop} (hg : g.Linked)
    (drops : ∀ {k k' : Graph α} {o s x r}, Dropped k k' o s x r → P k → P k') (start : P g) :
    Task.Ensures removeStaleSwitches g fun _ k => k.Linked ∧ k.Tidy ∧ P k :=
  removeStaleSwitches_keeps hg (fun _ => drops) start

end Dispatch

end GraphDispatch
