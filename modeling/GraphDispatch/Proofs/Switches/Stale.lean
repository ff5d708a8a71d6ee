import GraphDispatch.Proofs.Switches.Splice

/-!
# Removal of stale switches

The stale switches are chosen up front. While they go, one after the other, those that
are still to go remain switches of the graph, and all others remain settled.
-/

namespace GraphDispatch

variable {α : Type} {g g' : Graph α}

namespace Graph

/-- `g'` comes from `g` by taking switches out. -/
def Thinned : Graph α → Graph α → Prop :=
  Relation.ReflTransGen fun g g' => ∃ s x r, Spliced g g' s x r

theorem Thinned.keeps {P : Graph α → Prop} (h : Thinned g g')
    (step : ∀ {g g' : Graph α} {s x r}, Spliced g g' s x r → P g → P g') (hg : P g) : P g' := by
  induction h with
  | refl => exact hg
  | tail _ spliced ih =>
    obtain ⟨s, x, r, spliced⟩ := spliced
    exact step spliced ih

theorem Thinned.sameFlow (h : Thinned g g') (hg : g.Sound) : g'.Sound ∧ SameFlow g g' :=
  h.keeps (P := fun k => k.Sound ∧ SameFlow g k)
    (fun spliced kept => ⟨spliced.sound, kept.2.trans kept.1 spliced.sameFlow⟩)
    ⟨hg, .refl hg⟩

end Graph

namespace Dispatch

open GraphDispatch.Graph

theorem mem_staleSwitches (hg : g.Linked) {s : String} :
    s ∈ staleSwitches g ↔ ∃ o, g.getOperation? s = some o ∧ o.isSwitch = true ∧
      isFitting g o = false ∧ ¬g.Exposed o := by
  unfold staleSwitches
  simp only [List.mem_map, List.mem_filter, NameMap.mem_values, Bool.and_eq_true,
    Bool.not_eq_true', ← isExposed_iff, Bool.not_eq_true]
  constructor
  · rintro ⟨o, ⟨⟨n, ho⟩, ⟨switch, unfit⟩, hidden⟩, rfl⟩
    have name : o.name = n := hg.operation_name ho
    exact ⟨o, name ▸ ho, switch, unfit, hidden⟩
  · rintro ⟨o, ho, switch, unfit, hidden⟩
    exact ⟨o, ⟨⟨s, ho⟩, ⟨switch, unfit⟩, hidden⟩, hg.operation_name ho⟩

theorem staleSwitches_nodup (hg : g.Linked) : (staleSwitches g).Nodup := by
  have sublist : (staleSwitches g).Sublist g.operations.names :=
    hg.values_names ▸ List.filter_sublist.map _
  exact g.operations.names_nodup.sublist sublist

/-- Every switch that is not stale is settled. -/
theorem settled_of_not_stale (hg : g.Sound) {s : String} {o : Operation α}
    (ho : g.getOperation? s = some o) (switch : o.isSwitch = true) (h : s ∉ staleSwitches g) :
    g.Settled o := by
  by_cases exposed : g.Exposed o
  · exact Or.inl exposed
  · obtain ⟨x, r, input, output⟩ := hg.ports s o ho switch
    have fits : isFitting g o = true := by
      cases fitting : isFitting g o with
      | true => rfl
      | false => exact absurd ((mem_staleSwitches hg.linked).2 ⟨o, ho, switch, fitting, exposed⟩) h
    obtain ⟨source, target, fits⟩ := (isFitting_iff hg.linked ho input output).1 fits
    exact Or.inr ⟨source, target, x, r, fits⟩

/-- The state in which the switches of `l` are still to be removed. -/
structure Removing (g₀ : Graph α) (l : List String) (g : Graph α) : Prop where
  sound : g.Sound
  thinned : Thinned g₀ g
  nodup : l.Nodup
  pending : ∀ s ∈ l, ∃ o, g.getOperation? s = some o ∧ o.isSwitch = true ∧ ¬g.Exposed o
  settled : ∀ s o, g.getOperation? s = some o → o.isSwitch = true → s ∉ l → g.Settled o

theorem Removing.start (hg : g.Sound) : Removing g (staleSwitches g) g where
  sound := hg
  thinned := .refl
  nodup := staleSwitches_nodup hg.linked
  pending s hs := by
    obtain ⟨o, ho, switch, -, hidden⟩ := (mem_staleSwitches hg.linked).1 hs
    exact ⟨o, ho, switch, hidden⟩
  settled _ _ ho switch hs := settled_of_not_stale hg ho switch hs

theorem Removing.next {g₀ : Graph α} {s x r : String} {l : List String}
    (h : Removing g₀ (s :: l) g) (spliced : Spliced g g' s x r) : Removing g₀ l g' where
  sound := spliced.sound
  thinned := h.thinned.tail ⟨s, x, r, spliced⟩
  nodup := (List.nodup_cons.1 h.nodup).2
  pending n hn := by
    have hne : n ≠ s := fun e => (List.nodup_cons.1 h.nodup).1 (e ▸ hn)
    obtain ⟨o, ho, switch, hidden⟩ := h.pending n (List.mem_cons_of_mem _ hn)
    refine ⟨o.redirect r x, spliced.getOperation?_eq_some.2 ⟨hne, o, ho, rfl⟩, switch, ?_⟩
    rintro ⟨t, ht, returned⟩
    exact hidden ⟨t, ht, spliced.outputs ▸ returned⟩
  settled n p hp switch hn := by
    apply spliced.settled hp
    intro o ho
    obtain ⟨hne, q, hq, rfl⟩ := spliced.getOperation?_eq_some.1 hp
    rw [ho] at hq
    cases hq
    apply h.settled n o ho switch
    intro hmem
    exact (List.mem_cons.1 hmem).elim hne hn

/-- A switch without inputs or without outputs is left alone. -/
theorem removeStale_leads (hg : g.Linked) (acyclic : g.Acyclic) (s : String) :
    Task.Leads (removeStale s) g fun _ g' =>
      (g' = g ∧ ∀ o, g.getOperation? s = some o → o.inputs = [] ∨ o.outputs = []) ∨
      ∃ o x r, g.getOperation? s = some o ∧ o.inputs.head? = some x ∧
        o.outputs.head? = some r ∧ Bypassed g g' s x r := by
  refine Task.leads_state_bind ?_
  cases ho : g.getOperation? s with
  | none => exact Task.leads_pure (Or.inl ⟨rfl, fun o h => by cases h⟩)
  | some o =>
    cases input : o.inputs.head? with
    | none =>
      simp only [input]
      refine Task.leads_pure (Or.inl ⟨rfl, fun _ h => ?_⟩)
      cases h
      exact Or.inl (List.head?_eq_none_iff.1 input)
    | some x =>
      cases output : o.outputs.head? with
      | none =>
        simp only [input, output]
        refine Task.leads_pure (Or.inl ⟨rfl, fun _ h => ?_⟩)
        cases h
        exact Or.inr (List.head?_eq_none_iff.1 output)
      | some r =>
        have hx : x ∈ o.inputs := List.mem_of_head? input
        have hr : r ∈ o.outputs := List.mem_of_head? output
        have unread : r ∉ o.inputs := fun reads =>
          acyclic.not_reads hg ⟨o, ho, hr⟩ ⟨o, ho, reads⟩
        obtain ⟨g', run, linked, content⟩ := removeSwitch_yields hg ho hx hr unread
        simp only [input, output]
        refine Task.leads_edit_bind run (Task.leads_note (Or.inr ⟨o, x, r, rfl, input, output, ?_⟩))
        exact ⟨hg, linked, ⟨o, ho, hx⟩, ⟨o, ho, hr⟩, content⟩

theorem removing_leads {g₀ : Graph α} {s : String} {l : List String}
    (h : Removing g₀ (s :: l) g) :
    Task.Leads (removeStale s) g fun _ g' => Removing g₀ l g' := by
  obtain ⟨o, ho, switch, hidden⟩ := h.pending s List.mem_cons_self
  obtain ⟨x, r, input, output⟩ := h.sound.ports s o ho switch
  have hr : r ∉ g.outputs := fun returned => hidden ⟨r, by simp [output], returned⟩
  refine (removeStale_leads h.sound.linked h.sound.acyclic s).mono ?_
  rintro _ g' (⟨-, stays⟩ | ⟨o', x', r', ho', input', output', bypassed⟩)
  · simpa [input, output] using stays o ho
  · cases ho.symm.trans ho'
    obtain rfl : x = x' := by simpa [input] using input'
    obtain rfl : r = r' := by simpa [output] using output'
    exact h.next ⟨bypassed, h.sound, ⟨o, ho, switch, input, output⟩, hr⟩

/-- What the removal of stale switches comes to. -/
theorem removeStaleSwitches_leads (hg : g.Sound) :
    Task.Leads removeStaleSwitches g fun _ g' => Thinned g g' ∧ g'.Sound ∧
      ∀ s o, g'.getOperation? s = some o → o.isSwitch = true → g'.Settled o := by
  refine Task.leads_state_bind ?_
  refine (Task.leads_forM (Removing g) (fun s l k h => removing_leads h)
    (Removing.start hg)).bind fun _ g' h => ?_
  exact Task.leads_pure ⟨h.thinned, h.sound, fun s o ho switch =>
    h.settled s o ho switch List.not_mem_nil⟩

end Dispatch

end GraphDispatch
