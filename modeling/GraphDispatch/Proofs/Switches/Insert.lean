import GraphDispatch.Proofs.Switches.Crossings
import GraphDispatch.Proofs.Switches.Stale

/-!
# Insertion of switches

The crossings are listed once and relayed one after the other. What is still to come
stays ready, and what reads across platforms is still to come.
-/

namespace GraphDispatch

variable {α : Type} {g g' : Graph α} {c : Dispatch.Crossing}

/-- A switch between two platforms. -/
theorem Operation.switchPlatforms?_of_attributes {o : Operation α} {source target : Platform}
    (type : o.type = switchType) (attributes : o.attributes = switchAttributes source target) :
    o.switchPlatforms? = some (source, target) := by
  have keys : switchSourceKey ≠ switchTargetKey := by decide
  have sourceFound : o.platformAttribute? switchSourceKey = some source := by
    simp [platformAttribute?, attributes, switchAttributes, NameMap.ofList, NameMap.get?_insert,
      keys, Attribute.asInt?]
  have targetFound : o.platformAttribute? switchTargetKey = some target := by
    simp [platformAttribute?, attributes, switchAttributes, NameMap.ofList, Attribute.asInt?]
  have switch : o.isSwitch = true := by simp [isSwitch, type]
  rw [switchPlatforms?, if_pos switch, sourceFound, targetFound]
  rfl

namespace Dispatch

open GraphDispatch.Graph

theorem joinRelay_yields (hg : g.Linked) (waiting : g.Waiting c) {r : String}
    (relay : c.relay = some r) : Edit.Yields (joinRelay c r) g () { g.content with
      operations := g.operations.mapEntries fun n o =>
        if n ∈ c.consumers then o.redirect c.var r else o } :=
  Edit.forM_replaceInput_yields hg waiting.nodup waiting.reads (waiting.relay r relay)

/-- A relay that is there already takes the consumers over. -/
theorem joinRelay_relays (hg : g.Sound) (ready : g.Ready c) {r : String}
    (relay : c.relay = some r) :
    ∃ s g', joinRelay c r g = .ok () g' ∧ Relayed g g' c s r := by
  obtain ⟨s, o, ho, fits⟩ := ready.relay r relay
  obtain ⟨g', run, linked, content⟩ :=
    joinRelay_yields hg.linked (ready.waiting hg.linked) relay
  have operations : g'.operations = g.operations.mapEntries fun n o =>
      if n ∈ c.consumers then o.redirect c.var r else o := congrArg Content.operations content
  have look : ∀ n, g'.getOperation? n =
      (g.getOperation? n).map fun o => if n ∈ c.consumers then o.redirect c.var r else o := by
    intro n
    rw [getOperation?, operations, NameMap.get?_mapEntries]
    rfl
  have unread : s ∉ c.consumers := by
    intro consumes
    obtain ⟨-, o', ho', unswitched, -⟩ := ready.consumers s consumes
    rw [ho] at ho'
    cases ho'
    rw [fits.isSwitch] at unswitched
    cases unswitched
  have same : g'.getOperation? s = some o := by
    rw [look, ho, Option.map_some, if_neg unread]
  have declarations : g'.content.declarations = g.content.declarations := by rw [content]
  refine ⟨s, g', run, hg, ready, linked, ⟨o, same, fits.platforms, fits.input, fits.output⟩,
    Or.inl ⟨o, ho, same, fits⟩, ?_, fun n _ => look n, ?_, ?_, ?_, ?_⟩
  · exact fun unknown => absurd (mem_operations_iff.2 ⟨o, ho⟩) unknown
  · exact congrArg Content.inputs content
  · exact congrArg Content.outputs content
  · intro var _
    rw [declarations]
  · intro var d hd unknown
    rw [declarations] at hd
    exact absurd (mem_declarations.1 (NameMap.mem_of_get? hd)) unknown

/-- The switch that a crossing gets. -/
def switchOn (c : Crossing) (s r : String) : Operation α :=
  { Operation.between s switchType (switchAttributes c.source c.target) c.var r with
    platform := .boundary }

theorem insertSwitch_yields (hg : g.Linked) (waiting : g.Waiting c) :
    ∃ s r, s ∉ g.operations ∧ r ∉ g.vars ∧ Edit.Yields (insertSwitch c) g s { g.content with
      operations := (g.operations.mapEntries fun n o =>
        if n ∈ c.consumers then o.redirect c.var r else o).insert s (switchOn c s r)
      declarations := g.content.declarations.insert r ⟨r, none, false⟩ } := by
  let s := g.freshName (c.var ++ ".switch")
  let r := Edit.relayName g s c.var
  have fresh : s ∉ g.operations := (g.freshName_not_mem _).2
  have unread : s ∉ c.consumers := by
    intro consumes
    obtain ⟨o, ho, -⟩ := waiting.reads s consumes
    exact fresh (mem_operations_iff.2 ⟨o, ho⟩)
  obtain ⟨h, run, linked, content⟩ := Edit.insertOnVariable_yields hg fresh waiting.known
    waiting.nodup waiting.reads switchType
    (switchAttributes c.source c.target)
  have operations : h.operations = (g.operations.insert s (.between s switchType
      (switchAttributes c.source c.target) c.var r)).mapEntries fun n o =>
        if n ∈ c.consumers then o.redirect c.var r else o := congrArg Content.operations content
  have inserted : s ∈ h.operations := by
    rw [operations, NameMap.mem_mapEntries]
    exact NameMap.mem_insert.2 (Or.inl rfl)
  obtain ⟨g', run', linked', content'⟩ := Edit.setPlatform_yields linked inserted .boundary
  have switched : (h.operations.modify s fun o => { o with platform := .boundary }) =
      (g.operations.mapEntries fun n o =>
        if n ∈ c.consumers then o.redirect c.var r else o).insert s (switchOn c s r) := by
    refine NameMap.ext_get? fun n => ?_
    rw [operations, NameMap.get?_modify, NameMap.get?_mapEntries, NameMap.get?_insert,
      NameMap.get?_insert, NameMap.get?_mapEntries]
    by_cases hn : n = s
    · subst hn
      rw [if_pos rfl, if_pos rfl, if_pos rfl, Option.map_some, if_neg unread]
      rfl
    · rw [if_neg hn, if_neg hn, if_neg hn]
  refine ⟨s, r, fresh, (g.freshName_not_mem _).1, g', ?_, linked', ?_⟩
  · unfold insertSwitch
    rw [bind_of_ok (run_get g)]
    exact (bind_of_ok (discard_of_ok run)).trans (bind_of_ok run')
  · rw [content', switched, content]
    rfl

/-- A new switch takes the consumers over. -/
theorem insertSwitch_relays (hg : g.Sound) (ready : g.Ready c) (relay : c.relay = none) :
    ∃ s r g', insertSwitch c g = .ok s g' ∧ Relayed g g' c s r := by
  obtain ⟨s, r, fresh, unknown, g', run, linked, content⟩ :=
    insertSwitch_yields hg.linked (ready.waiting hg.linked)
  have operations : g'.operations = (g.operations.mapEntries fun n o =>
      if n ∈ c.consumers then o.redirect c.var r else o).insert s (switchOn c s r) :=
    congrArg Content.operations content
  have look : ∀ n, g'.getOperation? n = if n = s then some (switchOn c s r) else
      (g.getOperation? n).map fun o => if n ∈ c.consumers then o.redirect c.var r else o := by
    intro n
    rw [getOperation?, operations, NameMap.get?_insert, NameMap.get?_mapEntries]
    rfl
  have declarations : g'.content.declarations =
      g.content.declarations.insert r ⟨r, none, false⟩ := congrArg Content.declarations content
  refine ⟨s, r, g', run, hg, ready, linked, ⟨switchOn c s r, (look s).trans (if_pos rfl), ?_, rfl, rfl⟩,
    Or.inr ⟨fresh, unknown⟩, fun _ => relay, fun n hn => (look n).trans (if_neg hn), ?_, ?_, ?_, ?_⟩
  · exact Operation.switchPlatforms?_of_attributes rfl rfl
  · exact congrArg Content.inputs content
  · exact congrArg Content.outputs content
  · intro var hvar
    have hne : var ≠ r := fun e => unknown (e ▸ hvar)
    rw [declarations, NameMap.get?_insert, if_neg hne]
  · intro var d hd absent
    rw [declarations, NameMap.get?_insert] at hd
    split at hd
    · cases hd
      rfl
    · exact absurd (mem_declarations.1 (NameMap.mem_of_get? hd)) absent

theorem relayCrossing_leads (hg : g.Sound) (ready : g.Ready c) :
    Task.Leads (relayCrossing c) g fun _ g' => ∃ s r, Relayed g g' c s r := by
  unfold relayCrossing
  cases relay : c.relay with
  | some r =>
    obtain ⟨s, g', run, relayed⟩ := joinRelay_relays hg ready relay
    exact Task.leads_edit_bind run (Task.leads_pure ⟨s, r, relayed⟩)
  | none =>
    obtain ⟨s, r, g', run, relayed⟩ := insertSwitch_relays hg ready relay
    exact Task.leads_edit_bind run (Task.leads_note_bind (Task.leads_pure ⟨s, r, relayed⟩))

end Dispatch

namespace Graph

/-- The crossings of the list, relayed one after the other, lead from `g` to `g'`. -/
inductive RelayedAll : List Dispatch.Crossing → Graph α → Graph α → Prop where
  | nil {k : Graph α} : RelayedAll [] k k
  | cons {d : Dispatch.Crossing} {l : List Dispatch.Crossing} {k k' h : Graph α} {s r : String} :
    Relayed k k' d s r → RelayedAll l k' h → RelayedAll (d :: l) k h

/-- Every crossing of the list is ready, and they are crossings of different variables or
platforms. -/
structure Pending (g : Graph α) (l : List Dispatch.Crossing) : Prop where
  sound : g.Sound
  ready : ∀ c ∈ l, g.Ready c
  pairwise : l.Pairwise fun c d => (c.var, c.target) ≠ (d.var, d.target)

theorem Pending.next {l : List Dispatch.Crossing} {s r : String} (pending : g.Pending (c :: l))
    (relayed : Relayed g g' c s r) : g'.Pending l where
  sound := relayed.sound
  ready d hd := by
    refine relayed.keeps_ready (pending.ready d (List.mem_cons_of_mem _ hd)) ?_
    exact (List.rel_of_pairwise_cons pending.pairwise hd).symm
  pairwise := pending.pairwise.of_cons

end Graph

namespace Dispatch

open GraphDispatch.Graph

theorem relayCrossings_leads {l : List Crossing} {n : Nat} (pending : g.Pending l) :
    Task.Leads (l.foldlM (fun n c => return if ← relayCrossing c then n + 1 else n) n) g
      fun _ g' => RelayedAll l g g' := by
  induction l generalizing g n with
  | nil => exact Task.leads_pure .nil
  | cons c l ih =>
    rw [List.foldlM_cons, bind_assoc]
    refine (relayCrossing_leads pending.sound (pending.ready c List.mem_cons_self)).bind ?_
    rintro new g' ⟨s, r, relayed⟩
    rw [pure_bind]
    exact (ih (pending.next relayed)).mono fun _ h rest => .cons relayed rest

/-- The way from `g` to `g'`: stale switches go, then the crossings are relayed. -/
structure Reswitched (g h g' : Graph α) : Prop where
  thinned : Thinned g h
  sound : h.Sound
  settled : ∀ s o, h.getOperation? s = some o → o.isSwitch = true → h.Settled o
  relayed : RelayedAll (crossings h) h g'

/-- The crossings are those that are there when the stale switches are gone. -/
theorem insertSwitches_leads_of {P : Graph α → Prop} {Q : Nat → Graph α → Prop}
    (removal : Task.Leads removeStaleSwitches g fun _ h => P h)
    (relaying : ∀ h, P h → Task.Leads ((crossings h).foldlM
      (fun n c => return if ← relayCrossing c then n + 1 else n) 0 : Dispatching α Nat) h Q) :
    Task.Leads insertSwitches g Q := by
  refine removal.bind fun removed h holds => ?_
  dsimp only
  split
  · exact Task.leads_note_bind (Task.leads_state_bind (relaying h holds))
  · exact Task.leads_state_bind (relaying h holds)

theorem insertSwitches_leads (hg : g.Sound) :
    Task.Leads insertSwitches g fun _ g' => ∃ h, Reswitched g h g' := by
  apply insertSwitches_leads_of (removeStaleSwitches_leads hg)
  rintro h ⟨thinned, sound, settled⟩
  have pending : h.Pending (crossings h) :=
    ⟨sound, fun c hc => crossings_ready sound hc, crossings_pairwise sound.linked⟩
  exact (relayCrossings_leads pending).mono fun _ g' relayed =>
    ⟨h, thinned, sound, settled, relayed⟩

end Dispatch

end GraphDispatch
