import GraphDispatch.Proofs.Links.Runs
import GraphDispatch.Proofs.Switches.Insert

/-!
# Boundaries between platforms

Whatever platforms the operations of a graph get, inserting switches separates them
and does not change what the graph computes.
-/

namespace GraphDispatch

variable {α : Type} {g g' : Graph α}

namespace Graph

/-- Puts every operation on a platform. -/
def assign (platforms : String → Platform) (g : Graph α) : Graph α :=
  { g with operations := g.operations.mapEntries fun op o => { o with platform := platforms op } }

section Assign

variable {platforms : String → Platform}

theorem assign_eq_some {op : String} {o : Operation α} :
    (g.assign platforms).getOperation? op = some o ↔
      ∃ p, g.getOperation? op = some p ∧ { p with platform := platforms op } = o :=
  NameMap.get?_mapEntries_eq_some

theorem Linked.assign (hg : g.Linked) (platforms : String → Platform) :
    (g.assign platforms).Linked := by
  have vars : g.vars = g.vars.mapEntries fun _ v => v :=
    (NameMap.mapEntries_eq_self fun _ _ _ => rfl).symm
  have look : ∀ op, (g.assign platforms).getOperation? op =
      (g.getOperation? op).map fun o => { o with platform := platforms op } :=
    fun op => NameMap.get?_mapEntries _ _ _
  refine hg.relink vars (fun _ _ _ => rfl) rfl rfl (fun op o ho => ?_) (fun op o ho => ?_)
    (fun op o ho => ?_) (fun var v hv => hg.consumers_sorted hv) (fun var v hv op => ?_)
    fun var v hv op => ?_
  · obtain ⟨p, hp, rfl⟩ := assign_eq_some.1 ho
    have name : p.name = op := hg.operation_name hp
    exact name
  · obtain ⟨p, hp, rfl⟩ := assign_eq_some.1 ho
    have inputs : ∀ var ∈ p.inputs, var ∈ g.vars := fun _ => hg.input_known hp
    have outputs : ∀ var ∈ p.outputs, var ∈ g.vars := fun _ => hg.output_known hp
    exact fun var hvar => (List.mem_append.1 hvar).elim (inputs var) (outputs var)
  · obtain ⟨p, hp, rfl⟩ := assign_eq_some.1 ho
    have nodup : p.outputs.Nodup := hg.outputs_nodup hp
    exact nodup
  · rw [hg.count_consumers hv, look]
    cases g.getOperation? op <;> rfl
  · rw [hg.producer_iff hv]
    constructor
    · rintro ⟨o, ho, hvar⟩
      exact ⟨_, assign_eq_some.2 ⟨o, ho, rfl⟩, hvar⟩
    · rintro ⟨o, ho, hvar⟩
      obtain ⟨p, hp, rfl⟩ := assign_eq_some.1 ho
      exact ⟨p, hp, hvar⟩

theorem upstream_assign (op : String) : (g.assign platforms).upstream op = g.upstream op := by
  have look : (g.assign platforms).getOperation? op =
      (g.getOperation? op).map fun o => { o with platform := platforms op } :=
    NameMap.get?_mapEntries _ _ _
  unfold upstream
  rw [look]
  cases g.getOperation? op <;> rfl

theorem Acyclic.assign (h : g.Acyclic) (platforms : String → Platform) :
    (g.assign platforms).Acyclic := by
  have feeds : (g.assign platforms).Feeds = g.Feeds := by
    funext p q
    rw [Feeds, Feeds, upstream_assign]
  intro op
  rw [feeds]
  exact h op

theorem SinglePorts.assign (h : g.SinglePorts) (platforms : String → Platform) :
    (g.assign platforms).SinglePorts := by
  intro op o ho switch
  obtain ⟨p, hp, rfl⟩ := assign_eq_some.1 ho
  exact h op p hp switch

theorem Sound.assign (hg : g.Sound) (platforms : String → Platform) :
    (g.assign platforms).Sound :=
  ⟨hg.linked.assign platforms, hg.acyclic.assign platforms, hg.ports.assign platforms⟩

end Assign

theorem assign_congr {p q : String → Platform} (same : ∀ op ∈ g.operations, p op = q op) :
    g.assign p = g.assign q := by
  have operations : (g.operations.mapEntries fun op o => { o with platform := p op }) =
      g.operations.mapEntries fun op o => { o with platform := q op } := by
    apply NameMap.mapEntries_congr
    intro op o ho
    rw [same op (NameMap.mem_of_get? ho)]
  simp only [assign, operations]

/-- The graph returns no relay. -/
def Sheltered (g : Graph α) : Prop :=
  ∀ op o, g.getOperation? op = some o → o.isSwitch = true → ¬g.Exposed o

theorem sheltered_iff : g.Sheltered ↔ ∀ e ∈ g.operations.entries, e.2.isSwitch = true →
    Dispatch.isExposed g e.2 = false := by
  unfold Sheltered
  simp only [← isExposed_iff, Bool.not_eq_true]
  exact NameMap.forall_get?_iff

instance : Decidable g.Sheltered := decidable_of_iff _ sheltered_iff.symm

theorem Sheltered.assign (h : g.Sheltered) (platforms : String → Platform) :
    (g.assign platforms).Sheltered := by
  intro op o ho switch
  obtain ⟨p, hp, rfl⟩ := assign_eq_some.1 ho
  exact h op p hp switch

theorem Spliced.sheltered {s x r : String} (h : Spliced g g' s x r) (hg : g.Sheltered) :
    g'.Sheltered := by
  intro op o ho switch
  obtain ⟨-, p, hp, rfl⟩ := h.getOperation?_eq_some.1 ho
  rintro ⟨t, ht, returned⟩
  exact hg op p hp switch ⟨t, ht, h.outputs ▸ returned⟩

theorem Relayed.sheltered {c : Dispatch.Crossing} {s r : String} (h : Relayed g g' c s r)
    (hg : g.Sheltered) : g'.Sheltered := by
  intro op p hp switch
  rintro ⟨t, ht, returned⟩
  rw [h.outputs] at returned
  by_cases hop : op = s
  · subst hop
    cases h.eq_of_produces ⟨p, hp, ht⟩
    -- a relay that the graph returns is not new
    have relays := h.relays_of_known (h.before.linked.outputs_known _ returned)
    obtain ⟨o, ho, switch', -, hr⟩ := relays
    exact hg op o ho switch' ⟨_, hr, returned⟩
  · obtain ⟨o, ho, rfl⟩ := (h.getOperation?_eq_some hop).1 hp
    have work := h.sameWork ho
    rw [work.isSwitch] at switch
    exact hg op o ho switch ⟨t, work.outputs ▸ ht, returned⟩

/-- Operations pass variables on directly on one platform only, and switches pass them on
between different ones. -/
structure BoundaryComplete (g : Graph α) : Prop where
  direct : ∀ {p q var o o'}, g.getOperation? p = some o → o.isSwitch = false →
    g.getOperation? q = some o' → o'.isSwitch = false → var ∈ o.outputs → var ∈ o'.inputs →
    o.platform = o'.platform
  switches : ∀ {s o}, g.getOperation? s = some o → o.isSwitch = true →
    ∃ source target x r, g.Fits o source target x r

theorem BoundaryComplete.fits_of_relays (complete : g.BoundaryComplete) {s x r : String}
    (relays : g.Relays s x r) :
    ∃ o source target, g.getOperation? s = some o ∧ g.Fits o source target x r := by
  obtain ⟨o, ho, switch, hx, hr⟩ := relays
  obtain ⟨source, target, y, t, fits⟩ := complete.switches ho switch
  rw [fits.input, List.mem_singleton] at hx
  rw [fits.output, List.mem_singleton] at hr
  exact ⟨o, source, target, ho, hx ▸ hr ▸ fits⟩

/-- What reads a variable across platforms is a consumer of a crossing of the list. -/
def Covered (g : Graph α) (l : List Dispatch.Crossing) : Prop :=
  ∀ {source target var q}, g.MadeOn source var → g.SitsOn target q → g.Reads q var →
    source ≠ target → ∃ c ∈ l, c.var = var ∧ c.target = target ∧ q ∈ c.consumers

theorem covered_crossings (hg : g.Linked) : g.Covered (Dispatch.crossings g) := by
  intro source target var q made sits reads distinct
  obtain ⟨v, hv⟩ := mem_vars_iff.1 (hg.reads_known reads)
  obtain ⟨c, hc, sort, consumes⟩ := Dispatch.exists_crossing hg hv made sits reads distinct
  have name := (Dispatch.crossingsOf_spec hg hv hc).1
  exact ⟨c, Dispatch.mem_crossings.2 ⟨var, v, hv, hc⟩, name, sort, consumes⟩

theorem Relayed.covered {c : Dispatch.Crossing} {l : List Dispatch.Crossing} {s r : String}
    (h : Relayed g g' c s r) (covered : g.Covered (c :: l)) : g'.Covered l := by
  intro source target var q made sits reads distinct
  obtain ⟨reads, kept⟩ := h.reads_directly made sits reads
  obtain ⟨d, hd, hvar, ht, consumes⟩ := covered (h.sameFlow.madeOn_iff.1 made)
    (h.sameFlow.sitsOn_iff.1 sits) reads distinct
  rcases List.mem_cons.1 hd with rfl | hd
  · exact absurd ⟨consumes, hvar.symm⟩ kept
  · exact ⟨d, hd, hvar, ht, consumes⟩

section Relays

variable {l : List Dispatch.Crossing}

theorem RelayedAll.sameFlow (h : RelayedAll l g g') (hg : g.Sound) :
    g'.Sound ∧ SameFlow g g' := by
  induction h with
  | nil => exact ⟨hg, .refl hg⟩
  | cons relayed _ ih =>
    obtain ⟨sound, flow⟩ := ih relayed.sound
    exact ⟨sound, relayed.sameFlow.trans relayed.sound flow⟩

theorem RelayedAll.settled (h : RelayedAll l g g')
    (settled : ∀ s o, g.getOperation? s = some o → o.isSwitch = true → g.Settled o) :
    ∀ s o, g'.getOperation? s = some o → o.isSwitch = true → g'.Settled o := by
  induction h with
  | nil => exact settled
  | cons relayed _ ih => exact ih fun s o => relayed.settled settled

theorem RelayedAll.covered (h : RelayedAll l g g') (covered : g.Covered l) : g'.Covered [] := by
  induction h with
  | nil => exact covered
  | cons relayed _ ih => exact ih (relayed.covered covered)

theorem RelayedAll.sheltered (h : RelayedAll l g g') (hg : g.Sheltered) : g'.Sheltered := by
  induction h with
  | nil => exact hg
  | cons relayed _ ih => exact ih (relayed.sheltered hg)

end Relays

/-- Settled switches of a sheltered graph without crossings. -/
theorem boundaryComplete (covered : g.Covered []) (sheltered : g.Sheltered)
    (settled : ∀ s o, g.getOperation? s = some o → o.isSwitch = true → g.Settled o) :
    g.BoundaryComplete where
  direct {p q var o o'} ho unswitched ho' unswitched' made reads := by
    by_cases same : o.platform = o'.platform
    · exact same
    · obtain ⟨c, hc, -⟩ := covered ⟨p, ⟨o, ho, made⟩, o, ho, unswitched, rfl⟩
        ⟨o', ho', unswitched', rfl⟩ ⟨o', ho', reads⟩ same
      cases hc
  switches {s o} ho switch := by
    rcases settled s o ho switch with exposed | fits
    · exact absurd exposed (sheltered s o ho switch)
    · exact fits

end Graph

namespace Dispatch

open GraphDispatch.Graph

/-- What inserting switches does to a sound graph. -/
theorem Reswitched.spec {h : Graph α} (hg : g.Sound) (way : Reswitched g h g') :
    g'.Sound ∧ SameFlow g g' ∧ (g.Sheltered → g'.BoundaryComplete) := by
  obtain ⟨-, thin⟩ := way.thinned.sameFlow hg
  obtain ⟨sound, flow⟩ := way.relayed.sameFlow way.sound
  refine ⟨sound, thin.trans way.sound flow, fun sheltered => ?_⟩
  have covered : g'.Covered [] := way.relayed.covered (covered_crossings way.sound.linked)
  have sheltered := way.relayed.sheltered (way.thinned.keeps Spliced.sheltered sheltered)
  exact boundaryComplete covered sheltered (way.relayed.settled way.settled)

variable [Scalar α]

/-- Inserting switches succeeds and leaves no crossing and no switch that does not fit, for
every assignment of platforms. -/
theorem insertSwitches_completes (reachable : Reachable g) (acyclic : g.Acyclic)
    (ports : g.SinglePorts) (sheltered : g.Sheltered) (platforms : String → Platform) :
    Task.Leads insertSwitches (g.assign platforms) fun _ g' => g'.BoundaryComplete := by
  have sound : g.Sound := ⟨reachable.linked, acyclic, ports⟩
  refine (insertSwitches_leads (sound.assign platforms)).mono ?_
  rintro n g' ⟨h, way⟩
  obtain ⟨-, -, complete⟩ := way.spec (sound.assign platforms)
  exact complete (sheltered.assign platforms)

/-- A variable is read through a switch and beside it. -/
def detour : List (Action Float32) :=
  [.createVariable "x" none, .createVariable "y" none, .createVariable "z" none,
    .createVariable "x.relay" none, .createOperation "conv" "Conv" ∅ [] ["x"],
    .createOperation "switch" switchType (switchAttributes .fp32 .shapeOrIndex) ["x"] ["x.relay"],
    .createOperation "add" "Add" ∅ ["x.relay", "x"] ["y"],
    .createOperation "relu" "Relu" ∅ ["x"] ["z"], .markOutput "y"]

def detoured : Graph Float32 := performAll (.empty "net") detour

theorem detoured_acyclic : detoured.Acyclic := by
  have ranked : detoured.Ranked fun op => ["conv", "switch", "add", "relu"].idxOf op := by decide
  exact ranked.acyclic

/-- The switch fits no longer once its source has moved. -/
theorem insertSwitches_completes_detoured :
    Task.Leads insertSwitches (detoured.assign fun op => if op = "conv" then .unspecified else .fp32)
      fun _ g' => g'.BoundaryComplete :=
  insertSwitches_completes ⟨_, detour, .empty "net", rfl⟩ detoured_acyclic (by decide) (by decide) _

/-- Inserting switches succeeds and changes nothing but switches: every other operation reads
variables of the same origins, and the graph returns the same variables. -/
theorem insertSwitches_keeps_flow (reachable : Reachable g) (acyclic : g.Acyclic)
    (ports : g.SinglePorts) (platforms : String → Platform) :
    Task.Leads insertSwitches (g.assign platforms) fun _ g' =>
      SameFlow (g.assign platforms) g' := by
  have sound : g.Sound := ⟨reachable.linked, acyclic, ports⟩
  refine (insertSwitches_leads (sound.assign platforms)).mono ?_
  rintro n g' ⟨h, way⟩
  exact (way.spec (sound.assign platforms)).2.1

/-- Here the operations behind the switch are where it leads to. -/
theorem insertSwitches_keeps_flow_detoured :
    Task.Leads insertSwitches (detoured.assign fun op => if op = "add" then .shapeOrIndex else .fp32)
      fun _ g' => SameFlow
        (detoured.assign fun op => if op = "add" then .shapeOrIndex else .fp32) g' :=
  insertSwitches_keeps_flow ⟨_, detour, .empty "net", rfl⟩ detoured_acyclic (by decide) _

end Dispatch

end GraphDispatch
