import GraphDispatch.Proofs.Switches.Boundary
import GraphDispatch.Proofs.Switches.Dropped

/-!
# Crossings on any graph

The relaying of a crossing on a graph that may have cycles and switches of any shape. The
switch that serves a crossing may read other variables first; where it leads to is all that
the other switches and crossings depend on.
-/

namespace GraphDispatch

variable {α : Type} {g g' : Graph α} {c d : Dispatch.Crossing} {r n var : String}
  {p : Operation α}

namespace Graph

/-- The graph has what the crossing says, with a switch of any shape. -/
structure Due (g : Graph α) (c : Dispatch.Crossing) : Prop where
  made : g.MadeOn c.source c.var
  distinct : c.source ≠ c.target
  consumed : c.consumers ≠ []
  nodup : c.consumers.Nodup
  consumers : ∀ q ∈ c.consumers, g.Reads q c.var ∧ g.SitsOn c.target q
  relay : ∀ r, c.relay = some r →
    ∃ s o source x, g.getOperation? s = some o ∧ g.Bridges o source c.target x r

theorem Due.waiting (due : g.Due c) (hg : g.Linked) : g.Waiting c where
  known := due.made.known hg
  nodup := due.nodup
  reads q hq := (due.consumers q hq).1
  relay r relay := by
    obtain ⟨s, o, source, x, ho, bridges⟩ := due.relay r relay
    exact hg.output_known ho (List.mem_of_head? bridges.output)

/-- The consumers of the crossing read `r` in `g'`, which a switch of `g` makes or a new one. -/
structure Handed (g g' : Graph α) (c : Dispatch.Crossing) (r : String) : Prop extends
    Rerouted g g' c r where
  before : g.Linked
  due : g.Due c
  origin : (∃ s o source x, g.getOperation? s = some o ∧ g.Bridges o source c.target x r) ∨
    r ∉ g.vars
  fresh : ∀ n p, g'.getOperation? n = some p → n ∉ g.operations →
    p = Dispatch.switchOn c n r ∧ r ∉ g.vars
  outputs : g'.outputs = g.outputs

theorem isSwitch_switchOn (c : Dispatch.Crossing) (n r : String) :
    (Dispatch.switchOn c n r : Operation α).isSwitch = true := decide_eq_true rfl

/-- What a switch makes no other operation makes. -/
theorem Bridges.not_madeOn {source target platform : Platform} {x : String}
    (bridges : g.Bridges p source target x r) (hg : g.Linked) (hp : g.getOperation? n = some p) :
    ¬g.MadeOn platform r := by
  intro made
  exact made.ne_relay hg hp bridges.isSwitch (List.mem_of_head? bridges.output) rfl

namespace Handed

variable (h : Handed g g' c r)
include h

theorem not_madeOn {platform : Platform} : ¬g.MadeOn platform r := by
  rcases h.origin with ⟨s, o, source, x, ho, bridges⟩ | unknown
  · exact bridges.not_madeOn h.before ho
  · exact fun made => unknown (made.known h.before)

theorem unconsumed (hp : g.getOperation? n = some p) (switch : p.isSwitch = true) :
    n ∉ c.consumers := by
  intro consumes
  exact (h.due.consumers n consumes).2.ne_switch hp switch rfl

theorem keeps_switch (hp : g.getOperation? n = some p) (switch : p.isSwitch = true) :
    g'.getOperation? n = some p := by
  rw [h.others n p hp, if_neg (h.unconsumed hp switch)]

/-- What `g'` has is rerouted, or it is the switch that is new. -/
theorem stems (hp : g'.getOperation? n = some p) :
    (∃ o, g.getOperation? n = some o ∧
      (if n ∈ c.consumers then o.redirect c.var r else o) = p) ∨
    n ∉ g.operations ∧ p = Dispatch.switchOn c n r ∧ r ∉ g.vars := by
  by_cases known : n ∈ g.operations
  · obtain ⟨o, ho⟩ := mem_operations_iff.1 known
    exact Or.inl ⟨o, ho, Option.some.inj ((h.others n o ho).symm.trans hp)⟩
  · exact Or.inr ⟨known, h.fresh n p hp known⟩

theorem seats : SameSeats g g' where
  kept n o ho unswitched := by
    refine ⟨_, h.others n o ho, ?_⟩
    split <;> exact ⟨unswitched, rfl, rfl⟩
  only n p hp unswitched := by
    rcases h.stems hp with ⟨o, ho, rfl⟩ | ⟨-, rfl, -⟩
    · refine ⟨o, ho, ?_⟩
      split at unswitched <;> exact unswitched
    · simp [isSwitch_switchOn] at unswitched

theorem of_switch (hp : g'.getOperation? n = some p) (switch : p.isSwitch = true) :
    g.getOperation? n = some p ∨ n ∉ g.operations := by
  rcases h.stems hp with ⟨o, ho, rfl⟩ | new
  · have switch' : o.isSwitch = true := by
      split at switch <;> exact switch
    rw [if_neg (h.unconsumed ho switch')]
    exact Or.inl ho
  · exact Or.inr new.1

theorem reads_relay (consumes : n ∈ c.consumers) : g'.Reads n r := by
  obtain ⟨⟨o, ho, hvar⟩, -⟩ := h.due.consumers n consumes
  refine ⟨_, h.others n o ho, ?_⟩
  rw [if_pos consumes]
  exact Operation.mem_redirect.2 (Or.inr ⟨rfl, hvar⟩)

theorem reads_of (reads : g'.Reads n var) :
    n ∉ g.operations ∧ var = c.var ∨ g.Reads n var ∧ ¬(n ∈ c.consumers ∧ var = c.var) ∨
      n ∈ c.consumers ∧ var = r := by
  obtain ⟨p, hp, hvar⟩ := reads
  rcases h.stems hp with ⟨o, ho, rfl⟩ | ⟨unknown, rfl, -⟩
  · right
    split at hvar
    · rcases Operation.mem_redirect.1 hvar with ⟨hvar, other⟩ | ⟨rfl, -⟩
      · exact Or.inl ⟨⟨o, ho, hvar⟩, fun both => other both.2⟩
      · exact Or.inr ⟨‹_›, rfl⟩
    · exact Or.inl ⟨⟨o, ho, hvar⟩, fun both => ‹n ∉ c.consumers› both.1⟩
  · exact Or.inl ⟨unknown, List.mem_singleton.1 hvar⟩

/-- Who reads the relay of a switch that was there. -/
theorem reads_output {source target : Platform} {x t : String} (hp : g.getOperation? n = some p)
    (bridges : g.Bridges p source target x t) {q : String} (reads : g'.Reads q t) :
    g.SitsOn target q := by
  have made : ∀ {platform}, ¬g.MadeOn platform t := bridges.not_madeOn h.before hp
  rcases h.reads_of reads with ⟨-, rfl⟩ | ⟨reads, -⟩ | ⟨consumes, rfl⟩
  · exact absurd h.due.made made
  · exact bridges.readers q reads
  · have known := h.before.output_known hp (List.mem_of_head? bridges.output)
    rcases h.origin with ⟨s, o, source', x', ho, bridges'⟩ | unknown
    · cases h.before.produces_unique ⟨p, hp, List.mem_of_head? bridges.output⟩
        ⟨o, ho, List.mem_of_head? bridges'.output⟩
      cases hp.symm.trans ho
      cases bridges.platforms.symm.trans bridges'.platforms
      exact (h.due.consumers q consumes).2
    · exact absurd known unknown

/-- The switches that lead from one platform to another still do. -/
theorem bridges {source target : Platform} {x t : String} (hp : g.getOperation? n = some p)
    (bridges : g.Bridges p source target x t) : g'.Bridges p source target x t where
  platforms := bridges.platforms
  distinct := bridges.distinct
  input := bridges.input
  output := bridges.output
  made := h.seats.madeOn_iff.2 bridges.made
  read := by
    obtain ⟨q, reads⟩ := bridges.read
    refine ⟨q, h.keeps_reads reads fun _ => ?_⟩
    rintro rfl
    exact bridges.not_madeOn h.before hp h.due.made
  readers q reads := h.seats.sitsOn_iff.2 (h.reads_output hp bridges reads)

/-- A new switch leads from one platform to another. -/
theorem new_bridges (hp : g'.getOperation? n = some p) (new : n ∉ g.operations) :
    g'.Bridges p c.source c.target c.var r := by
  obtain ⟨rfl, unknown⟩ := h.fresh n p hp new
  constructor
  case platforms => exact Operation.switchPlatforms?_of_attributes rfl rfl
  case distinct => exact h.due.distinct
  case input => rfl
  case output => rfl
  case made => exact h.seats.madeOn_iff.2 h.due.made
  case read =>
    obtain ⟨q, consumes⟩ := List.exists_mem_of_ne_nil _ h.due.consumed
    exact ⟨q, h.reads_relay consumes⟩
  case readers =>
    intro q reads
    rcases h.reads_of reads with ⟨-, rfl⟩ | ⟨reads, -⟩ | ⟨consumes, -⟩
    · exact absurd (h.due.made.known h.before) unknown
    · exact absurd (h.before.reads_known reads) unknown
    · exact h.seats.sitsOn_iff.2 (h.due.consumers q consumes).2

theorem tidy (tidy : g.Tidy) : g'.Tidy := by
  intro n p hp switch
  rcases h.of_switch hp switch with hp | new
  · cases tidy n p hp switch with
    | exposed exposed =>
      obtain ⟨t, ht, returned⟩ := exposed
      exact .exposed ⟨t, ht, h.outputs ▸ returned⟩
    | portless ports => exact .portless ports
    | bridging bridges => exact .bridging (h.bridges hp bridges)
  · exact .bridging (h.new_bridges hp new)

theorem covered {l : List Dispatch.Crossing} (covered : g.Covered (c :: l)) : g'.Covered l := by
  intro source target var q made sits reads distinct
  have made := h.seats.madeOn_iff.1 made
  have sits := h.seats.sitsOn_iff.1 sits
  rcases h.reads_of reads with ⟨unknown, -⟩ | ⟨reads, kept⟩ | ⟨-, rfl⟩
  · exact absurd sits.known unknown
  · obtain ⟨d, hd, hvar, ht, consumes⟩ := covered made sits reads distinct
    rcases List.mem_cons.1 hd with rfl | later
    · exact absurd ⟨consumes, hvar.symm⟩ kept
    · exact ⟨d, later, hvar, ht, consumes⟩
  · exact absurd made h.not_madeOn

/-- A crossing of another variable or to another platform is still due. -/
theorem keeps_due (due : g.Due d) (distinct : (d.var, d.target) ≠ (c.var, c.target)) :
    g'.Due d where
  made := h.seats.madeOn_iff.2 due.made
  distinct := due.distinct
  consumed := due.consumed
  nodup := due.nodup
  consumers q hq := by
    obtain ⟨reads, sits⟩ := due.consumers q hq
    refine ⟨h.keeps_reads reads fun consumes e => ?_, h.seats.sitsOn_iff.2 sits⟩
    have same := sits.unique (h.due.consumers q consumes).2
    exact distinct (by rw [e, same])
  relay t ht := by
    obtain ⟨s, o, source, x, ho, bridges⟩ := due.relay t ht
    exact ⟨s, o, source, x, h.keeps_switch ho bridges.isSwitch, h.bridges ho bridges⟩

end Handed

end Graph

namespace Dispatch

open GraphDispatch.Graph

theorem relay?_bridges (hg : g.Linked) {v : Variable α} {target : Platform}
    (h : relay? g v target = some r) :
    ∃ s o source x, g.getOperation? s = some o ∧ g.Bridges o source target x r := by
  obtain ⟨s, o, -, ho, fitting, leads, found⟩ := exists_of_relay? h
  obtain ⟨source, target', x, t, bridges⟩ := (isFitting_iff_bridges hg ho).1 fitting
  cases bridges.output.symm.trans found
  have same : target' = target := by simpa [bridges.platforms] using leads
  subst same
  exact ⟨s, o, source, x, ho, bridges⟩

theorem crossings_due (hg : g.Linked) (h : c ∈ crossings g) : g.Due c := by
  obtain ⟨var, v, hv, hc⟩ := mem_crossings.1 h
  obtain ⟨rfl, made, distinct, -, consumed, relay⟩ := crossingsOf_spec hg hv hc
  have waiting := crossings_waiting hg h
  exact ⟨made, distinct, consumed, waiting.nodup,
    fun q hq => ⟨waiting.reads q hq, crossings_sit hg h q hq⟩,
    fun r hr => relay?_bridges hg (relay ▸ hr)⟩

theorem relayCrossing_hands (hg : g.Linked) (due : g.Due c) :
    Task.Leads (relayCrossing c) g fun _ g' => ∃ r, Handed g g' c r := by
  have waiting := due.waiting hg
  unfold relayCrossing
  cases relay : c.relay with
  | some r =>
    obtain ⟨g', run, linked, content⟩ := joinRelay_yields hg waiting relay
    have operations : g'.operations = g.operations.mapEntries fun n o =>
        if n ∈ c.consumers then o.redirect c.var r else o := congrArg Content.operations content
    refine Task.leads_edit_bind run (Task.leads_pure ⟨r, .of_joined linked content, hg, due,
      Or.inl (due.relay r relay), fun n p hp new => ?_, congrArg Content.outputs content⟩)
    have known : n ∈ g'.operations := mem_operations_iff.2 ⟨p, hp⟩
    rw [operations, NameMap.mem_mapEntries] at known
    exact absurd known new
  | none =>
    obtain ⟨s, r, fresh, unknown, g', run, linked, content⟩ := insertSwitch_yields hg waiting
    have operations : g'.operations = (g.operations.mapEntries fun n o =>
        if n ∈ c.consumers then o.redirect c.var r else o).insert s (switchOn c s r) :=
      congrArg Content.operations content
    refine Task.leads_edit_bind run (Task.leads_note_bind (Task.leads_pure ⟨r,
      .of_inserted fresh linked content, hg, due, Or.inr unknown, fun n p hp new => ?_,
      congrArg Content.outputs content⟩))
    rw [getOperation?, operations, NameMap.get?_insert] at hp
    split at hp
    · subst n
      cases hp
      exact ⟨rfl, unknown⟩
    · obtain ⟨o, ho, -⟩ := NameMap.get?_mapEntries_eq_some.1 hp
      exact absurd (mem_operations_iff.2 ⟨o, ho⟩) new

/-- The crossings of the list are still to be relayed, and there are no others. -/
structure Owing (l : List Crossing) (g : Graph α) : Prop where
  linked : g.Linked
  tidy : g.Tidy
  due : ∀ c ∈ l, g.Due c
  pairwise : l.Pairwise fun c d => (c.var, c.target) ≠ (d.var, d.target)
  covered : g.Covered l

theorem Owing.start (hg : g.Linked) (tidy : g.Tidy) : Owing (crossings g) g where
  linked := hg
  tidy := tidy
  due _ hc := crossings_due hg hc
  pairwise := crossings_pairwise hg
  covered := covered_crossings hg

theorem Owing.next {l : List Crossing} (owing : Owing (c :: l) g) (handed : Handed g g' c r) :
    Owing l g' where
  linked := handed.linked
  tidy := handed.tidy owing.tidy
  due d hd := handed.keeps_due (owing.due d (List.mem_cons_of_mem _ hd))
    (List.rel_of_pairwise_cons owing.pairwise hd).symm
  pairwise := owing.pairwise.of_cons
  covered := handed.covered owing.covered

/-- What holds whenever a crossing is relayed holds in the end. -/
theorem relayCrossings_settle {P : Graph α → Prop} (hg : g.Linked) (tidy : g.Tidy)
    (hands : ∀ {k k' : Graph α} {c r}, Handed k k' c r → P k → P k') (start : P g) :
    Task.Ensures ((crossings g).foldlM
      (fun n c => return if ← relayCrossing c then n + 1 else n) 0 : Dispatching α Nat) g
      fun _ k => Owing [] k ∧ P k := by
  refine Task.Ensures.foldlM (fun l k => Owing l k ∧ P k) (fun n c l k state => ?_)
    ⟨.start hg tidy, start⟩
  obtain ⟨owing, holds⟩ := state
  have due := owing.due c List.mem_cons_self
  refine (relayCrossing_hands owing.linked due).ensures.bind fun new k' done => .pure ?_
  obtain ⟨r, handed⟩ := done
  exact ⟨owing.next handed, hands handed holds⟩

end Dispatch

end GraphDispatch
