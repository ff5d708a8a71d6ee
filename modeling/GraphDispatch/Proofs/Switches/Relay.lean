import GraphDispatch.Proofs.Links.Insertion
import GraphDispatch.Proofs.Switches.Splice

/-!
# Relaying a crossing

The consumers of a crossing read its variable through a switch, a new one or one that
is there already. Both cases change the graph alike (`Graph.Relayed`).
-/

namespace GraphDispatch

variable {α : Type} {g g' : Graph α} {c : Dispatch.Crossing} {s r : String}

namespace Graph

/-- The graph has what the crossing says. -/
structure Ready (g : Graph α) (c : Dispatch.Crossing) : Prop where
  made : g.MadeOn c.source c.var
  distinct : c.source ≠ c.target
  consumed : c.consumers ≠ []
  nodup : c.consumers.Nodup
  consumers : ∀ q ∈ c.consumers, g.Reads q c.var ∧ g.SitsOn c.target q
  relay : ∀ r, c.relay = some r →
    ∃ s o, g.getOperation? s = some o ∧ g.Fits o c.source c.target c.var r

/-- The graph has the links that the relaying of the crossing changes. -/
structure Waiting (g : Graph α) (c : Dispatch.Crossing) : Prop where
  known : c.var ∈ g.vars
  nodup : c.consumers.Nodup
  reads : ∀ q ∈ c.consumers, g.Reads q c.var
  relay : ∀ r, c.relay = some r → r ∈ g.vars

theorem MadeOn.known {platform : Platform} {x : String} (made : g.MadeOn platform x)
    (hg : g.Linked) : x ∈ g.vars := by
  obtain ⟨p, produces, -⟩ := made
  exact hg.produces_known produces

theorem Ready.waiting (ready : g.Ready c) (hg : g.Linked) : g.Waiting c where
  known := ready.made.known hg
  nodup := ready.nodup
  reads q hq := (ready.consumers q hq).1
  relay r relay := by
    obtain ⟨s, o, ho, fits⟩ := ready.relay r relay
    exact hg.produces_known (fits.relays ho).produces

/-- The consumers of a crossing read the relay `r` of the switch `s` in `g'`. -/
structure Relayed (g g' : Graph α) (c : Dispatch.Crossing) (s r : String) : Prop where
  before : g.Sound
  ready : g.Ready c
  after : g'.Linked
  switch : ∃ o, g'.getOperation? s = some o ∧
    o.switchPlatforms? = some (c.source, c.target) ∧ o.inputs = [c.var] ∧ o.outputs = [r]
  /-- The switch fitted before or is new. -/
  origin : (∃ o, g.getOperation? s = some o ∧ g'.getOperation? s = some o ∧
    g.Fits o c.source c.target c.var r) ∨ s ∉ g.operations ∧ r ∉ g.vars
  unrelayed : s ∉ g.operations → c.relay = none
  others : ∀ n, n ≠ s → g'.getOperation? n =
    (g.getOperation? n).map fun o => if n ∈ c.consumers then o.redirect c.var r else o
  inputs : g'.inputs = g.inputs
  outputs : g'.outputs = g.outputs
  declared : ∀ var ∈ g.vars,
    g'.content.declarations.get? var = g.content.declarations.get? var
  relays_activations : ∀ var d, g'.content.declarations.get? var = some d → var ∉ g.vars →
    d.isParameter = false

namespace Relayed

variable (h : Relayed g g' c s r)
include h

theorem isSwitch {o : Operation α} (ho : g'.getOperation? s = some o) : o.isSwitch = true := by
  obtain ⟨o', ho', platforms, -⟩ := h.switch
  rw [ho] at ho'
  cases ho'
  exact isSwitch_of_platforms platforms

theorem ne_switch {n : String} {o : Operation α} (ho : g.getOperation? n = some o)
    (unswitched : o.isSwitch = false) : n ≠ s := by
  rintro rfl
  rcases h.origin with ⟨o', ho', -, fits⟩ | ⟨unknown, -⟩
  · rw [ho] at ho'
    cases ho'
    rw [fits.isSwitch] at unswitched
    cases unswitched
  · exact unknown (mem_operations_iff.2 ⟨o, ho⟩)

theorem ne_of_sitsOn {platform : Platform} {n : String} (sits : g.SitsOn platform n) : n ≠ s := by
  obtain ⟨o, ho, unswitched, -⟩ := sits
  exact h.ne_switch ho unswitched

theorem eq_of_produces {var : String} (produces : g'.Produces s var) : var = r := by
  obtain ⟨o, ho, -, -, output⟩ := h.switch
  obtain ⟨p, hp, hvar⟩ := produces
  rw [hp] at ho
  cases ho
  rw [output, List.mem_singleton] at hvar
  exact hvar

theorem relays : g'.Relays s c.var r := by
  obtain ⟨o, ho, -, input, output⟩ := h.switch
  exact ⟨o, ho, h.isSwitch ho, by simp [input], by simp [output]⟩

theorem known : c.var ∈ g.vars := h.ready.made.known h.before.linked

/-- Before, the relay was the output of the switch or did not exist. -/
theorem relays_of_known (hr : r ∈ g.vars) : g.Relays s c.var r := by
  rcases h.origin with ⟨o, ho, -, fits⟩ | ⟨-, unknown⟩
  · exact fits.relays ho
  · exact absurd hr unknown

theorem ne : c.var ≠ r := by
  intro e
  have relays := h.relays_of_known (e ▸ h.known)
  exact relays.not_genuine (e ▸ h.ready.made.genuine h.before.linked)

/-- Switches other than the one of the crossing stay as they are. -/
theorem getOperation?_switch {n : String} {o : Operation α} (ho : g.getOperation? n = some o)
    (switch : o.isSwitch = true) : g'.getOperation? n = some o := by
  by_cases hn : n = s
  · subst hn
    rcases h.origin with ⟨o', ho', same, -⟩ | ⟨unknown, -⟩
    · rw [ho] at ho'
      cases ho'
      exact same
    · exact absurd (mem_operations_iff.2 ⟨o, ho⟩) unknown
  · rw [h.others n hn, ho, Option.map_some, if_neg]
    intro consumes
    obtain ⟨-, o', ho', unswitched, -⟩ := h.ready.consumers n consumes
    rw [ho] at ho'
    cases ho'
    rw [switch] at unswitched
    cases unswitched

/-- What `g'` has beside the switch. -/
theorem getOperation?_eq_some {n : String} {p : Operation α} (hn : n ≠ s) :
    g'.getOperation? n = some p ↔ ∃ o, g.getOperation? n = some o ∧
      (if n ∈ c.consumers then o.redirect c.var r else o) = p := by
  rw [h.others n hn, Option.map_eq_some_iff]

theorem produces_iff {n var : String} :
    g'.Produces n var ↔ g.Produces n var ∨ n = s ∧ var = r := by
  by_cases hn : n = s
  · subst hn
    constructor
    · exact fun produces => Or.inr ⟨rfl, h.eq_of_produces produces⟩
    · rintro (⟨o, ho, hvar⟩ | ⟨-, rfl⟩)
      · rcases h.origin with ⟨o', ho', same, -⟩ | ⟨unknown, -⟩
        · rw [ho] at ho'
          cases ho'
          exact ⟨o, same, hvar⟩
        · exact absurd (mem_operations_iff.2 ⟨o, ho⟩) unknown
      · exact h.relays.produces
  · have outputs : ∀ o : Operation α,
        (if n ∈ c.consumers then o.redirect c.var r else o).outputs = o.outputs := by
      intro o
      split <;> rfl
    constructor
    · rintro ⟨p, hp, hvar⟩
      obtain ⟨o, ho, rfl⟩ := (h.getOperation?_eq_some hn).1 hp
      exact Or.inl ⟨o, ho, outputs o ▸ hvar⟩
    · rintro (⟨o, ho, hvar⟩ | ⟨rfl, -⟩)
      · exact ⟨_, (h.getOperation?_eq_some hn).2 ⟨o, ho, rfl⟩, (outputs o).symm ▸ hvar⟩
      · exact absurd rfl hn

theorem reads_iff {n var : String} : g'.Reads n var ↔
    n = s ∧ var = c.var ∨ n ≠ s ∧ (g.Reads n var ∧ ¬(n ∈ c.consumers ∧ var = c.var) ∨
      n ∈ c.consumers ∧ var = r) := by
  by_cases hn : n = s
  · subst hn
    obtain ⟨o, ho, -, input, -⟩ := h.switch
    constructor
    · rintro ⟨p, hp, hvar⟩
      rw [hp] at ho
      cases ho
      rw [input, List.mem_singleton] at hvar
      exact Or.inl ⟨rfl, hvar⟩
    · rintro (⟨-, rfl⟩ | ⟨hn, -⟩)
      · exact h.relays.reads
      · exact absurd rfl hn
  · constructor
    · rintro ⟨p, hp, hvar⟩
      right
      obtain ⟨o, ho, rfl⟩ := (h.getOperation?_eq_some hn).1 hp
      refine ⟨hn, ?_⟩
      by_cases consumes : n ∈ c.consumers
      · rw [if_pos consumes] at hvar
        rcases Operation.mem_redirect.1 hvar with ⟨hvar, hne⟩ | ⟨rfl, -⟩
        · exact Or.inl ⟨⟨o, ho, hvar⟩, fun both => hne both.2⟩
        · exact Or.inr ⟨consumes, rfl⟩
      · rw [if_neg consumes] at hvar
        exact Or.inl ⟨⟨o, ho, hvar⟩, fun both => consumes both.1⟩
    · rintro (⟨rfl, -⟩ | ⟨-, ⟨⟨o, ho, hvar⟩, kept⟩ | ⟨consumes, rfl⟩⟩)
      · exact absurd rfl hn
      · refine ⟨_, (h.getOperation?_eq_some hn).2 ⟨o, ho, rfl⟩, ?_⟩
        by_cases consumes : n ∈ c.consumers
        · rw [if_pos consumes]
          exact Operation.mem_redirect.2 (Or.inl ⟨hvar, fun e => kept ⟨consumes, e⟩⟩)
        · rw [if_neg consumes]
          exact hvar
      · obtain ⟨⟨o, ho, hvar⟩, -⟩ := h.ready.consumers n consumes
        refine ⟨_, (h.getOperation?_eq_some hn).2 ⟨o, ho, rfl⟩, ?_⟩
        rw [if_pos consumes]
        exact Operation.mem_redirect.2 (Or.inr ⟨rfl, hvar⟩)

theorem ports : g'.SinglePorts := by
  intro n p hp switch
  by_cases hn : n = s
  · subst hn
    obtain ⟨o, ho, -, input, output⟩ := h.switch
    rw [hp] at ho
    cases ho
    exact ⟨c.var, r, input, output⟩
  · obtain ⟨o, ho, rfl⟩ := (h.getOperation?_eq_some hn).1 hp
    by_cases consumes : n ∈ c.consumers
    · rw [if_pos consumes] at switch ⊢
      obtain ⟨x, t, input, output⟩ := h.before.ports n o ho switch
      exact ⟨if x = c.var then r else x, t, by simp [Operation.redirect, input], output⟩
    · rw [if_neg consumes] at switch ⊢
      exact h.before.ports n o ho switch

/-- The switch may rank right above what produces the variable. -/
theorem acyclic : g'.Acyclic := by
  have linked := h.before.linked
  obtain ⟨rank, ranked⟩ := linked.acyclic_iff_ranked.1 h.before.acyclic
  obtain ⟨p, produces, sits⟩ := h.ready.made
  refine (ranked.relay (h.ne_of_sitsOn sits) (fun n (edge : g'.Feeds n s) => ?_) (fun n edge => ?_)
    fun m n hm hn edge => ?_).acyclic
  · obtain ⟨var, made, reads⟩ := h.after.feeds_iff.1 edge
    rcases h.reads_iff.1 reads with ⟨-, rfl⟩ | ⟨hne, -⟩
    · rcases h.produces_iff.1 made with made | ⟨-, e⟩
      · exact linked.produces_unique made produces
      · exact absurd e h.ne
    · exact absurd rfl hne
  · obtain ⟨var, made, reads⟩ := h.after.feeds_iff.1 edge
    cases h.eq_of_produces made
    rcases h.reads_iff.1 reads with ⟨-, e⟩ | ⟨-, ⟨reads, -⟩ | ⟨consumes, -⟩⟩
    · exact absurd e.symm h.ne
    · have relays := h.relays_of_known (linked.reads_known reads)
      have first := ranked p s (linked.feeds_iff.2 ⟨_, produces, relays.reads⟩)
      exact first.trans (ranked s n (linked.feeds_iff.2 ⟨_, relays.produces, reads⟩))
    · exact ranked p n (linked.feeds_iff.2 ⟨_, produces, (h.ready.consumers n consumes).1⟩)
  · obtain ⟨var, made, reads⟩ := h.after.feeds_iff.1 edge
    rcases h.produces_iff.1 made with produces | ⟨e, -⟩
    · rcases h.reads_iff.1 reads with ⟨e, -⟩ | ⟨-, ⟨reads, -⟩ | ⟨-, rfl⟩⟩
      · exact absurd e hn
      · exact linked.feeds_iff.2 ⟨var, produces, reads⟩
      · exact absurd (h.after.produces_unique made h.relays.produces) hm
    · exact absurd e hm

theorem sound : g'.Sound := ⟨h.after, h.acyclic, h.ports⟩

/-- The relay is all that is new among what switches produce. -/
theorem genuine {var : String} (genuine : g.Genuine var) (known : var ∈ g.vars) :
    g'.Genuine var := by
  intro n p hp hvar
  rcases h.produces_iff.1 ⟨p, hp, hvar⟩ with ⟨o, ho, hvar⟩ | ⟨-, rfl⟩
  · have unswitched := genuine n o ho hvar
    obtain ⟨q, hq, rfl⟩ := (h.getOperation?_eq_some (h.ne_switch ho unswitched)).1 hp
    rw [ho] at hq
    cases hq
    split <;> exact unswitched
  · exact absurd genuine (h.relays_of_known known).not_genuine

theorem keeps_relays {n x var : String} (relays : g.Relays n x var) : g'.Relays n x var := by
  obtain ⟨o, ho, switch, hx, hvar⟩ := relays
  exact ⟨o, h.getOperation?_switch ho switch, switch, hx, hvar⟩

theorem keeps_origin {var root : String} (origin : g.Origin var root) (known : var ∈ g.vars) :
    g'.Origin var root := by
  induction origin with
  | here genuine => exact .here (h.genuine genuine known)
  | back relays _ ih =>
    exact .back (h.keeps_relays relays) (ih (h.before.linked.reads_known relays.reads))

theorem sameOrigin {var : String} (known : var ∈ g.vars) : SameOrigin g g' var var := by
  obtain ⟨root, origin⟩ := h.before.exists_origin var
  exact ⟨root, origin, h.keeps_origin origin known⟩

theorem sameOrigin_relay : SameOrigin g g' c.var r := by
  obtain ⟨root, origin, origin'⟩ := h.sameOrigin h.known
  exact ⟨root, origin, .back h.relays origin'⟩

theorem sameWork {n : String} {o : Operation α} (ho : g.getOperation? n = some o) :
    SameWork g g' o (if n ∈ c.consumers then o.redirect c.var r else o) := by
  have same : ∀ var ∈ o.inputs, SameOrigin g g' var var :=
    fun var hvar => h.sameOrigin (h.before.linked.input_known ho hvar)
  split
  · refine ⟨rfl, rfl, rfl, rfl, List.forall₂_map_right_iff.2 (List.forall₂_same.2 fun var hvar => ?_)⟩
    split
    · rw [‹var = c.var›]
      exact h.sameOrigin_relay
    · exact same var hvar
  · exact ⟨rfl, rfl, rfl, rfl, List.forall₂_same.2 same⟩

theorem sameFlow : SameFlow g g' where
  kept n o ho unswitched := by
    have hn := h.ne_switch ho unswitched
    exact ⟨_, (h.getOperation?_eq_some hn).2 ⟨o, ho, rfl⟩, h.sameWork ho⟩
  only n p hp unswitched := by
    have hn : n ≠ s := by
      rintro rfl
      rw [h.isSwitch hp] at unswitched
      cases unswitched
    obtain ⟨o, ho, rfl⟩ := (h.getOperation?_eq_some hn).1 hp
    exact ⟨o, ho, (h.sameWork ho).isSwitch.symm.trans unswitched⟩
  outputs := h.outputs
  output_origins _ hvar := h.sameOrigin (h.before.linked.outputs_known _ hvar)

/-- The switch of the crossing fits now. -/
theorem fits {o : Operation α} (ho : g'.getOperation? s = some o) :
    g'.Fits o c.source c.target c.var r := by
  obtain ⟨o', ho', platforms, input, output⟩ := h.switch
  rw [ho] at ho'
  cases ho'
  have readers : ∀ q, g'.Reads q r → g.SitsOn c.target q := by
    intro q reads
    rcases h.reads_iff.1 reads with ⟨-, e⟩ | ⟨-, ⟨reads, -⟩ | ⟨consumes, -⟩⟩
    · exact absurd e.symm h.ne
    · rcases h.origin with ⟨o', ho', -, fits⟩ | ⟨-, unknown⟩
      · exact fits.readers q reads
      · exact absurd (h.before.linked.reads_known reads) unknown
    · exact (h.ready.consumers q consumes).2
  obtain ⟨q, hq⟩ := List.exists_mem_of_ne_nil _ h.ready.consumed
  have hqs := h.ne_of_sitsOn (h.ready.consumers q hq).2
  exact ⟨platforms, h.ready.distinct, input, output, h.sameFlow.madeOn_iff.2 h.ready.made,
    ⟨q, h.reads_iff.2 (Or.inr ⟨hqs, Or.inr ⟨hq, rfl⟩⟩)⟩,
    fun q hq => h.sameFlow.sitsOn_iff.2 (readers q hq)⟩

/-- The other switches that fit are left alone. -/
theorem keeps_fits {n x t : String} {o : Operation α} {source target : Platform}
    (ho : g.getOperation? n = some o) (fits : g.Fits o source target x t) :
    g'.Fits o source target x t := by
  by_cases hn : n = s
  · subst hn
    have ho' := h.getOperation?_switch ho fits.isSwitch
    obtain ⟨o', ho'', platforms, input, output⟩ := h.switch
    rw [ho'] at ho''
    cases ho''
    rw [fits.platforms] at platforms
    cases platforms
    cases fits.input.symm.trans input
    cases fits.output.symm.trans output
    exact h.fits ho'
  · have produces := (h.keeps_relays (fits.relays ho)).produces
    have htr : t ≠ r := by
      rintro rfl
      exact hn (h.after.produces_unique produces h.relays.produces)
    have htc : t ≠ c.var := by
      rintro rfl
      exact (fits.relays ho).not_genuine (h.ready.made.genuine h.before.linked)
    have readers : ∀ q, g'.Reads q t ↔ g.Reads q t := by
      intro q
      rw [h.reads_iff]
      constructor
      · rintro (⟨-, e⟩ | ⟨-, ⟨reads, -⟩ | ⟨-, e⟩⟩)
        · exact absurd e htc
        · exact reads
        · exact absurd e htr
      · intro reads
        exact Or.inr ⟨h.ne_of_sitsOn (fits.readers q reads), Or.inl ⟨reads, fun both => htc both.2⟩⟩
    obtain ⟨q, hq⟩ := fits.read
    exact ⟨fits.platforms, fits.distinct, fits.input, fits.output,
      h.sameFlow.madeOn_iff.2 fits.made, ⟨q, (readers q).2 hq⟩,
      fun q hq => h.sameFlow.sitsOn_iff.2 (fits.readers q ((readers q).1 hq))⟩

theorem of_switch {n : String} {p : Operation α} (hn : n ≠ s) (hp : g'.getOperation? n = some p)
    (switch : p.isSwitch = true) : g.getOperation? n = some p := by
  obtain ⟨o, ho, rfl⟩ := (h.getOperation?_eq_some hn).1 hp
  have switch' : o.isSwitch = true := (h.sameWork ho).isSwitch.symm.trans switch
  rw [h.getOperation?_switch ho switch'] at hp
  rw [← hp, ho]

theorem settled (settled : ∀ n o, g.getOperation? n = some o → o.isSwitch = true → g.Settled o)
    {n : String} {p : Operation α} (hp : g'.getOperation? n = some p) (switch : p.isSwitch = true) :
    g'.Settled p := by
  by_cases hn : n = s
  · subst hn
    exact Or.inr ⟨_, _, _, _, h.fits hp⟩
  · have hp := h.of_switch hn hp switch
    rcases settled n p hp switch with ⟨t, ht, returned⟩ | ⟨source, target, x, t, fits⟩
    · exact Or.inl ⟨t, ht, h.outputs ▸ returned⟩
    · exact Or.inr ⟨source, target, x, t, h.keeps_fits hp fits⟩

/-- A crossing of another variable or to another platform stays ready. -/
theorem keeps_ready {d : Dispatch.Crossing} (ready : g.Ready d)
    (distinct : (d.var, d.target) ≠ (c.var, c.target)) : g'.Ready d where
  made := h.sameFlow.madeOn_iff.2 ready.made
  distinct := ready.distinct
  consumed := ready.consumed
  nodup := ready.nodup
  consumers q hq := by
    obtain ⟨reads, sits⟩ := ready.consumers q hq
    refine ⟨h.reads_iff.2 (Or.inr ⟨h.ne_of_sitsOn sits, Or.inl ⟨reads, ?_⟩⟩),
      h.sameFlow.sitsOn_iff.2 sits⟩
    rintro ⟨consumes, e⟩
    have same := sits.unique (h.ready.consumers q consumes).2
    exact distinct (by rw [e, same])
  relay t ht := by
    obtain ⟨n, o, ho, fits⟩ := ready.relay t ht
    exact ⟨n, o, h.getOperation?_switch ho fits.isSwitch, h.keeps_fits ho fits⟩

/-- What still reads a variable across platforms has done so before and is not among the
consumers of the crossing. -/
theorem reads_directly {source target : Platform} {var q : String} (made : g'.MadeOn source var)
    (sits : g'.SitsOn target q) (reads : g'.Reads q var) :
    g.Reads q var ∧ ¬(q ∈ c.consumers ∧ var = c.var) := by
  rcases h.reads_iff.1 reads with ⟨rfl, -⟩ | ⟨-, kept | ⟨-, rfl⟩⟩
  · obtain ⟨p, hp, unswitched, -⟩ := sits
    rw [h.isSwitch hp] at unswitched
    cases unswitched
  · exact kept
  · exact absurd (made.genuine h.after) h.relays.not_genuine

end Relayed

end Graph

end GraphDispatch
