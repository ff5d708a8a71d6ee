import GraphDispatch.Proofs.Links.Operations
import GraphDispatch.Proofs.Switches.Fitting

/-!
# Taking a switch out

What read the relay of a switch reads its input again. Origins stay as they are, and
so do the switches that fit.
-/

namespace GraphDispatch

variable {α : Type} {g g' : Graph α} {s x r : String}

/-- The content without the switch `s` from `x` to `r`. -/
def Content.splice (c : Content α) (s x r : String) : Content α where
  name := c.name
  operations := (c.operations.erase s).mapEntries fun _ o => o.redirect r x
  declarations := c.declarations.erase r
  inputs := c.inputs.filter (· ≠ r)
  outputs := c.outputs.filter (· ≠ r)

namespace Dispatch

/-- What a switch that is gone produced is named nowhere once it is redirected. -/
theorem unlinked_of_redirected (hg : g.Linked) (produces : g.Produces s r) (hne : x ≠ r)
    (operations : g'.operations = (g.operations.erase s).mapEntries fun _ o => o.redirect r x) :
    Edit.Unlinked g' r := by
  have back : ∀ n p, g'.getOperation? n = some p →
      ∃ q, n ≠ s ∧ g.getOperation? n = some q ∧ q.redirect r x = p := by
    intro n p hp
    rw [Graph.getOperation?, operations] at hp
    obtain ⟨q, hq, rfl⟩ := NameMap.get?_mapEntries_eq_some.1 hp
    rw [NameMap.get?_erase] at hq
    split at hq
    · cases hq
    · exact ⟨q, ‹n ≠ s›, hq, rfl⟩
  intro n
  constructor
  · rintro ⟨p, hp, hr⟩
    obtain ⟨q, -, -, rfl⟩ := back n p hp
    exact Operation.not_mem_redirect hne q hr
  · rintro ⟨p, hp, hr⟩
    obtain ⟨q, hns, hq, rfl⟩ := back n p hp
    exact hns (hg.produces_unique ⟨q, hq, hr⟩ produces)

theorem removeSwitch_yields (hg : g.Linked) {o : Operation α} (ho : g.getOperation? s = some o)
    (input : x ∈ o.inputs) (output : r ∈ o.outputs) (unread : r ∉ o.inputs) :
    Edit.Yields (removeSwitch s x r) g () (g.content.splice s x r) := by
  have produces : g.Produces s r := ⟨o, ho, output⟩
  have hne : x ≠ r := fun e => unread (e ▸ input)
  obtain ⟨v, hv⟩ := Graph.mem_vars_iff.1 (hg.produces_known produces)
  obtain ⟨h, run, linked, content⟩ := Edit.removeOperation_yields hg ho
  have operations : h.operations = g.operations.erase s := congrArg Content.operations content
  have vars : ∀ n, n ∈ h.vars ↔ n ∈ g.vars := fun n => Graph.mem_vars_congr (by rw [content])
  -- the switch itself is no consumer of its relay
  have readers : ∀ n, n ∈ v.consumerNames ↔ h.Reads n r := by
    intro n
    rw [hg.mem_consumerNames hv, Graph.Reads, Graph.Reads, Graph.getOperation?, Graph.getOperation?,
      operations, NameMap.get?_erase]
    by_cases hn : n = s
    · have look : g.operations.get? s = some o := ho
      subst hn
      simp [look, unread]
    · rw [if_neg hn]
  obtain ⟨k, run', linked', content'⟩ := Edit.redirectAll_yields linked v.consumerNames_nodup
    readers ((vars x).2 (hg.input_known ho input))
  have redirected : k.operations = (g.operations.erase s).mapEntries fun _ p => p.redirect r x :=
    (congrArg Content.operations content').trans (by rw [operations])
  have known : r ∈ k.vars :=
    (Graph.mem_vars_congr (by rw [content'])).2 ((vars r).2 (hg.produces_known produces))
  obtain ⟨w, k', run'', linked'', content''⟩ := Edit.removeVariable_yields linked' known
    (unlinked_of_redirected hg produces hne redirected)
  refine ⟨k', ?_, linked'', ?_⟩
  · simp only [removeSwitch, run_bind, run_get, hv, Option.map_some, Option.getD_some,
      discard_of_ok run, run', discard_of_ok run'']
  · have name : k.content.name = g.content.name := by rw [content', content]
    have declarations : k.content.declarations = g.content.declarations := by rw [content', content]
    have inputs : k.content.inputs = g.content.inputs := by rw [content', content]
    have outputs : k.content.outputs = g.content.outputs := by rw [content', content]
    rw [content'']
    change (⟨k.content.name, k.operations, k.content.declarations.erase r,
      k.content.inputs.filter (· ≠ r), k.content.outputs.filter (· ≠ r)⟩ : Content α) = _
    rw [name, redirected, declarations, inputs, outputs]
    rfl

end Dispatch

namespace Graph

/-- `g'` is `g` without the operation `s`; what read `r` of it reads `x` of its inputs. -/
structure Bypassed (g g' : Graph α) (s x r : String) : Prop where
  linked : g.Linked
  after : g'.Linked
  reads : g.Reads s x
  produces : g.Produces s r
  content : g'.content = g.content.splice s x r

namespace Bypassed

variable (h : Bypassed g g' s x r)
include h

theorem getOperation?_eq_some {n : String} {p : Operation α} :
    g'.getOperation? n = some p ↔
      n ≠ s ∧ ∃ q, g.getOperation? n = some q ∧ q.redirect r x = p := by
  have operations : g'.operations = (g.operations.erase s).mapEntries fun _ o => o.redirect r x :=
    congrArg Content.operations h.content
  rw [getOperation?, operations, NameMap.get?_mapEntries_eq_some, NameMap.get?_erase]
  by_cases hn : n = s <;> simp [hn, getOperation?]

theorem produces_iff {n var : String} : g'.Produces n var ↔ n ≠ s ∧ g.Produces n var := by
  unfold Produces
  constructor
  · rintro ⟨p, hp, hvar⟩
    obtain ⟨hn, q, hq, rfl⟩ := h.getOperation?_eq_some.1 hp
    exact ⟨hn, q, hq, hvar⟩
  · rintro ⟨hn, q, hq, hvar⟩
    exact ⟨q.redirect r x, h.getOperation?_eq_some.2 ⟨hn, q, hq, rfl⟩, hvar⟩

theorem reads_iff {n var : String} :
    g'.Reads n var ↔ n ≠ s ∧ (g.Reads n var ∧ var ≠ r ∨ var = x ∧ g.Reads n r) := by
  constructor
  · rintro ⟨p, hp, hvar⟩
    obtain ⟨hn, q, hq, rfl⟩ := h.getOperation?_eq_some.1 hp
    refine ⟨hn, ?_⟩
    rcases Operation.mem_redirect.1 hvar with ⟨hvar, hne⟩ | ⟨rfl, hr⟩
    · exact Or.inl ⟨⟨q, hq, hvar⟩, hne⟩
    · exact Or.inr ⟨rfl, q, hq, hr⟩
  · rintro ⟨hn, ⟨⟨q, hq, hvar⟩, hne⟩ | ⟨rfl, q, hq, hr⟩⟩
    · exact ⟨q.redirect r x, h.getOperation?_eq_some.2 ⟨hn, q, hq, rfl⟩,
        Operation.mem_redirect.2 (Or.inl ⟨hvar, hne⟩)⟩
    · exact ⟨q.redirect r var, h.getOperation?_eq_some.2 ⟨hn, q, hq, rfl⟩,
        Operation.mem_redirect.2 (Or.inr ⟨rfl, hr⟩)⟩

/-- What fed the operation feeds what the operation fed. -/
theorem feeds {p q : String} (edge : g'.Feeds p q) :
    g.Feeds p q ∨ ∃ m, g.Feeds p m ∧ g.Feeds m q := by
  obtain ⟨var, produces, reads⟩ := h.after.feeds_iff.1 edge
  have made := (h.produces_iff.1 produces).2
  obtain ⟨-, ⟨reads, -⟩ | ⟨rfl, reads⟩⟩ := h.reads_iff.1 reads
  · exact Or.inl (h.linked.feeds_iff.2 ⟨var, made, reads⟩)
  · exact Or.inr ⟨s, h.linked.feeds_iff.2 ⟨var, made, h.reads⟩,
      h.linked.feeds_iff.2 ⟨r, h.produces, reads⟩⟩

theorem acyclic (acyclic : g.Acyclic) : g'.Acyclic := by
  obtain ⟨rank, ranked⟩ := h.linked.acyclic_iff_ranked.1 acyclic
  exact (ranked.shorten fun p q => h.feeds).acyclic

end Bypassed

/-- `g'` is `g` without the switch `o`, which does not read its relay `r` and which the graph
does not return. It may have more inputs and outputs. -/
structure Dropped (g g' : Graph α) (o : Operation α) (s x r : String) : Prop extends
    Bypassed g g' s x r where
  found : g.getOperation? s = some o
  switch : o.isSwitch = true
  input : o.inputs.head? = some x
  output : o.outputs.head? = some r
  unread : r ∉ o.inputs
  hidden : ¬g.Exposed o

namespace Dropped

variable {o : Operation α} (h : Dropped g g' o s x r)
include h

theorem ne : x ≠ r := fun e => h.unread (e ▸ List.mem_of_head? h.input)

theorem outputs : g'.outputs = g.outputs := by
  have filtered : g'.outputs = g.outputs.filter (· ≠ r) := congrArg Content.outputs h.content
  rw [filtered, List.filter_eq_self]
  intro var returned
  apply decide_eq_true
  rintro rfl
  exact h.hidden ⟨var, List.mem_of_head? h.output, returned⟩

theorem seats : SameSeats g g' where
  kept n p hp unswitched := by
    have other : n ≠ s := by
      rintro rfl
      cases hp.symm.trans h.found
      simp [h.switch] at unswitched
    exact ⟨p.redirect r x, h.getOperation?_eq_some.2 ⟨other, p, hp, rfl⟩, unswitched, rfl, rfl⟩
  only n p hp unswitched := by
    obtain ⟨-, q, hq, rfl⟩ := h.getOperation?_eq_some.1 hp
    exact ⟨q, hq, unswitched⟩

/-- A switch between two platforms reads no relay and is read by no switch, so it has nothing
to do with the one that goes. -/
theorem bridges {n y t : String} {p : Operation α} {source target : Platform}
    (hp : g.getOperation? n = some p) (hn : n ≠ s) (bridges : g.Bridges p source target y t) :
    g'.Bridges (p.redirect r x) source target y t := by
  have hy : y ≠ r :=
    bridges.made.ne_relay h.linked h.found h.switch (List.mem_of_head? h.output)
  have ht : t ≠ r := by
    rintro rfl
    exact hn (h.linked.produces_unique ⟨p, hp, List.mem_of_head? bridges.output⟩ h.produces)
  have ahead : t ≠ x := by
    rintro rfl
    exact (bridges.readers s h.reads).ne_switch h.found h.switch rfl
  have readers : ∀ q, g'.Reads q t ↔ q ≠ s ∧ g.Reads q t := by
    intro q
    rw [h.reads_iff]
    simp [ht, ahead]
  constructor
  case platforms => exact bridges.platforms
  case distinct => exact bridges.distinct
  case input => simp [Operation.redirect, bridges.input, hy]
  case output => exact bridges.output
  case made => exact h.seats.madeOn_iff.2 bridges.made
  case read =>
    obtain ⟨q, hq⟩ := bridges.read
    have other : q ≠ s := (bridges.readers q hq).ne_switch h.found h.switch
    exact ⟨q, (readers q).2 ⟨other, hq⟩⟩
  case readers =>
    intro q hq
    exact h.seats.sitsOn_iff.2 (bridges.readers q ((readers q).1 hq).2)

end Dropped

/-- `g'` is `g` without the switch `s` from `x` to `r`, which the graph does not return. -/
structure Spliced (g g' : Graph α) (s x r : String) : Prop extends Bypassed g g' s x r where
  before : g.Sound
  switch : ∃ o, g.getOperation? s = some o ∧ o.isSwitch = true ∧ o.inputs = [x] ∧ o.outputs = [r]
  hidden : r ∉ g.outputs

namespace Spliced

variable (h : Spliced g g' s x r)
include h

theorem relays : g.Relays s x r := by
  obtain ⟨o, ho, switch, input, output⟩ := h.switch
  exact ⟨o, ho, switch, by simp [input], by simp [output]⟩

theorem ne : x ≠ r := h.before.relay_ne h.relays

theorem dropped : ∃ o, Dropped g g' o s x r := by
  obtain ⟨o, ho, switch, input, output⟩ := h.switch
  refine ⟨o, h.toBypassed, ho, switch, by simp [input], by simp [output], ?_, ?_⟩
  · simpa [input] using h.ne.symm
  · rintro ⟨t, ht, returned⟩
    rw [output, List.mem_singleton] at ht
    exact h.hidden (ht ▸ returned)

theorem outputs : g'.outputs = g.outputs := by
  obtain ⟨o, dropped⟩ := h.dropped
  exact dropped.outputs

theorem ports : g'.SinglePorts := by
  intro n p hp switch
  obtain ⟨-, q, hq, rfl⟩ := h.getOperation?_eq_some.1 hp
  obtain ⟨y, t, input, output⟩ := h.before.ports n q hq switch
  exact ⟨if y = r then x else y, t, by simp [Operation.redirect, input], output⟩

theorem sound : g'.Sound := ⟨h.after, h.acyclic h.before.acyclic, h.ports⟩

theorem genuine {var : String} (genuine : g.Genuine var) : g'.Genuine var := by
  intro n p hp hvar
  obtain ⟨-, q, hq, rfl⟩ := h.getOperation?_eq_some.1 hp
  exact genuine n q hq hvar

theorem origin {var root : String} (origin : g.Origin var root) :
    g'.Origin (if var = r then x else var) root := by
  induction origin with
  | @here var genuine =>
    have hne : var ≠ r := by
      rintro rfl
      exact h.relays.not_genuine genuine
    rw [if_neg hne]
    exact .here (h.genuine genuine)
  | @back n y var root relays _ ih =>
    by_cases hvar : var = r
    · subst hvar
      obtain ⟨rfl, rfl⟩ := h.before.ports.relays_unique h.before.linked relays h.relays
      rw [if_neg h.ne] at ih
      rw [if_pos rfl]
      exact ih
    · rw [if_neg hvar]
      obtain ⟨q, hq, switch, hy, hout⟩ := relays
      have hn : n ≠ s := by
        rintro rfl
        obtain ⟨o, ho, -, -, output⟩ := h.switch
        rw [hq] at ho
        cases ho
        rw [output, List.mem_singleton] at hout
        exact hvar hout
      refine .back ⟨q.redirect r x, h.getOperation?_eq_some.2 ⟨hn, q, hq, rfl⟩, switch, ?_, hout⟩ ih
      exact List.mem_map_of_mem hy

theorem sameOrigin (var : String) : SameOrigin g g' var (if var = r then x else var) := by
  obtain ⟨root, origin⟩ := h.before.exists_origin var
  exact ⟨root, origin, h.origin origin⟩

theorem sameWork (o : Operation α) : SameWork g g' o (o.redirect r x) where
  type := rfl
  attributes := rfl
  platform := rfl
  outputs := rfl
  inputs := List.forall₂_map_right_iff.2 (List.forall₂_same.2 fun var _ => h.sameOrigin var)

theorem sameFlow : SameFlow g g' where
  kept n o ho switch := by
    have hn : n ≠ s := by
      rintro rfl
      obtain ⟨o', ho', switch', -⟩ := h.switch
      rw [ho] at ho'
      cases ho'
      rw [switch] at switch'
      cases switch'
    exact ⟨_, h.getOperation?_eq_some.2 ⟨hn, o, ho, rfl⟩, h.sameWork o⟩
  only n o' ho' switch := by
    obtain ⟨-, o, ho, rfl⟩ := h.getOperation?_eq_some.1 ho'
    exact ⟨o, ho, switch⟩
  outputs := h.outputs
  output_origins var hvar := by
    have hne : var ≠ r := fun e => h.hidden (e ▸ hvar)
    have same := h.sameOrigin var
    rw [if_neg hne] at same
    exact same

/-- A switch that fits is neither in front of the other switch nor behind it. -/
theorem fits {n y t : String} {o : Operation α} {source target : Platform}
    (ho : g.getOperation? n = some o) (hn : n ≠ s) (fits : g.Fits o source target y t) :
    g'.getOperation? n = some o ∧ g'.Fits o source target y t := by
  obtain ⟨p, dropped⟩ := h.dropped
  have hy : y ≠ r := fits.made.ne_relay h.linked dropped.found dropped.switch
    (List.mem_of_head? dropped.output)
  have same : o.redirect r x = o := Operation.redirect_of_not_mem (by simpa [fits.input] using hy.symm)
  have bridges := dropped.bridges ho hn fits.bridges
  rw [same] at bridges
  exact ⟨h.getOperation?_eq_some.2 ⟨hn, o, ho, same⟩, bridges.fits fits.input fits.output⟩

/-- The switches that stay are settled if they were before. -/
theorem settled {n : String} {p : Operation α} (hp : g'.getOperation? n = some p)
    (settled : ∀ o, g.getOperation? n = some o → g.Settled o) : g'.Settled p := by
  obtain ⟨hn, o, ho, rfl⟩ := h.getOperation?_eq_some.1 hp
  rcases settled o ho with ⟨t, ht, returned⟩ | ⟨source, target, y, t, fits⟩
  · exact Or.inl ⟨t, ht, h.outputs ▸ returned⟩
  · obtain ⟨same, fits'⟩ := h.fits ho hn fits
    exact Or.inr ⟨source, target, y, t, Option.some.inj (same.symm.trans hp) ▸ fits'⟩

end Spliced

end Graph

end GraphDispatch
