import GraphDispatch.Proofs.Switches.Fitting
import GraphDispatch.Proofs.Switches.Relay

/-!
# Crossings of a graph

The list of crossings has every pair of a variable and a platform that reads it from
elsewhere, once, and each crossing is ready to be relayed.
-/

namespace GraphDispatch.Dispatch

open GraphDispatch.Graph

variable {α : Type} {g : Graph α} {c : Crossing} {var : String} {v : Variable α}

theorem all_nodup : Platform.all.Nodup := by decide

/-- A relay is the output of a switch on the variable that fits and leads to the platform. -/
theorem exists_of_relay? {target : Platform} {r : String} (h : relay? g v target = some r) :
    ∃ s o, s ∈ v.consumerNames ∧ g.getOperation? s = some o ∧ isFitting g o = true ∧
      o.switchPlatforms?.map (·.2) = some target ∧ o.outputs.head? = some r := by
  unfold relay? at h
  obtain ⟨o, ho, found⟩ := List.exists_of_findSome?_eq_some h
  rw [List.mem_reverse, List.mem_filterMap] at ho
  obtain ⟨s, hs, ho⟩ := ho
  split at found
  · rename_i fitting
    rw [Bool.and_eq_true, decide_eq_true_eq] at fitting
    exact ⟨s, o, hs, ho, fitting.1, fitting.2, found⟩
  · cases found

theorem relay?_eq_some (hg : g.Sound) (hv : g.getVariable? var = some v) {target : Platform}
    {r : String} (h : relay? g v target = some r) :
    ∃ s o source, g.getOperation? s = some o ∧ g.Fits o source target var r := by
  obtain ⟨s, o, hs, ho, fitting, leads, found⟩ := exists_of_relay? h
  have switch : o.isSwitch = true := by
    obtain ⟨p, hp, -⟩ := Option.map_eq_some_iff.1 leads
    exact isSwitch_of_platforms hp
  obtain ⟨x, t, input, output⟩ := hg.ports s o ho switch
  obtain ⟨source, target', fits⟩ := (isFitting_iff hg.linked ho input output).1 fitting
  rw [fits.platforms, Option.map_some, Option.some.injEq] at leads
  rw [output, List.head?_cons, Option.some.injEq] at found
  subst found
  -- a switch that reads the variable has no other input
  obtain ⟨o', ho', hvar⟩ := (hg.linked.mem_consumerNames hv).1 hs
  rw [ho] at ho'
  cases ho'
  rw [input, List.mem_singleton] at hvar
  subst hvar
  exact ⟨s, o, source, ho, leads ▸ fits⟩

theorem relay?_eq_none (hg : g.Linked) (hv : g.getVariable? var = some v) {target : Platform}
    (h : relay? g v target = none) {s r : String} {o : Operation α} {source : Platform}
    (ho : g.getOperation? s = some o) : ¬g.Fits o source target var r := by
  intro fits
  unfold relay? at h
  rw [List.findSome?_eq_none_iff] at h
  have hs := (hg.mem_consumerNames hv).2 (fits.relays ho).reads
  have missed := h o (List.mem_reverse.2 (List.mem_filterMap.2 ⟨s, hs, ho⟩))
  have fitting := (isFitting_iff hg ho fits.input fits.output).2 ⟨source, target, fits⟩
  simp [fitting, fits.platforms, fits.output] at missed

/-- What a crossing of a variable says. -/
theorem crossingsOf_spec (hg : g.Linked) (hv : g.getVariable? var = some v)
    (h : c ∈ crossingsOf g v) : c.var = var ∧ g.MadeOn c.source var ∧ c.source ≠ c.target ∧
      c.consumers = v.consumerNames.filter (sitsOn g c.target) ∧ c.consumers ≠ [] ∧
      c.relay = relay? g v c.target := by
  unfold crossingsOf at h
  split at h
  · cases h
  · rename_i p hp
    obtain ⟨op, producer, hop⟩ := Option.bind_eq_some_iff.1 hp
    split at h
    · cases h
    · rename_i unswitched
      obtain ⟨target, ht, found⟩ := List.mem_filterMap.1 h
      obtain ⟨-, ht⟩ := List.mem_filter.1 ht
      have produces : g.Produces op var := (hg.producer_iff hv op).1 producer
      split at found
      · cases found
      · rename_i nonempty
        cases found
        exact ⟨hg.variable_name hv,
          ⟨op, produces, p, hop, by simpa using unswitched, rfl⟩,
          fun e => of_decide_eq_true ht e.symm, rfl, nonempty, rfl⟩

theorem exists_crossing (hg : g.Linked) (hv : g.getVariable? var = some v) {source target : Platform}
    {q : String} (made : g.MadeOn source var) (sits : g.SitsOn target q) (reads : g.Reads q var)
    (distinct : source ≠ target) :
    ∃ c ∈ crossingsOf g v, c.target = target ∧ q ∈ c.consumers := by
  obtain ⟨op, produces, p, hp, unswitched, rfl⟩ := made
  have producer : v.producer = some op := (hg.producer_iff hv op).2 produces
  have consumes : q ∈ v.consumerNames.filter (sitsOn g target) :=
    List.mem_filter.2 ⟨(hg.mem_consumerNames hv).2 reads, sitsOn_iff.2 sits⟩
  refine ⟨⟨v.name, p.platform, target, v.consumerNames.filter (sitsOn g target),
    relay? g v target⟩, ?_, rfl, consumes⟩
  unfold crossingsOf
  rw [producer, Option.bind_some, hp]
  simp only [unswitched, Bool.false_eq_true, if_false]
  refine List.mem_filterMap.2 ⟨target, List.mem_filter.2 ⟨Platform.mem_all target, ?_⟩, ?_⟩
  · exact decide_eq_true distinct.symm
  · split
    · rename_i unread
      rw [unread] at consumes
      cases consumes
    · rfl

theorem mem_crossings : c ∈ crossings g ↔ ∃ var v, g.getVariable? var = some v ∧
    c ∈ crossingsOf g v := by
  unfold crossings
  simp only [List.mem_flatMap, NameMap.mem_values]
  constructor
  · rintro ⟨v, ⟨var, hv⟩, hc⟩
    exact ⟨var, v, hv, hc⟩
  · rintro ⟨var, v, hv, hc⟩
    exact ⟨v, ⟨var, hv⟩, hc⟩

theorem crossings_ready (hg : g.Sound) (h : c ∈ crossings g) : g.Ready c := by
  obtain ⟨var, v, hv, hc⟩ := mem_crossings.1 h
  obtain ⟨rfl, made, distinct, consumers, consumed, relay⟩ := crossingsOf_spec hg.linked hv hc
  refine ⟨made, distinct, consumed, ?_, fun q hq => ?_, fun r hr => ?_⟩
  · rw [consumers]
    exact v.consumerNames_nodup.filter _
  · rw [consumers] at hq
    obtain ⟨hq, sits⟩ := List.mem_filter.1 hq
    exact ⟨(hg.linked.mem_consumerNames hv).1 hq, sitsOn_iff.1 sits⟩
  · rw [relay] at hr
    obtain ⟨s, o, source, ho, fits⟩ := relay?_eq_some hg hv hr
    cases made.unique hg.linked fits.made
    exact ⟨s, o, ho, fits⟩

/-- Each variable crosses to each platform once. -/
theorem crossings_pairwise (hg : g.Linked) :
    (crossings g).Pairwise fun c d => (c.var, c.target) ≠ (d.var, d.target) := by
  unfold crossings
  rw [List.pairwise_flatMap]
  constructor
  · intro v hv
    obtain ⟨var, hv⟩ := NameMap.mem_values.1 hv
    unfold crossingsOf
    split
    · exact .nil
    · split
      · exact .nil
      · refine List.pairwise_filterMap.2 ((all_nodup.filter _).imp fun hne c hc d hd e => ?_)
        split at hc
        · cases hc
        · cases hc
          split at hd
          · cases hd
          · cases hd
            exact hne (Prod.mk.inj e).2
  · unfold NameMap.values
    refine List.pairwise_map.2 (g.vars.ascending.imp_of_mem fun {a b} ha hb hlt c hc d hd e => ?_)
    have hva := NameMap.get?_eq_some_iff.2 ha
    have hvb := NameMap.get?_eq_some_iff.2 hb
    have hca := (crossingsOf_spec hg hva hc).1
    have hdb := (crossingsOf_spec hg hvb hd).1
    have same : a.1 = b.1 := hca ▸ hdb ▸ (Prod.mk.inj e).1
    exact String.lt_irrefl _ (same ▸ hlt)

end GraphDispatch.Dispatch
