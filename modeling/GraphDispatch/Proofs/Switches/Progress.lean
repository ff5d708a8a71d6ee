import GraphDispatch.Proofs.Switches.Insert

/-!
# Switch insertion goes through

On a linked graph without cycles no step of the insertion fails, whatever shape the
switches of the graph have. Their removal needs no more than the links and that no
operation reads what it produces; a crossing needs its variable and its consumers, which
the other crossings leave to it.
-/

namespace GraphDispatch

variable {α : Type} {g g' : Graph α} {c d : Dispatch.Crossing} {r : String}

namespace Graph

/-- In `g'` the consumers of the crossing read `r` for its variable; no other slot changes. -/
structure Rerouted (g g' : Graph α) (c : Dispatch.Crossing) (r : String) : Prop where
  linked : g'.Linked
  known : ∀ var ∈ g.vars, var ∈ g'.vars
  others : ∀ n o, g.getOperation? n = some o →
    g'.getOperation? n = some (if n ∈ c.consumers then o.redirect c.var r else o)

/-- Neither crossing takes away what the other one needs. -/
def Apart (c d : Dispatch.Crossing) : Prop := c.var = d.var → List.Disjoint c.consumers d.consumers

theorem Rerouted.of_joined (linked : g'.Linked) (content : g'.content = { g.content with
    operations := g.operations.mapEntries fun n o =>
      if n ∈ c.consumers then o.redirect c.var r else o }) : Rerouted g g' c r where
  linked := linked
  known var hvar := (mem_vars_congr (by rw [content])).2 hvar
  others n o ho := by
    have operations : g'.operations = g.operations.mapEntries fun n o =>
        if n ∈ c.consumers then o.redirect c.var r else o := congrArg Content.operations content
    rw [getOperation?, operations]
    exact NameMap.get?_mapEntries_eq_some.2 ⟨o, ho, rfl⟩

theorem Rerouted.of_inserted {s : String} (fresh : s ∉ g.operations) (linked : g'.Linked)
    (content : g'.content = { g.content with
      operations := (g.operations.mapEntries fun n o =>
        if n ∈ c.consumers then o.redirect c.var r else o).insert s (Dispatch.switchOn c s r)
      declarations := g.content.declarations.insert r ⟨r, none, false⟩ }) : Rerouted g g' c r where
  linked := linked
  known var hvar :=
    (mem_vars_of_declared (congrArg Content.declarations content)).2 (Or.inr hvar)
  others n o ho := by
    have operations : g'.operations = (g.operations.mapEntries fun n o =>
        if n ∈ c.consumers then o.redirect c.var r else o).insert s (Dispatch.switchOn c s r) :=
      congrArg Content.operations content
    have other : n ≠ s := fun e => fresh (e ▸ mem_operations_iff.2 ⟨o, ho⟩)
    rw [getOperation?, operations, NameMap.get?_insert, if_neg other]
    exact NameMap.get?_mapEntries_eq_some.2 ⟨o, ho, rfl⟩

theorem Rerouted.keeps_reads (h : Rerouted g g' c r) {q var : String} (reads : g.Reads q var)
    (kept : q ∈ c.consumers → var ≠ c.var) : g'.Reads q var := by
  obtain ⟨o, ho, hvar⟩ := reads
  refine ⟨_, h.others q o ho, ?_⟩
  split
  · exact Operation.mem_redirect.2 (Or.inl ⟨hvar, kept ‹_›⟩)
  · exact hvar

theorem Rerouted.keeps_waiting (h : Rerouted g g' c r) (apart : Apart c d)
    (waiting : g.Waiting d) : g'.Waiting d where
  known := h.known _ waiting.known
  nodup := waiting.nodup
  reads q hq := by
    apply h.keeps_reads (waiting.reads q hq)
    intro consumes e
    exact apart e.symm consumes hq
  relay r relay := h.known _ (waiting.relay r relay)

/-- What is left to do for a list of crossings. -/
structure Outstanding (g : Graph α) (l : List Dispatch.Crossing) : Prop where
  linked : g.Linked
  waiting : ∀ c ∈ l, g.Waiting c
  pairwise : l.Pairwise Apart

theorem Outstanding.next {l : List Dispatch.Crossing} (outstanding : g.Outstanding (c :: l))
    (rerouted : Rerouted g g' c r) : g'.Outstanding l where
  linked := rerouted.linked
  waiting d hd := by
    apply rerouted.keeps_waiting (List.rel_of_pairwise_cons outstanding.pairwise hd)
    exact outstanding.waiting d (List.mem_cons_of_mem _ hd)
  pairwise := outstanding.pairwise.of_cons

end Graph

namespace Dispatch

open GraphDispatch.Graph

theorem joinRelay_reroutes (hg : g.Linked) (waiting : g.Waiting c) (relay : c.relay = some r) :
    ∃ g', joinRelay c r g = .ok () g' ∧ Rerouted g g' c r := by
  obtain ⟨g', run, linked, content⟩ := joinRelay_yields hg waiting relay
  exact ⟨g', run, .of_joined linked content⟩

theorem insertSwitch_reroutes (hg : g.Linked) (waiting : g.Waiting c) :
    ∃ s r g', insertSwitch c g = .ok s g' ∧ Rerouted g g' c r := by
  obtain ⟨s, r, fresh, -, g', run, linked, content⟩ := insertSwitch_yields hg waiting
  exact ⟨s, r, g', run, .of_inserted fresh linked content⟩

theorem relayCrossing_reroutes (hg : g.Linked) (waiting : g.Waiting c) :
    Task.Leads (relayCrossing c) g fun _ g' => ∃ r, Rerouted g g' c r := by
  unfold relayCrossing
  cases relay : c.relay with
  | some r =>
    obtain ⟨g', run, rerouted⟩ := joinRelay_reroutes hg waiting relay
    exact Task.leads_edit_bind run (Task.leads_pure ⟨r, rerouted⟩)
  | none =>
    obtain ⟨s, r, g', run, rerouted⟩ := insertSwitch_reroutes hg waiting
    exact Task.leads_edit_bind run (Task.leads_note_bind (Task.leads_pure ⟨r, rerouted⟩))

theorem relay?_known (hg : g.Linked) {v : Variable α} {target : Platform}
    (h : relay? g v target = some r) : r ∈ g.vars := by
  obtain ⟨s, o, -, ho, -, -, found⟩ := exists_of_relay? h
  exact hg.output_known ho (List.mem_of_head? found)

theorem crossings_waiting (hg : g.Linked) (h : c ∈ crossings g) : g.Waiting c := by
  obtain ⟨var, v, hv, hc⟩ := mem_crossings.1 h
  obtain ⟨rfl, made, -, consumers, -, relay⟩ := crossingsOf_spec hg hv hc
  constructor
  · exact made.known hg
  · rw [consumers]
    exact v.consumerNames_nodup.filter _
  · intro q hq
    rw [consumers] at hq
    exact (hg.mem_consumerNames hv).1 (List.mem_filter.1 hq).1
  · intro r hr
    exact relay?_known hg (relay ▸ hr)

theorem crossings_sit (hg : g.Linked) (h : c ∈ crossings g) :
    ∀ q ∈ c.consumers, g.SitsOn c.target q := by
  obtain ⟨var, v, hv, hc⟩ := mem_crossings.1 h
  obtain ⟨-, -, -, consumers, -, -⟩ := crossingsOf_spec hg hv hc
  intro q hq
  rw [consumers] at hq
  exact sitsOn_iff.1 (List.mem_filter.1 hq).2

/-- Two crossings of one variable lead to different platforms, and an operation sits on
one of them. -/
theorem crossings_apart (hg : g.Linked) : (crossings g).Pairwise Apart := by
  refine (crossings_pairwise hg).imp_of_mem fun {c d} hc hd distinct e q first second => ?_
  have same : c.target = d.target :=
    (crossings_sit hg hc q first).unique (crossings_sit hg hd q second)
  exact distinct (Prod.ext e same)

theorem relayCrossings_succeed {l : List Crossing} {n : Nat} (outstanding : g.Outstanding l) :
    Task.Leads (l.foldlM (fun n c => return if ← relayCrossing c then n + 1 else n) n) g
      fun _ g' => g'.Linked := by
  induction l generalizing g n with
  | nil => exact Task.leads_pure outstanding.linked
  | cons c l ih =>
    rw [List.foldlM_cons, bind_assoc]
    have waiting := outstanding.waiting c List.mem_cons_self
    refine (relayCrossing_reroutes outstanding.linked waiting).bind ?_
    intro new g' rerouted
    obtain ⟨r, rerouted⟩ := rerouted
    rw [pure_bind]
    exact ih (outstanding.next rerouted)

theorem removeStaleSwitches_succeeds (hg : g.Linked) (acyclic : g.Acyclic) :
    Task.Leads removeStaleSwitches g fun _ g' => g'.Linked ∧ g'.Acyclic := by
  refine Task.leads_state_bind ?_
  have step : ∀ s (_ : List String) (k : Graph α), k.Linked ∧ k.Acyclic →
      Task.Leads (removeStale s) k fun _ k' => k'.Linked ∧ k'.Acyclic := by
    intro s _ k hk
    refine (removeStale_leads hk.1 hk.2 s).mono ?_
    rintro _ k' (⟨rfl, -⟩ | ⟨_, _, _, -, -, -, bypassed⟩)
    · exact hk
    · exact ⟨bypassed.after, bypassed.acyclic hk.2⟩
  refine (Task.leads_forM (fun _ k => k.Linked ∧ k.Acyclic) step ⟨hg, acyclic⟩).bind ?_
  intro _ g' hg'
  exact Task.leads_pure hg'

theorem insertSwitches_succeeds (hg : g.Linked) (acyclic : g.Acyclic) :
    Task.Leads insertSwitches g fun _ g' => g'.Linked := by
  apply insertSwitches_leads_of (removeStaleSwitches_succeeds hg acyclic)
  rintro h ⟨linked, -⟩
  exact relayCrossings_succeed
    ⟨linked, fun c => crossings_waiting linked, crossings_apart linked⟩

end Dispatch

end GraphDispatch
