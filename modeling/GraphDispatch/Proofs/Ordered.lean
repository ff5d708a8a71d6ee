import GraphDispatch.Proofs.Dispatch.Failure
import GraphDispatch.Proofs.Links.Live
import GraphDispatch.Proofs.Order

/-!
# Graphs stay without cycles

A pass never needs another rank: new inputs are new variables, which nothing produces, and
folding a normalization moves its output to an operation that ranked below it. Switches are
ranked anew. So a graph that has an order of execution keeps one through passes, switches and
dispatches.
-/

namespace GraphDispatch

variable {α β : Type} {g h k : Graph α} {rank : String → Nat} {ahead : List (String × String)}

open GraphDispatch.Graph

/-- `o'` does the work of `o` in place of it, and what it reads besides is unknown to `h`. -/
structure Operation.Continues (h : Graph α) (o o' : Operation α) : Prop where
  type : o'.type = o.type
  outputs : o'.outputs = o.outputs
  inputs : ∀ var ∈ o'.inputs, var ∈ o.inputs ∨ var ∉ h.vars
  slots : o.isSwitch = true → o'.inputs.length = o.inputs.length

theorem Operation.Continues.refl (h : Graph α) (o : Operation α) : o.Continues h o :=
  ⟨rfl, rfl, fun _ => Or.inl, fun _ => rfl⟩

namespace Graph

/-- `h` is ranked like `g` and has operations of the types they have in `g`. What reads the
variable of a pair ahead ranks above the operation that the pair names. -/
structure RankedFrom (g : Graph α) (rank : String → Nat) (ahead : List (String × String))
    (h : Graph α) : Prop where
  linked : h.Linked
  ranked : h.Ranked rank
  ports : h.SinglePorts
  types : ∀ op o, h.getOperation? op = some o →
    ∃ p, g.getOperation? op = some p ∧ o.type = p.type
  known : ∀ e ∈ ahead, e.2 ∈ h.vars
  above : ∀ e ∈ ahead, ∀ q, h.Reads q e.2 → rank e.1 < rank q

theorem Sound.rankedFrom (hg : g.Sound) (ranked : g.Ranked rank) : g.RankedFrom rank [] g where
  linked := hg.linked
  ranked := ranked
  ports := hg.ports
  types _ o ho := ⟨o, ho, rfl⟩
  known := by simp
  above := by simp

namespace RankedFrom

theorem sound (hh : g.RankedFrom rank ahead h) : h.Sound :=
  ⟨hh.linked, hh.ranked.acyclic, hh.ports⟩

theorem without (hh : g.RankedFrom rank ahead h) : g.RankedFrom rank [] h where
  linked := hh.linked
  ranked := hh.ranked
  ports := hh.ports
  types := hh.types
  known := by simp
  above := by simp

/-- Operations that do the work of others add no edge: what they read besides has no producer. -/
theorem continues (hh : g.RankedFrom rank ahead h) (linked : k.Linked)
    (each : ∀ op o', k.getOperation? op = some o' →
      ∃ o, h.getOperation? op = some o ∧ o.Continues h o')
    (known : ∀ e ∈ ahead, e.2 ∈ k.vars) : g.RankedFrom rank ahead k where
  linked := linked
  known := known
  ranked p q edge := by
    obtain ⟨var, ⟨p', hp', made⟩, q', hq', reads⟩ := linked.feeds_iff.1 edge
    obtain ⟨po, hpo, before⟩ := each p p' hp'
    obtain ⟨qo, hqo, after⟩ := each q q' hq'
    have produces : h.Produces p var := ⟨po, hpo, before.outputs ▸ made⟩
    rcases after.inputs var reads with reads | unknown
    · exact hh.ranked p q (hh.linked.feeds_iff.2 ⟨var, produces, qo, hqo, reads⟩)
    · exact absurd (hh.linked.produces_known produces) unknown
  ports op o' ho' switch := by
    obtain ⟨o, ho, same⟩ := each op o' ho'
    have switch : o.isSwitch = true := by rwa [Operation.isSwitch, ← same.type]
    obtain ⟨x, r, inputs, outputs⟩ := hh.ports op o ho switch
    have length := same.slots switch
    rw [inputs] at length
    obtain ⟨y, hy⟩ := List.length_eq_one_iff.1 length
    exact ⟨y, r, hy, same.outputs.trans outputs⟩
  types op o' ho' := by
    obtain ⟨o, ho, same⟩ := each op o' ho'
    obtain ⟨p, hp, type⟩ := hh.types op o ho
    exact ⟨p, hp, same.type.trans type⟩
  above e he q := by
    rintro ⟨q', hq', reads⟩
    obtain ⟨qo, hqo, after⟩ := each q q' hq'
    rcases after.inputs e.2 reads with reads | unknown
    · exact hh.above e he q ⟨qo, hqo, reads⟩
    · exact absurd (hh.known e he) unknown

/-- Variables may come and go where no operation changes. -/
theorem redeclare (hh : g.RankedFrom rank ahead h) (linked : k.Linked)
    (operations : k.operations = h.operations) (known : ∀ e ∈ ahead, e.2 ∈ k.vars) :
    g.RankedFrom rank ahead k := by
  refine hh.continues linked (fun op o ho => ?_) known
  rw [getOperation?, operations] at ho
  exact ⟨o, ho, .refl h o⟩

theorem modify (hh : g.RankedFrom rank ahead h) (linked : k.Linked) {op : String}
    {f : Operation α → Operation α} (operations : k.operations = h.operations.modify op f)
    (hf : ∀ o, h.getOperation? op = some o → o.Continues h (f o))
    (known : ∀ e ∈ ahead, e.2 ∈ k.vars) : g.RankedFrom rank ahead k := by
  refine hh.continues linked (fun n o' ho' => ?_) known
  rw [getOperation?, operations, NameMap.get?_modify] at ho'
  split at ho'
  · obtain ⟨o, ho, rfl⟩ := Option.map_eq_some_iff.1 ho'
    subst n
    exact ⟨o, ho, hf o ho⟩
  · exact ⟨o', ho', .refl h o'⟩

theorem erase (hh : g.RankedFrom rank ahead h) (linked : k.Linked) {op : String}
    (operations : k.operations = h.operations.erase op) (known : ∀ e ∈ ahead, e.2 ∈ k.vars) :
    g.RankedFrom rank ahead k := by
  refine hh.continues linked (fun n o' ho' => ?_) known
  rw [getOperation?, operations, NameMap.get?_erase] at ho'
  split at ho'
  · cases ho'
  · exact ⟨o', ho', .refl h o'⟩

end RankedFrom

end Graph

namespace Edit

variable {m : Edit α Unit} {op old new var : String} {f : Operation α → Operation α}

/-- An operation comes to read a variable that is new. -/
theorem keeps_ranked_new {value : Option (Tensor α)} (he : Modifies m op f)
    (hf : ∀ h o, g.RankedFrom rank ahead h → new ∉ h.vars → h.getOperation? op = some o →
      o.Continues h (f o)) : Keeps (g.RankedFrom rank ahead) (do
        discard (createVariable new value)
        m) := by
  intro h hh
  refine (createVariable_effects new value).discard.bind_leaves hh.linked hh ?_
  rintro - k linked ⟨unknown, content⟩
  have operations : k.operations = h.operations := congrArg Content.operations content
  have kept : ∀ var ∈ h.vars, var ∈ k.vars := fun var hvar =>
    (mem_vars_of_declared (congrArg Content.declarations content)).2 (Or.inr hvar)
  have known : ∀ e ∈ ahead, e.2 ∈ k.vars := fun e hm => kept _ (hh.known e hm)
  refine he.leaves linked (hh.redeclare linked operations known) fun k' linked' content' => ?_
  refine hh.modify linked' (f := f) ?_ (hf h · hh unknown) fun e hm => ?_
  · exact (congrArg Content.operations content').trans (by rw [operations])
  · exact (mem_vars_congr (by rw [content'])).2 (known e hm)

theorem inputStable_ranked : InputStable (g.RankedFrom rank ahead) where
  replaceByNew op old new _ := by
    refine keeps_ranked_new (replaceInput_modifies op old new) fun h o _ unknown _ => ?_
    refine ⟨rfl, rfl, fun var hvar => ?_, fun _ => List.length_map _⟩
    rcases Operation.mem_redirect.1 hvar with ⟨hvar, -⟩ | ⟨rfl, -⟩
    · exact Or.inl hvar
    · exact Or.inr unknown
  appendNew {k op type} hk hop other var _ := by
    refine keeps_ranked_new (appendInput_modifies op var) fun h o hh unknown ho => ?_
    refine ⟨rfl, rfl, fun n hn => ?_, fun switch => absurd ?_ other⟩
    · rcases List.mem_append.1 hn with hn | hn
      · exact Or.inl hn
      · exact Or.inr (List.mem_singleton.1 hn ▸ unknown)
    · obtain ⟨p, hp, rfl⟩ := hk.linked.mem_operationsOfType.1 hop
      obtain ⟨q, hq, first⟩ := hk.types op p hp
      obtain ⟨q', hq', second⟩ := hh.types op o ho
      cases hq.symm.trans hq'
      rw [first, ← second]
      exact of_decide_eq_true switch

theorem removeOperation_ranked : Keeps (g.RankedFrom rank []) (removeOperation op) :=
  (removeOperation_effects op).keeps (fun _ hh => hh.linked) fun _ _ hh linked effect =>
    hh.erase linked (congrArg Content.operations effect.2) (by simp)

theorem removeVariable_ranked : Keeps (g.RankedFrom rank []) (removeVariable var) :=
  (removeVariable_effects var).keeps (fun _ hh => hh.linked) fun _ _ hh linked content =>
    hh.redeclare linked (congrArg Content.operations content) (by simp)

theorem Modifies.keeps_ranked {m : Edit α β} (he : Modifies m op f)
    (same : ∀ o, (f o).type = o.type ∧ (f o).inputs = o.inputs ∧ (f o).outputs = o.outputs) :
    Keeps (g.RankedFrom rank []) m := by
  refine he.keeps (fun _ hh => hh.linked) fun h k hh linked content => ?_
  refine hh.modify (f := f) linked (congrArg Content.operations content) (fun o _ => ?_) (by simp)
  obtain ⟨type, inputs, outputs⟩ := same o
  exact ⟨type, outputs, fun var hvar => Or.inl (inputs ▸ hvar), fun _ => by rw [inputs]⟩

theorem workStable_ranked : WorkStable (g.RankedFrom rank []) where
  toInputStable := inputStable_ranked
  linked _ hh := hh.linked
  removeOperation _ := removeOperation_ranked
  removeVariable _ _ _ := removeVariable_ranked
  setAttribute _ _ _ := (setAttribute_modifies _ _ _).keeps_ranked fun _ => ⟨rfl, rfl, rfl⟩
  removeAttribute _ _ := (removeAttribute_modifies _ _).keeps_ranked fun _ => ⟨rfl, rfl, rfl⟩
  setValue _ _ := (setValue_effects _ _).keeps (fun _ hh => hh.linked)
    fun _ _ hh linked effect => hh.redeclare linked (congrArg Content.operations effect.2) (by simp)

/-- Whatever reads the new output ranks above the operation that comes to produce it. -/
theorem replaceOutput_leaves_ranked (hh : g.RankedFrom rank [(op, new)] h) (old : String) :
    g.RankedFrom rank [] (finalState (replaceOutput op old new h)) := by
  refine (replaceOutput_effects op old new).leaves hh.linked hh.without ?_
  rintro k linked ⟨made, -, -, content⟩
  have operations : k.operations = h.operations.modify op
      fun o => { o with outputs := o.outputs.replace old new } :=
    congrArg Content.operations content
  have look {n o'} (ho' : k.getOperation? n = some o') :=
    operation_of_replaceOutput hh.linked made
      ((congrArg (NameMap.get? · n) operations).symm.trans ho')
  have reads : ∀ q var, k.Reads q var → h.Reads q var := by
    rintro q var ⟨q', hq', hvar⟩
    obtain ⟨qo, hqo, -, inputs, -⟩ := look hq'
    exact ⟨qo, hqo, inputs ▸ hvar⟩
  constructor
  case linked => exact linked
  case known => simp
  case above => simp
  case ranked =>
    intro p q edge
    obtain ⟨var, ⟨p', hp', made⟩, read⟩ := linked.feeds_iff.1 edge
    obtain ⟨po, hpo, -, -, -, outputs⟩ := look hp'
    rcases outputs var made with before | ⟨rfl, rfl⟩
    · exact hh.ranked p q (hh.linked.feeds_iff.2 ⟨var, ⟨po, hpo, before⟩, reads q var read⟩)
    · exact hh.above _ List.mem_cons_self q (reads q var read)
  case ports =>
    intro n o' ho' switch
    obtain ⟨p, hp, type, inputs, length, -⟩ := look ho'
    rw [Operation.isSwitch, type] at switch
    obtain ⟨x, r, hx, hr⟩ := hh.ports n p hp switch
    rw [hr] at length
    obtain ⟨r', hr'⟩ := List.length_eq_one_iff.1 length
    exact ⟨x, r', inputs.trans hx, hr'⟩
  case types =>
    intro n o' ho'
    obtain ⟨p, hp, type, -⟩ := look ho'
    obtain ⟨q, hq, type'⟩ := hh.types n p hp
    exact ⟨q, hq, type.trans type'⟩

end Edit

namespace Rewrite

open Edit

variable [Scalar α]

/-- The parent ranks below the normalization, and that below whatever reads its output. -/
theorem applyFusion_ranked {norm : String} {f : Fusion α} (hh : g.RankedFrom rank [] h)
    (plan : planFusion h norm = .ok (.fold f)) :
    g.RankedFrom rank [] (finalState (applyFusion f h)) := by
  obtain ⟨rfl, o, p, _, _, _, _, _, _, planned⟩ := planFusion_eq_fold plan
  obtain ⟨_, _, _, _, inputs, -⟩ := planned.inputs
  have produced : h.Produces f.norm f.output := ⟨o, planned.norm, by simp [planned.outputs]⟩
  have into : h.Feeds f.parent f.norm := hh.linked.feeds_iff.2
    ⟨f.intermediate, hh.linked.producer?_eq_some.1 planned.made, o, planned.norm, by simp [inputs]⟩
  have ahead : g.RankedFrom rank [(f.parent, f.output)] h := by
    refine ⟨hh.linked, hh.ranked, hh.ports, hh.types, ?_, ?_⟩
    · intro e he
      cases List.mem_singleton.1 he
      exact hh.linked.produces_known produced
    · intro e he q reads
      cases List.mem_singleton.1 he
      exact (hh.ranked _ _ into).trans
        (hh.ranked _ _ (hh.linked.feeds_iff.2 ⟨f.output, produced, reads⟩))
  have parent : f.parent ∈ h.operationsOfType p.type :=
    hh.linked.mem_operationsOfType.2 ⟨p, planned.parent, rfl⟩
  refine applyFusion_leaves hh.linked plan fun k statistics linked content => ?_
  have left : g.RankedFrom rank [(f.parent, f.output)] k := by
    refine ahead.erase linked (congrArg Content.operations content) fun e he => ?_
    rw [← mem_declarations, content]
    exact mem_declarations.2 (ahead.known e he)
  exact workStable_ranked.absorb_leaves inputStable_ranked (fun _ hk => hk.without) ahead parent
    (type_of_channelAxis planned.channel).1
    (fun k hk => replaceOutput_leaves_ranked hk f.intermediate) removeVariable_ranked statistics
    left

theorem process_sound (c : Command) : Task.Keeps Sound (process (α := α) c) := by
  intro l hl
  obtain ⟨rank, ranked⟩ := hl.linked.acyclic_iff_ranked.1 hl.acyclic
  have kept : Task.Keeps (l.state.RankedFrom rank []) (process (α := α) c) :=
    workStable_ranked.process_of_batchNorms
      (keeps_countChanges fun _ _ _ _ => keeps_foldBatchNorm fun _ _ => applyFusion_ranked) c
  exact (kept l (hl.rankedFrom ranked)).sound

end Rewrite

namespace Dispatch

theorem insertSwitches_sound : Task.Keeps Sound (insertSwitches : Dispatching α Nat) := by
  intro l hl
  obtain ⟨n, g', later, run, h, way⟩ := insertSwitches_leads hl l.events
  change (finalState (insertSwitches ⟨l.state, l.events⟩)).state.Sound
  rw [run]
  exact (way.spec hl).1

theorem run_sound (r : Request) : Task.Keeps Sound (run (α := α) r) := by
  intro l hl
  change (finalState (run r ⟨l.state, l.events⟩)).state.Sound
  cases outcome : run r ⟨l.state, l.events⟩ with
  | error e k =>
    have same := run_error_keeps hl.linked (fun _ => hl.acyclic) outcome
    rw [finalState_error, same]
    exact hl
  | ok table k =>
    have dispatched : Dispatched r l.events l.state k.state := ⟨table, k.events, outcome⟩
    obtain ⟨kinds, sees⟩ := dispatched.accepted.sees hl.linked hl.acyclic
    obtain ⟨h, way⟩ := dispatched.reswitched hl sees
    exact (way.spec (hl.assign _)).1

end Dispatch

variable [Scalar α]

/-- A graph with an order of execution has one after any passes, switches and dispatches, also
where they fail. -/
theorem ordered_after_passes (reachable : Reachable g)
    (ordered : ∃ order, g.executionOrder = .ok order) (ports : g.SinglePorts)
    {passes : List (Action α)} (h : ∀ a ∈ passes, a.isPass = true) :
    ∃ order, (performAll g passes).executionOrder = .ok order := by
  obtain ⟨order, run⟩ := ordered
  have sound : g.Sound := ⟨reachable.linked, (reachable.linked.listsInOrder run).acyclic, ports⟩
  have kept : (performAll g passes).Sound :=
    performAll_keeps_of_passes Rewrite.process_sound Dispatch.insertSwitches_sound
      Dispatch.run_sound h sound
  obtain ⟨order', run', -⟩ := kept.linked.executionOrder_ok kept.acyclic
  exact ⟨order', run'⟩

theorem ordered_after_passes_detoured : ∃ order, (performAll Dispatch.detoured
    [.insertSwitches, .process .batchNorms, .dispatch Dispatch.misdirected, .process .isolated]
      ).executionOrder = .ok order := by
  have linked : Dispatch.detoured.Linked := Reachable.linked ⟨_, Dispatch.detour, .empty "net", rfl⟩
  obtain ⟨order, run, -⟩ := linked.executionOrder_ok Dispatch.detoured_acyclic
  exact ordered_after_passes ⟨_, Dispatch.detour, .empty "net", rfl⟩ ⟨order, run⟩ (by decide)
    (by decide)

end GraphDispatch
