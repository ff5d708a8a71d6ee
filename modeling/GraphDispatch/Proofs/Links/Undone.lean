import GraphDispatch.Proofs.Documents.RoundTrip
import GraphDispatch.Proofs.Links.Refusals

/-!
# Edits that undo each other

A linked graph is determined by its content, and what one edit does to the content another one
takes back. The links follow, the order of the consumers among them. Only an operation that
produces a parameter cannot be created again.
-/

namespace GraphDispatch

variable {α β : Type} {g h : Graph α} {op : String} {o : Operation α}

namespace Edit

/-- Where an edit leads is known where its content is the one of a linked graph. -/
theorem Yields.run_eq {m : Edit α β} {b : β} {c : Content α} (yields : Yields m g b c)
    (hh : h.Linked) (content : h.content = c) : m g = .ok b h := by
  obtain ⟨k, run, linked, left⟩ := yields
  rwa [← linked.ext hh (left.trans content.symm)]

/-- The graph after an operation was put on a platform. -/
theorem platform_linked (hg : g.Linked) (known : op ∈ g.operations) (platform : Platform) :
    (g.modifyOperation op fun o => { o with platform := platform }).Linked := by
  obtain ⟨k, run, linked, -⟩ := setPlatform_yields hg known platform
  have same : k = g.modifyOperation op fun o => { o with platform := platform } := by
    rw [setPlatform, updateOperation_ok known] at run
    cases run
    rfl
  exact same ▸ linked

/-- An operation that was removed leaves free what it produced. -/
theorem creatable_of_removed (hg : g.Live) (ho : g.getOperation? op = some o) (hh : h.Linked)
    (content : h.content = { g.content with operations := g.operations.erase op }) :
    Creatable h o.name o.inputs o.outputs := by
  have name : o.name = op := hg.linked.operation_name ho
  have operations : h.operations = g.operations.erase op := congrArg Content.operations content
  have declarations : h.content.declarations = g.content.declarations := by rw [content]
  have known : ∀ {var}, var ∈ g.vars → var ∈ h.vars := (Graph.mem_vars_congr declarations).2
  refine ⟨?_, fun var hvar => known (hg.linked.input_known ho hvar), fun var hvar => ?_,
    hg.linked.outputs_nodup ho⟩
  · rw [operations, name, NameMap.mem_erase]
    exact fun other => other.1 rfl
  · obtain ⟨v, hv⟩ := Graph.mem_vars_iff.1 (known (hg.linked.output_known ho hvar))
    refine ⟨v, hv, ?_, ?_⟩
    · apply Option.eq_none_iff_forall_not_mem.2
      intro p hp
      obtain ⟨q, hq, made⟩ := (hh.producer_iff hv p).1 hp
      rw [Graph.getOperation?, operations, NameMap.get?_erase] at hq
      split at hq
      · cases hq
      · exact ‹¬p = op› (hg.linked.produces_unique ⟨q, hq, made⟩ ⟨o, ho, hvar⟩)
    · refine hg.active (d := v.declaration) ho hvar ?_
      rw [← declarations, Graph.get?_declarations, hv, Option.map_some]

theorem recreate_run (hg : g.Live) (ho : g.getOperation? op = some o) :
    (do
      let o ← removeOperation op
      createOperation o.name o.type o.attributes o.inputs o.outputs) g =
      .ok { o with platform := .unspecified }
        (g.modifyOperation op fun o => { o with platform := .unspecified }) := by
  have known : op ∈ g.operations := Graph.mem_operations_iff.2 ⟨o, ho⟩
  obtain rfl : o.name = op := hg.linked.operation_name ho
  obtain ⟨h, removed, linked, content⟩ := removeOperation_yields hg.linked ho
  have creatable := creatable_of_removed hg ho linked content
  rw [bind_of_ok removed]
  refine (createOperation_yields linked creatable).run_eq
    (platform_linked hg.linked known .unspecified) ?_
  have operations : h.operations = g.operations.erase o.name :=
    congrArg Content.operations content
  have restored : (g.operations.erase o.name).insert o.name { o with platform := .unspecified } =
      g.operations.modify o.name fun o => { o with platform := .unspecified } :=
    NameMap.insert_erase ho fun o => { o with platform := .unspecified }
  rw [content, operations, restored]
  rfl

theorem remove_created (hg : g.Linked) {type : String} {attributes : NameMap (Attribute α)}
    {inputs outputs : List String}
    (run : createOperation op type attributes inputs outputs g = .ok o h) :
    removeOperation op h = .ok o g := by
  by_cases creatable : Creatable g op inputs outputs
  · obtain ⟨k, created, linked, content⟩ := (createOperation_yields hg creatable :
      Yields (createOperation op type attributes inputs outputs) g _ _)
    rw [created] at run
    cases run
    have operations : h.operations = g.operations.insert op
        ⟨op, type, attributes, inputs, outputs, .unspecified⟩ := congrArg Content.operations content
    have ho : h.getOperation? op = some ⟨op, type, attributes, inputs, outputs, .unspecified⟩ := by
      rw [Graph.getOperation?, operations, NameMap.get?_insert_self]
    refine (removeOperation_yields linked ho).run_eq hg ?_
    rw [content, operations, NameMap.erase_insert creatable.fresh]
    rfl
  · obtain ⟨e, refused⟩ := (createOperation_refuses creatable :
      Refuses (createOperation op type attributes inputs outputs) g)
    rw [refused] at run
    cases run

theorem redirect_back (hg : g.Linked) {old new : String} (reads : g.Reads op old)
    (known : new ∈ g.vars) (unread : ¬g.Reads op new) :
    (do
      replaceInput op old new
      replaceInput op new old) g = .ok () g := by
  obtain ⟨h, run, linked, content⟩ := replaceInput_yields hg reads known
  obtain ⟨o, ho, hold⟩ := reads
  have operations : h.operations = g.operations.modify op (Operation.redirect old new) :=
    congrArg Content.operations content
  have reads' : h.Reads op new := by
    refine ⟨o.redirect old new, ?_, Operation.mem_redirect.2 (Or.inr ⟨rfl, hold⟩)⟩
    rw [Graph.getOperation?, operations, NameMap.get?_modify, if_pos rfl]
    exact congrArg (Option.map _) ho
  have known' : old ∈ h.vars :=
    (Graph.mem_vars_congr (by rw [content])).2 (hg.input_known ho hold)
  have unchanged : (g.operations.modify op (Operation.redirect old new)).modify op
      (Operation.redirect new old) = g.operations := by
    rw [NameMap.modify_modify]
    exact NameMap.modify_eq_self ho
      (Operation.redirect_redirect fun hnew => unread ⟨o, ho, hnew⟩)
  rw [bind_of_ok run]
  refine (replaceInput_yields linked reads' known').run_eq hg ?_
  rw [content, operations, unchanged]
  rfl

end Edit

open Edit in
/-- The edits of a graph that other edits take back exactly, links included. -/
structure Graph.Reversible (g : Graph α) : Prop where
  /-- An operation that was removed can be created again, but for its platform. -/
  recreated : ∀ {op : String} {o : Operation α}, g.getOperation? op = some o →
    (do
      let o ← removeOperation op
      createOperation o.name o.type o.attributes o.inputs o.outputs) g =
      .ok { o with platform := .unspecified }
        (g.modifyOperation op fun o => { o with platform := .unspecified })
  removed : ∀ {op type : String} {attributes : NameMap (Attribute α)}
    {inputs outputs : List String} {o : Operation α} {h : Graph α},
    createOperation op type attributes inputs outputs g = .ok o h → removeOperation op h = .ok o g
  redirected : ∀ {op old new : String}, g.Reads op old → new ∈ g.vars → ¬g.Reads op new →
    (do
      replaceInput op old new
      replaceInput op new old) g = .ok () g

theorem Graph.Live.reversible (hg : g.Live) : g.Reversible where
  recreated := Edit.recreate_run hg
  removed := Edit.remove_created hg.linked
  redirected := Edit.redirect_back hg.linked

variable [Scalar α]

/-- On the graph of a document, and on whatever passes and dispatches make of it, a removal is
undone by a creation, a creation by a removal, and a redirection by the opposite one. -/
theorem edits_undone {d : Document α} {passes : List (Action α)} (built : d.build = .ok g)
    (working : ∀ a ∈ passes, a.isPass = true) : (performAll g passes).Reversible :=
  ((Graph.live_of_build built).performAll working).reversible

/-- In both of its slots, `add` reads `z` and then `x` again. -/
theorem edits_undone_forked : ∃ g : Graph Float32,
    g = performAll Edit.forked.graph [.process .casts, .insertSwitches] ∧ g.Reversible ∧
    (do
      Edit.replaceInput "add" "x" "z"
      Edit.replaceInput "add" "z" "x") g = .ok () g := by
  have built : Edit.forked.build = .ok Edit.forked.graph := rfl
  have worked : ((performAll Edit.forked.graph
      [.process .casts, .insertSwitches]).getOperation? "add").map (·.inputs) =
        some ["x", "x"] ∧
      "z" ∈ (performAll Edit.forked.graph [.process .casts, .insertSwitches]).vars := by
    decide +kernel
  obtain ⟨slots, known⟩ := worked
  obtain ⟨o, ho, inputs⟩ := Option.map_eq_some_iff.1 slots
  have reversible := edits_undone built
    (show ∀ a ∈ ([.process .casts, .insertSwitches] : List (Action Float32)), a.isPass = true by
      decide)
  refine ⟨_, rfl, reversible, reversible.redirected ⟨o, ho, by simp [inputs]⟩ known ?_⟩
  rintro ⟨o', ho', reads⟩
  cases ho.symm.trans ho'
  simp [inputs] at reads

end GraphDispatch
