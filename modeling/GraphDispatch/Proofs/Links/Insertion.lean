import GraphDispatch.Proofs.FreshName
import GraphDispatch.Proofs.Links.Operations

/-!
# Operations put on a variable

The edit that puts an operation between a variable and some of its consumers, from
the edits it is made of.
-/

namespace GraphDispatch

variable {α : Type}

/-- The operation that `insertOnVariable` creates. -/
def Operation.between (op type : String) (attributes : NameMap (Attribute α))
    (var relay : String) : Operation α :=
  ⟨op, type, attributes, [var], [relay], .unspecified⟩

namespace Edit

variable {g : Graph α} {op var : String} {consumers : List String}

/-- What the name of the new variable is derived from. -/
def relayName (g : Graph α) (op var : String) : String := g.freshName (var ++ "." ++ op)

/-- The content with a new operation that hands `var` on as `relay`. -/
def attach (c : Content α) (o : Operation α) (relay : String) : Content α :=
  { c with
    operations := c.operations.insert o.name o
    declarations := c.declarations.insert relay ⟨relay, none, false⟩ }

theorem attach_yields (hg : g.Linked) (fresh : op ∉ g.operations) (known : var ∈ g.vars)
    {relay : String} (unknown : relay ∉ g.vars) (type : String)
    (attributes : NameMap (Attribute α)) :
    Yields (do
        discard (createVariable relay none)
        discard (createOperation op type attributes [var] [relay])) g ()
      (attach g.content (.between op type attributes var relay) relay) := by
  obtain ⟨h, run, linked, content⟩ :=
    (createVariable_yields hg unknown : Yields (createVariable relay none) g _ _)
  have operations : h.operations = g.operations := congrArg Content.operations content
  have declarations : h.content.declarations =
      g.content.declarations.insert relay ⟨relay, none, false⟩ := by rw [content]; rfl
  have known' : var ∈ h.vars := (Graph.mem_vars_of_declared declarations).2 (Or.inr known)
  obtain ⟨v, hv⟩ := Graph.mem_vars_iff.1 ((Graph.mem_vars_of_declared declarations).2 (Or.inl rfl))
  have parameter : v.isParameter = false := by
    have declared := h.get?_declarations relay
    rw [hv, declarations, NameMap.get?_insert_self, Option.map_some, Option.some.injEq] at declared
    exact (congrArg Declaration.isParameter declared).symm
  have producer : v.producer = none := by
    apply Option.eq_none_iff_forall_not_mem.2
    intro p hp
    obtain ⟨o, ho, hr⟩ := (linked.producer_iff hv p).1 hp
    rw [Graph.getOperation?, operations] at ho
    exact unknown (hg.output_known ho hr)
  have creatable : Creatable h op [var] [relay] := by
    refine ⟨operations ▸ fresh, ?_, ?_, by simp⟩
    · intro n hn
      rw [List.mem_singleton.1 hn]
      exact known'
    · intro n hn
      rw [List.mem_singleton.1 hn]
      exact ⟨v, hv, producer, parameter⟩
  obtain ⟨h', run', linked', content'⟩ := (createOperation_yields linked creatable :
    Yields (createOperation op type attributes [var] [relay]) h _ _)
  refine ⟨h', ?_, linked', ?_⟩
  · rw [bind_of_ok (discard_of_ok run), discard_of_ok run']
  · rw [content', content, operations]
    rfl

/-- The content with an operation inserted on `var` that the consumers read from. -/
def inserted (g : Graph α) (op type : String) (attributes : NameMap (Attribute α)) (var : String)
    (consumers : List String) : Content α :=
  { g.content with
    operations := (g.operations.insert op
        (.between op type attributes var (relayName g op var))).mapEntries fun n o =>
      if n ∈ consumers then o.redirect var (relayName g op var) else o
    declarations := g.content.declarations.insert (relayName g op var)
      ⟨relayName g op var, none, false⟩ }

/-- The edits of an insertion, which come after its checks. -/
def insertBetween (op type : String) (attributes : NameMap (Attribute α)) (var relay : String)
    (consumers : List String) : Edit α Unit := do
  discard (createVariable relay none)
  discard (createOperation op type attributes [var] [relay])
  consumers.forM fun n => replaceInput n var relay

theorem insertBetween_yields (hg : g.Linked) (fresh : op ∉ g.operations) (known : var ∈ g.vars)
    (nodup : consumers.Nodup) (reads : ∀ n ∈ consumers, g.Reads n var) (type : String)
    (attributes : NameMap (Attribute α)) :
    Yields (insertBetween op type attributes var (relayName g op var) consumers) g ()
      (inserted g op type attributes var consumers) := by
  have unknown : relayName g op var ∉ g.vars := (g.freshName_not_mem _).1
  obtain ⟨h, run, linked, content⟩ := attach_yields hg fresh known unknown type attributes
  have operations : h.operations = g.operations.insert op
      (.between op type attributes var (relayName g op var)) := congrArg Content.operations content
  have known' : relayName g op var ∈ h.vars :=
    (Graph.mem_vars_of_declared (congrArg Content.declarations content)).2 (Or.inl rfl)
  have reads' : ∀ n ∈ consumers, h.Reads n var := by
    intro n hn
    obtain ⟨o, ho, hvar⟩ := reads n hn
    refine ⟨o, ?_, hvar⟩
    rw [Graph.getOperation?, operations, NameMap.get?_insert, if_neg]
    · exact ho
    · rintro rfl
      exact fresh (Graph.mem_operations_iff.2 ⟨o, ho⟩)
  obtain ⟨h', run', linked', content'⟩ := forM_replaceInput_yields linked nodup reads' known'
  refine ⟨h', ?_, linked', ?_⟩
  · have both := bind_of_ok run (f := fun _ =>
      consumers.forM fun n => replaceInput n var (relayName g op var))
    rw [bind_assoc] at both
    exact both.trans run'
  · rw [content', content, operations]
    rfl

theorem insertBetween_append {relay : String} {type : String} {attributes : NameMap (Attribute α)}
    {l r : List String} {h : Graph α}
    (done : insertBetween op type attributes var relay l g = .ok () h) :
    insertBetween op type attributes var relay (l ++ r) g =
      (r.forM fun n => replaceInput n var relay) h := by
  obtain ⟨_, s, declared, rest⟩ := bind_eq_ok.1 done
  obtain ⟨_, t, created, rewired⟩ := bind_eq_ok.1 rest
  rw [insertBetween, bind_of_ok declared, bind_of_ok created, forM_append_of_ok rewired]

theorem readers_check {v : Variable α} (hg : g.Linked) (hv : g.getVariable? var = some v)
    (reads : ∀ n ∈ consumers, g.Reads n var) :
    (consumers.forM fun n => (require (v.consumers.contains n) (.notRead n var) : Edit α Unit)) g =
      .ok () g := by
  refine (forM_check (p := fun n => n ∈ v.consumers) (fun n hn => ?_) fun n hn => ?_).1 ?_
  · exact require_ok (List.contains_iff_mem.2 hn)
  · exact ⟨_, require_error (by simpa using hn)⟩
  · exact fun n hn => (hg.mem_consumers hv).2 (reads n hn)

theorem insertOnVariable_unknown (unknown : var ∉ g.vars) (type : String)
    (attributes : NameMap (Attribute α)) (consumers : List String) :
    insertOnVariable op type attributes var consumers g = .error (.insertedOnUnknown op var) g := by
  have hv : g.getVariable? var = none := NameMap.get?_eq_none_iff.2 unknown
  simp only [insertOnVariable, bind_of_ok (run_get g), hv, run_throw]

/-- The first consumer that does not read the variable is the one that is refused. -/
theorem insertOnVariable_unread (hg : g.Linked) (known : var ∈ g.vars) {n : String}
    (reads : ∀ m ∈ consumers, g.Reads m var) (unread : ¬g.Reads n var) (type : String)
    (attributes : NameMap (Attribute α)) (rest : List String) :
    insertOnVariable op type attributes var (consumers ++ n :: rest) g =
      .error (.notRead n var) g := by
  obtain ⟨v, hv⟩ := Graph.mem_vars_iff.1 known
  have unlisted : v.consumers.contains n = false := by
    rw [Bool.eq_false_iff]
    exact fun listed => unread ((hg.mem_consumers hv).1 (List.contains_iff_mem.1 listed))
  have checked : ((consumers ++ n :: rest).forM fun n =>
      (require (v.consumers.contains n) (.notRead n var) : Edit α Unit)) g =
        .error (.notRead n var) g :=
    (forM_append_of_ok (readers_check hg hv reads)).trans (bind_of_error (require_error unlisted))
  simp only [insertOnVariable, bind_of_ok (run_get g), hv]
  exact bind_of_error checked

/-- Once every consumer is known to read the variable, the edits run one after the other. -/
theorem insertOnVariable_checked (hg : g.Linked) (known : var ∈ g.vars)
    (reads : ∀ n ∈ consumers, g.Reads n var) (type : String) (attributes : NameMap (Attribute α)) :
    insertOnVariable op type attributes var consumers g = (do
      insertBetween op type attributes var (relayName g op var) consumers
      return relayName g op var) g := by
  obtain ⟨v, hv⟩ := Graph.mem_vars_iff.1 known
  simp only [insertOnVariable, bind_of_ok (run_get g), hv]
  rw [bind_of_ok (readers_check hg hv reads), bind_of_ok (run_get g)]
  simp only [insertBetween, bind_assoc]
  rfl

theorem insertOnVariable_yields (hg : g.Linked) (fresh : op ∉ g.operations)
    (known : var ∈ g.vars) (nodup : consumers.Nodup) (reads : ∀ n ∈ consumers, g.Reads n var)
    (type : String) (attributes : NameMap (Attribute α)) :
    Yields (insertOnVariable op type attributes var consumers) g (relayName g op var)
      (inserted g op type attributes var consumers) := by
  obtain ⟨h, run, left⟩ := insertBetween_yields hg fresh known nodup reads type attributes
  refine ⟨h, ?_, left⟩
  rw [insertOnVariable_checked hg known reads]
  exact bind_of_ok run

end Edit

end GraphDispatch
