import GraphDispatch.Proofs.Links.Refusals

/-!
# Consumers behind an inserted operation

An insertion that succeeds has put its operation between a variable and the consumers that it was
told: they read the relay where they read the variable, both lists of consumers follow, and all
else stays. Links are found from the slots, as the edits leave a linked graph.
-/

namespace GraphDispatch

variable {α : Type} {g h : Graph α} {var relay : String} {consumers : List String}

/-- `o'` is `o`, but that it reads `new` in exactly the slots where `o` reads `old`. -/
structure Operation.Redirected (o : Operation α) (old new : String) (o' : Operation α) : Prop where
  same : o' = { o with inputs := o'.inputs }
  slots : ∀ i : Nat, (o'.inputs[i]? = some new ↔ o.inputs[i]? = some old) ∧
    (o.inputs[i]? ≠ some old → o'.inputs[i]? = o.inputs[i]?)

theorem Operation.Redirected.of_unread {o : Operation α} (unread : relay ∉ o.inputs) :
    o.Redirected var relay (o.redirect var relay) where
  same := rfl
  slots i := by
    rw [Operation.redirect, List.getElem?_map]
    cases slot : o.inputs[i]? with
    | none => simp
    | some a =>
      have other : a ≠ relay := fun same => unread (same ▸ List.mem_of_getElem? slot)
      by_cases old : a = var
      · simp [old]
      · simp [old, other]

/-- `h` is `g` with the operation `op` on `var`. The consumers that are listed read `relay`, which
the operation produces, in place of `var`; nothing else is different. -/
structure Graph.Interposed (g h : Graph α) (op type : String) (attributes : NameMap (Attribute α))
    (var relay : String) (consumers : List String) : Prop where
  fresh : relay ∉ g.vars
  operation : h.getOperation? op = some ⟨op, type, attributes, [var], [relay], .unspecified⟩
  rewired : ∀ n ∈ consumers, ∃ o o', g.getOperation? n = some o ∧ h.getOperation? n = some o' ∧
    o.Redirected var relay o'
  /-- `var` is read by the consumers that are not listed, and by the operation. -/
  source : ∃ v readers, g.getVariable? var = some v ∧
    h.getVariable? var = some { v with consumers := readers } ∧
    readers.Perm (op :: (g.consumersOf var).filter (· ∉ consumers)) ∧ readers.Pairwise (· ≤ ·)
  /-- The relay is read by those that are listed, as often as they read `var` before. -/
  target : ∃ readers, h.getVariable? relay = some ⟨relay, none, false, some op, readers⟩ ∧
    readers = (g.consumersOf var).filter (· ∈ consumers) ∧ readers.Pairwise (· ≤ ·)
  operations : ∀ n, n ≠ op → n ∉ consumers → h.getOperation? n = g.getOperation? n
  vars : ∀ n, n ≠ var → n ≠ relay → h.getVariable? n = g.getVariable? n
  name : h.name = g.name
  inputs : h.inputs = g.inputs
  outputs : h.outputs = g.outputs

/-- The slots of `h` are those of `g`, but for an operation that hands `var` on to the consumers. -/
structure Graph.Inserted (g h : Graph α) (o : Operation α) (var relay : String)
    (consumers : List String) : Prop where
  before : g.Linked
  after : h.Linked
  unused : o.name ∉ g.operations
  known : var ∈ g.vars
  fresh : relay ∉ g.vars
  slots : o.inputs = [var] ∧ o.outputs = [relay]
  reads : ∀ n ∈ consumers, g.Reads n var
  content : h.content = { g.content with
    operations := (g.operations.insert o.name o).mapEntries fun n o =>
      if n ∈ consumers then o.redirect var relay else o
    declarations := g.content.declarations.insert relay ⟨relay, none, false⟩ }

namespace Graph.Inserted

variable {o : Operation α} {n x : String} (ins : g.Inserted h o var relay consumers)
include ins

theorem absent : g.getOperation? o.name = none := NameMap.get?_eq_none_iff.2 ins.unused

theorem unlisted : o.name ∉ consumers := by
  intro listed
  obtain ⟨_, found, -⟩ := ins.reads _ listed
  exact ins.unused (mem_operations_iff.2 ⟨_, found⟩)

theorem relay_ne : relay ≠ var := fun same => ins.fresh (same ▸ ins.known)

theorem relay_unread {p : Operation α} (hp : g.getOperation? n = some p) : relay ∉ p.inputs :=
  fun read => ins.fresh (ins.before.input_known hp read)

theorem getOperation?_eq (n : String) : h.getOperation? n = if n = o.name then some o
    else (g.getOperation? n).map fun o => if n ∈ consumers then o.redirect var relay else o := by
  have operations : h.operations = _ := congrArg Content.operations ins.content
  rw [getOperation?, operations, NameMap.get?_mapEntries, NameMap.get?_insert]
  by_cases new : n = o.name
  · rw [if_pos new, if_pos new, Option.map_some, if_neg (new ▸ ins.unlisted)]
  · rw [if_neg new, if_neg new, getOperation?]

theorem getOperation?_listed {p : Operation α} (listed : n ∈ consumers)
    (hp : g.getOperation? n = some p) : h.getOperation? n = some (p.redirect var relay) := by
  have old : n ≠ o.name := ne_of_mem_of_not_mem listed ins.unlisted
  rw [ins.getOperation?_eq, if_neg old, hp, Option.map_some, if_pos listed]

theorem getOperation?_unlisted (old : n ≠ o.name) (unlisted : n ∉ consumers) :
    h.getOperation? n = g.getOperation? n := by
  rw [ins.getOperation?_eq, if_neg old]
  simp only [if_neg unlisted, Option.map_id']

theorem get?_declarations_of_ne (other : n ≠ relay) :
    h.content.declarations.get? n = g.content.declarations.get? n := by
  have declarations : h.content.declarations = _ := congrArg Content.declarations ins.content
  rw [declarations, NameMap.get?_insert, if_neg other]

theorem produces_iff : h.Produces n x ↔ n = o.name ∧ x = relay ∨ g.Produces n x := by
  unfold Produces
  rw [ins.getOperation?_eq]
  by_cases new : n = o.name
  · subst new
    simp [ins.absent, ins.slots.2]
  · rw [if_neg new]
    simp only [Option.map_eq_some_iff, new, false_and, false_or]
    constructor
    · rintro ⟨_, ⟨p, hp, rfl⟩, made⟩
      refine ⟨p, hp, ?_⟩
      split at made <;> exact made
    · rintro ⟨p, hp, made⟩
      refine ⟨_, ⟨p, hp, rfl⟩, ?_⟩
      split <;> exact made

theorem producer?_relay : h.producer? relay = some o.name :=
  ins.after.producer?_eq_some.2 (ins.produces_iff.2 (Or.inl ⟨rfl, rfl⟩))

theorem producer?_of_ne (other : x ≠ relay) : h.producer? x = g.producer? x :=
  ins.after.producer?_congr ins.before fun n => by simp [ins.produces_iff, other]

/-- How often an operation reads a variable, after and before. -/
theorem count_consumersOf (x n : String) : (h.consumersOf x).count n =
    if n = o.name then [var].count x
    else if n ∈ consumers then (if x = var then 0 else (g.consumersOf x).count n) +
      if x = relay then (g.consumersOf var).count n else 0
    else (g.consumersOf x).count n := by
  rw [ins.after.count_consumersOf, ins.before.count_consumersOf, ins.before.count_consumersOf,
    ins.getOperation?_eq]
  split
  · rw [Option.map_some, Option.getD_some, ins.slots.1]
  · cases g.getOperation? n with
    | none => simp
    | some p =>
      simp only [Option.map_some, Option.getD_some]
      split
      · exact Operation.count_redirect _ _ _ _
      · rfl

theorem count_new (x : String) : (g.consumersOf x).count o.name = 0 := by
  rw [ins.before.count_consumersOf, ins.absent]
  rfl

theorem count_relay (n : String) : (g.consumersOf relay).count n = 0 := by
  rw [ins.before.count_consumersOf]
  cases hp : g.getOperation? n with
  | none => rfl
  | some p => exact List.count_eq_zero.2 (ins.relay_unread hp)

theorem consumersOf_relay :
    h.consumersOf relay = (g.consumersOf var).filter (· ∈ consumers) := by
  refine eq_of_count_eq (ins.after.consumersOf_sorted _)
    ((ins.before.consumersOf_sorted var).filter _) fun n => ?_
  have apart := ins.relay_ne
  rw [ins.count_consumersOf, count_filter_eq, ins.count_relay]
  by_cases new : n = o.name
  · simp [new, ins.unlisted, apart.symm]
  · simp [new, apart]

theorem consumersOf_var :
    (h.consumersOf var).Perm (o.name :: (g.consumersOf var).filter (· ∉ consumers)) := by
  refine List.perm_iff_count.2 fun n => ?_
  have apart := ins.relay_ne
  rw [ins.count_consumersOf, List.count_cons (l := (g.consumersOf var).filter _), count_filter_eq]
  by_cases new : n = o.name
  · simp [new, ins.unlisted, ins.count_new]
  · by_cases listed : n ∈ consumers <;> simp [new, Ne.symm new, listed, apart.symm]

theorem consumersOf_of_ne (old : x ≠ var) (other : x ≠ relay) :
    h.consumersOf x = g.consumersOf x := by
  refine eq_of_count_eq (ins.after.consumersOf_sorted _) (ins.before.consumersOf_sorted _)
    fun n => ?_
  rw [ins.count_consumersOf, if_neg old, if_neg other, Nat.add_zero, ite_self]
  split
  · rw [‹n = o.name›, ins.count_new]
    exact List.count_eq_zero.2 (by simpa using old)
  · rfl

theorem getVariable?_relay :
    h.getVariable? relay = some ⟨relay, none, false, some o.name, h.consumersOf relay⟩ := by
  have declarations : h.content.declarations = _ := congrArg Content.declarations ins.content
  refine getVariable?_eq_some_iff.2 ⟨?_, ins.producer?_relay, rfl⟩
  rw [declarations, NameMap.get?_insert_self]
  rfl

theorem getVariable?_var {v : Variable α} (hv : g.getVariable? var = some v) :
    h.getVariable? var = some { v with consumers := h.consumersOf var } := by
  obtain ⟨declared, producer, -⟩ := getVariable?_eq_some_iff.1 hv
  refine getVariable?_eq_some_iff.2 ⟨?_, ?_, rfl⟩
  · rw [ins.get?_declarations_of_ne ins.relay_ne.symm, declared]
    rfl
  · rw [ins.producer?_of_ne ins.relay_ne.symm, producer]

theorem getVariable?_of_ne (old : x ≠ var) (other : x ≠ relay) :
    h.getVariable? x = g.getVariable? x := by
  apply Option.ext
  intro v
  rw [getVariable?_eq_some_iff, getVariable?_eq_some_iff, ins.get?_declarations_of_ne other,
    ins.producer?_of_ne other, ins.consumersOf_of_ne old other]

end Graph.Inserted

theorem Graph.Inserted.interposed {op type : String} {attributes : NameMap (Attribute α)}
    (ins : g.Inserted h (.between op type attributes var relay) var relay consumers) :
    g.Interposed h op type attributes var relay consumers where
  fresh := ins.fresh
  operation := (ins.getOperation?_eq op).trans (if_pos rfl)
  rewired n listed := by
    obtain ⟨o, ho, -⟩ := ins.reads n listed
    exact ⟨o, _, ho, ins.getOperation?_listed listed ho, .of_unread (ins.relay_unread ho)⟩
  source := by
    obtain ⟨v, hv⟩ := Graph.mem_vars_iff.1 ins.known
    exact ⟨v, h.consumersOf var, hv, ins.getVariable?_var hv, ins.consumersOf_var,
      ins.after.consumersOf_sorted var⟩
  target := ⟨h.consumersOf relay, ins.getVariable?_relay, ins.consumersOf_relay,
    ins.after.consumersOf_sorted relay⟩
  operations _ := ins.getOperation?_unlisted
  vars _ := ins.getVariable?_of_ne
  name := congrArg Content.name ins.content
  inputs := congrArg Content.inputs ins.content
  outputs := congrArg Content.outputs ins.content

namespace Edit

variable {op type : String} {attributes : NameMap (Attribute α)}

theorem insertOnVariable_inserts (hg : g.Linked) (unused : op ∉ g.operations)
    (known : var ∈ g.vars) (distinct : consumers.Nodup) (reads : ∀ n ∈ consumers, g.Reads n var)
    (type : String) (attributes : NameMap (Attribute α)) :
    ∃ relay h, insertOnVariable op type attributes var consumers g = .ok relay h ∧
      g.Inserted h (.between op type attributes var relay) var relay consumers := by
  obtain ⟨h, run, linked, content⟩ :=
    insertOnVariable_yields hg unused known distinct reads type attributes
  exact ⟨_, h, run, hg, linked, unused, known, (g.freshName_not_mem _).1, ⟨rfl, rfl⟩, reads,
    content⟩

/-- An operation with a new name can be put between a variable and any of its consumers, each
listed once. They read a new variable in place of the old one, and the rest of the graph stays. -/
theorem insertOnVariable_splices [Scalar α] (reachable : Reachable g) (known : var ∈ g.vars)
    (unused : op ∉ g.operations) (distinct : consumers.Nodup)
    (reads : ∀ n ∈ consumers, g.Reads n var) (type : String)
    (attributes : NameMap (Attribute α)) :
    ∃ relay h, insertOnVariable op type attributes var consumers g = .ok relay h ∧
      g.Interposed h op type attributes var relay consumers := by
  obtain ⟨relay, h, run, inserted⟩ :=
    insertOnVariable_inserts reachable.linked unused known distinct reads type attributes
  exact ⟨relay, h, run, inserted.interposed⟩

/-- Of the consumers of `x`, only `add` reads the new variable, in both of its slots. -/
theorem insertOnVariable_splices_forked : ∃ relay h,
    insertOnVariable "id" "Identity" ∅ "x" ["add"] forked.graph = .ok relay h ∧
    forked.graph.Interposed h "id" "Identity" ∅ "x" relay ["add"] := by
  have slots : (forked.graph.getOperation? "add").any (·.inputs.contains "x") = true := by
    decide
  obtain ⟨o, ho, listed⟩ := (Option.any_eq_true _ _).1 slots
  have reads : ∀ n ∈ ["add"], forked.graph.Reads n "x" := by
    intro n hn
    rw [List.mem_singleton.1 hn]
    exact ⟨o, ho, List.contains_iff_mem.1 listed⟩
  exact insertOnVariable_splices forked_reachable (by decide) (by decide) (by decide) reads
    "Identity" ∅

end Edit

end GraphDispatch
