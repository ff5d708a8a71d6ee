import GraphDispatch.Proofs.Links.Insertion
import GraphDispatch.Proofs.Links.Runs
import GraphDispatch.Proofs.Lists
import GraphDispatch.Proofs.Outcomes

/-!
# What failing edits leave behind

An edit that checks what it is given before it changes anything leaves the graph alone where it
fails: the look-ups that come later cannot fail where both sides of the links agree. An insertion
on a variable is a sequence of such edits, and its checks do not rule out that one of them fails
after others have changed the graph.
-/

namespace GraphDispatch

variable {α β : Type} {g h : Graph α} {e : EditError}

namespace Edit

theorem Effects.unchanged {m : Edit α β} {E : Graph α → Content α → Prop} (effects : Effects m E)
    (hg : g.Linked) (run : m g = .error e h) : h = g := by
  rcases effects g hg with ⟨b, c, ⟨k, done, -⟩, -⟩ | ⟨e', refused⟩
  · rw [done] at run
    cases run
  · rw [refused] at run
    cases run
    rfl

/-- The edits that others are made of. -/
inductive Elementary : {β : Type} → Edit α β → Prop where
  | createVariable (var : String) (value : Option (Tensor α)) :
    Elementary (createVariable var value)
  | createOperation (op type : String) (attributes : NameMap (Attribute α))
    (inputs outputs : List String) : Elementary (createOperation op type attributes inputs outputs)
  | markInput (var : String) : Elementary (markInput var)
  | markOutput (var : String) : Elementary (markOutput var)
  | removeOperation (op : String) : Elementary (removeOperation op)
  | removeVariable (var : String) : Elementary (removeVariable var)
  | replaceInput (op old new : String) : Elementary (replaceInput op old new)
  | replaceOutput (op old new : String) : Elementary (replaceOutput op old new)
  | appendInput (op var : String) : Elementary (appendInput op var)
  | truncateInputs (op : String) (keep : Nat) : Elementary (truncateInputs op keep)
  | setAttribute (op key : String) (value : Attribute α) : Elementary (setAttribute op key value)
  | removeAttribute (op key : String) : Elementary (removeAttribute op key)
  | setValue (var : String) (value : Tensor α) : Elementary (setValue var value)

/-- Whatever an elementary edit is given, it does all of its work or none. -/
theorem Elementary.effects {m : Edit α β} (elementary : Elementary m) : ∃ E, Effects m E := by
  cases elementary with
  | createVariable var value => exact ⟨_, createVariable_effects var value⟩
  | createOperation op type attributes inputs outputs =>
    exact ⟨_, createOperation_effects op type attributes inputs outputs⟩
  | markInput var => exact ⟨_, markInput_effects var⟩
  | markOutput var => exact ⟨_, markOutput_effects var⟩
  | removeOperation op => exact ⟨_, removeOperation_effects op⟩
  | removeVariable var => exact ⟨_, removeVariable_effects var⟩
  | replaceInput op old new => exact ⟨_, replaceInput_effects op old new⟩
  | replaceOutput op old new => exact ⟨_, replaceOutput_effects op old new⟩
  | appendInput op var => exact ⟨_, appendInput_modifies op var⟩
  | truncateInputs op keep => exact ⟨_, truncateInputs_modifies op keep⟩
  | setAttribute op key value => exact ⟨_, setAttribute_modifies op key value⟩
  | removeAttribute op key => exact ⟨_, removeAttribute_modifies op key⟩
  | setValue var value => exact ⟨_, setValue_effects var value⟩

/-- What is left of an insertion that fails, and the error it fails with. -/
inductive Stranded (g : Graph α) (op type : String) (attributes : NameMap (Attribute α))
    (var : String) (consumers : List String) : EditError → Graph α → Prop where
  | unknown (absent : var ∉ g.vars) :
    Stranded g op type attributes var consumers (.insertedOnUnknown op var) g
  | unread {before rest : List String} {n : String} (known : var ∈ g.vars)
    (split : consumers = before ++ n :: rest) (reads : ∀ m ∈ before, g.Reads m var)
    (other : ¬g.Reads n var) : Stranded g op type attributes var consumers (.notRead n var) g
  /-- The new variable is there, without links. -/
  | taken {h : Graph α} (known : var ∈ g.vars) (reads : ∀ n ∈ consumers, g.Reads n var)
    (used : op ∈ g.operations) (linked : h.Linked)
    (content : h.content = { g.content with
      declarations := g.content.declarations.insert (relayName g op var)
        ⟨relayName g op var, none, false⟩ }) :
    Stranded g op type attributes var consumers (.operationExists op) h
  /-- The operation is there, and the consumers up to the repeated one read from it. -/
  | repeated {h : Graph α} {before rest : List String} {n : String} (known : var ∈ g.vars)
    (reads : ∀ n ∈ consumers, g.Reads n var) (fresh : op ∉ g.operations)
    (split : consumers = before ++ n :: rest) (nodup : before.Nodup) (again : n ∈ before)
    (linked : h.Linked) (content : h.content = inserted g op type attributes var before) :
    Stranded g op type attributes var consumers (.notRead n var) h

variable {op type var : String} {attributes : NameMap (Attribute α)} {consumers : List String}

theorem stranded_taken (hg : g.Linked) (known : var ∈ g.vars)
    (reads : ∀ n ∈ consumers, g.Reads n var) (taken : op ∈ g.operations)
    (run : insertOnVariable op type attributes var consumers g = .error e h) :
    Stranded g op type attributes var consumers e h := by
  have unknown : relayName g op var ∉ g.vars := (g.freshName_not_mem _).1
  obtain ⟨k, created, linked, content⟩ :=
    (createVariable_yields hg unknown : Yields (createVariable (relayName g op var) none) g _ _)
  have operations : k.operations = g.operations := congrArg Content.operations content
  have refused : discard (createOperation op type attributes [var] [relayName g op var]) k =
      .error (.operationExists op) k :=
    discard_of_error (createOperation_taken (operations ▸ taken))
  rw [insertOnVariable_checked hg known reads, insertBetween] at run
  simp only [bind_assoc] at run
  rw [bind_of_ok (discard_of_ok created), bind_of_error refused] at run
  cases run
  exact .taken known reads taken linked content

/-- A consumer that was rewired does not read the variable any more. -/
theorem unread_of_inserted (hh : h.content = inserted g op type attributes var consumers)
    (known : var ∈ g.vars) (fresh : op ∉ g.operations) {n : String} (reads : g.Reads n var)
    (rewired : n ∈ consumers) : ∃ o, h.getOperation? n = some o ∧ var ∉ o.inputs := by
  obtain ⟨o, ho, -⟩ := reads
  have renamed : relayName g op var ≠ var := fun same => (g.freshName_not_mem _).1 (same ▸ known)
  have old : n ≠ op := fun same => fresh (same ▸ Graph.mem_operations_iff.2 ⟨o, ho⟩)
  have operations : h.operations = _ := congrArg Content.operations hh
  refine ⟨o.redirect var (relayName g op var), ?_, Operation.not_mem_redirect renamed o⟩
  rw [Graph.getOperation?, operations, inserted, NameMap.get?_mapEntries, NameMap.get?_insert,
    if_neg old, ← Graph.getOperation?, ho, Option.map_some, if_pos rewired]

theorem stranded_repeated (hg : g.Linked) (known : var ∈ g.vars)
    (reads : ∀ n ∈ consumers, g.Reads n var) (fresh : op ∉ g.operations)
    (repeated : ¬consumers.Nodup)
    (run : insertOnVariable op type attributes var consumers g = .error e h) :
    Stranded g op type attributes var consumers e h := by
  obtain ⟨before, n, rest, split, nodup, again⟩ := exists_first_repeated repeated
  have reads' : ∀ m ∈ before, g.Reads m var := fun m hm => reads m (by simp [split, hm])
  -- up to the repeated consumer the edits are those of an insertion that succeeds
  obtain ⟨k, done, linked, content⟩ :=
    insertBetween_yields hg fresh known nodup reads' type attributes
  obtain ⟨o, ho, unread⟩ := unread_of_inserted content known fresh (reads' n again) again
  have declared : relayName g op var ∈ k.vars :=
    (Graph.mem_vars_of_declared (congrArg Content.declarations content)).2 (Or.inl rfl)
  have refused := replaceInput_notRead ho unread declared
  rw [insertOnVariable_checked hg known reads] at run
  have stopped : insertBetween op type attributes var (relayName g op var) consumers g =
      .error (.notRead n var) k := by
    rw [split, insertBetween_append done]
    exact bind_of_error refused
  rw [bind_of_error stopped] at run
  cases run
  exact .repeated known reads fresh split nodup again linked content

theorem stranded_of_error (hg : g.Linked)
    (run : insertOnVariable op type attributes var consumers g = .error e h) :
    Stranded g op type attributes var consumers e h := by
  by_cases known : var ∈ g.vars
  · by_cases reads : ∀ n ∈ consumers, g.Reads n var
    · by_cases taken : op ∈ g.operations
      · exact stranded_taken hg known reads taken run
      · refine stranded_repeated hg known reads taken (fun nodup => ?_) run
        obtain ⟨k, done, -⟩ := insertOnVariable_yields hg taken known nodup reads type attributes
        rw [done] at run
        cases run
    · obtain ⟨before, n, rest, split, reads, unread⟩ := exists_first_not reads
      rw [split, insertOnVariable_unread hg known reads unread] at run
      cases run
      exact .unread known split reads unread
  · rw [insertOnVariable_unknown known] at run
    cases run
    exact .unknown known

namespace Stranded

/-- What the checks let through leaves at least the new variable. -/
theorem unchanged_iff (stranded : Stranded g op type attributes var consumers e h) :
    h = g ↔ ¬(var ∈ g.vars ∧ ∀ n ∈ consumers, g.Reads n var) := by
  have declared : ∀ {k : Graph α} {d : Declaration α}, k.content.declarations =
      g.content.declarations.insert (relayName g op var) d → k ≠ g := by
    rintro k d declarations rfl
    exact (k.freshName_not_mem (var ++ "." ++ op)).1
      ((Graph.mem_vars_of_declared declarations).2 (Or.inl rfl))
  cases stranded with
  | unknown absent => exact iff_of_true rfl fun checked => absent checked.1
  | unread known split reads other =>
    exact iff_of_true rfl fun checked => other (checked.2 _ (by simp [split]))
  | taken known reads used linked content =>
    exact iff_of_false (declared (congrArg Content.declarations content)) (not_not.2 ⟨known, reads⟩)
  | repeated known reads fresh split nodup again linked content =>
    exact iff_of_false (declared (congrArg Content.declarations content)) (not_not.2 ⟨known, reads⟩)

/-- A free name and different consumers leave nothing that could fail after the checks. -/
theorem unchanged_or (stranded : Stranded g op type attributes var consumers e h) :
    h = g ∨ op ∈ g.operations ∨ ¬consumers.Nodup := by
  cases stranded with
  | unknown absent => exact Or.inl rfl
  | unread known split reads other => exact Or.inl rfl
  | taken known reads used linked content => exact Or.inr (Or.inl used)
  | repeated known reads fresh split nodup again linked content =>
    refine Or.inr (Or.inr fun distinct => ?_)
    rw [split] at distinct
    exact (List.nodup_append.1 distinct).2.2 _ again _ List.mem_cons_self rfl

end Stranded

/-- `add` reads a variable twice, `relu` reads it once. -/
def forked : Document Float32 where
  name := "net"
  inputs := ["x"]
  outputs := ["y", "z"]
  vars := ["x", "y", "z"].map fun var => ⟨var, none, false⟩
  operations := [⟨"add", "Add", ∅, ["x", "x"], ["y"], .unspecified⟩,
    ⟨"relu", "Relu", ∅, ["x"], ["z"], .unspecified⟩]

theorem forked_reachable : Reachable forked.graph :=
  ⟨forked.graph, [], .built (show forked.build = .ok forked.graph from rfl), rfl⟩

section Reachable

variable [Scalar α]

/-- An elementary edit that fails leaves every reachable graph exactly as it was. -/
theorem unchanged_of_error {m : Edit α β} (elementary : Elementary m) (reachable : Reachable g)
    (run : m g = .error e h) : h = g := by
  obtain ⟨E, effects⟩ := elementary.effects
  exact effects.unchanged reachable.linked run

theorem unchanged_of_error_forked : ∃ e h,
    replaceInput "add" "z" "x" forked.graph = .error e h ∧ h = forked.graph := by
  obtain ⟨e, h, run, -⟩ : ∃ e h, replaceInput "add" "z" "x" forked.graph = .error e h ∧
      e = .notRead "add" "z" := by decide +kernel
  exact ⟨e, h, run, unchanged_of_error (.replaceInput "add" "z" "x") forked_reachable run⟩

/-- An insertion that fails leaves a reachable graph as it was exactly where the variable is
unknown or a consumer does not read it. Otherwise its name is taken or a consumer repeated, and
the edits up to there remain. -/
theorem insertOnVariable_strands (reachable : Reachable g)
    (run : insertOnVariable op type attributes var consumers g = .error e h) :
    (h = g ∨ op ∈ g.operations ∨ ¬consumers.Nodup) ∧
      (h = g ↔ ¬(var ∈ g.vars ∧ ∀ n ∈ consumers, g.Reads n var)) ∧
      Stranded g op type attributes var consumers e h := by
  have stranded := stranded_of_error reachable.linked run
  exact ⟨stranded.unchanged_or, stranded.unchanged_iff, stranded⟩

theorem insertOnVariable_strands_forked : ∃ h,
    insertOnVariable "id" "Identity" ∅ "x" ["add", "relu", "add"] forked.graph =
      .error (.notRead "add" "x") h ∧
    Stranded forked.graph "id" "Identity" ∅ "x" ["add", "relu", "add"] (.notRead "add" "x") h := by
  obtain ⟨e, h, run, rfl⟩ : ∃ e h,
      insertOnVariable "id" "Identity" ∅ "x" ["add", "relu", "add"] forked.graph = .error e h ∧
      e = .notRead "add" "x" := by decide +kernel
  exact ⟨h, run, (insertOnVariable_strands forked_reachable run).2.2⟩

/-- With the name of an operation and with a repeated consumer, insertions fail half-way. -/
theorem insertOnVariable_leaves_relay : Reachable forked.graph ∧
    (∃ e h, insertOnVariable "relu" "Identity" ∅ "x" ["add"] forked.graph = .error e h ∧
      e = .operationExists "relu" ∧ "x.relu_0" ∈ h.vars ∧ h ≠ forked.graph) ∧
    ∃ e h, insertOnVariable "id" "Identity" ∅ "x" ["add", "add"] forked.graph = .error e h ∧
      e = .notRead "add" "x" ∧ "id" ∈ h.operations ∧
      (h.getOperation? "add").map (·.inputs) = some ["x.id_0", "x.id_0"] ∧ h ≠ forked.graph := by
  have taken : ∃ e h, insertOnVariable "relu" "Identity" ∅ "x" ["add"] forked.graph = .error e h ∧
      e = .operationExists "relu" ∧ "x.relu_0" ∈ h.vars := by decide +kernel
  have repeated : ∃ e h, insertOnVariable "id" "Identity" ∅ "x" ["add", "add"] forked.graph =
      .error e h ∧ e = .notRead "add" "x" ∧ "id" ∈ h.operations ∧
      (h.getOperation? "add").map (·.inputs) = some ["x.id_0", "x.id_0"] := by decide +kernel
  obtain ⟨e, h, run, error, relay⟩ := taken
  obtain ⟨e', h', run', error', inserted, rewired⟩ := repeated
  refine ⟨forked_reachable, ⟨e, h, run, error, relay, ?_⟩,
    e', h', run', error', inserted, rewired, ?_⟩
  · rintro rfl
    revert relay
    decide
  · rintro rfl
    revert inserted
    decide

end Reachable

end Edit

end GraphDispatch
