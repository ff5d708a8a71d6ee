import GraphDispatch.Graph.Example
import GraphDispatch.Proofs.Links.Runs
import Mathlib.Data.List.Nodup

/-!
# Documents that build

Building checks each variable and each operation against the part of the graph that
stands already. On linked graphs every step is a condition on the content and a change
of the content (`Follows`), and the conditions of all steps together are one condition
on the lists of the document, in which their order does not matter.
-/

namespace GraphDispatch

variable {α β γ ε δ : Type}

/-- On linked graphs the program succeeds exactly where the content satisfies `P`, and
then changes the content by `change`. -/
def Follows (m : EStateM ε (Graph α) β) (P : Content α → Prop)
    (change : Content α → Content α) : Prop :=
  ∀ g : Graph α, g.Linked →
    (P g.content → ∃ b g', m g = .ok b g' ∧ g'.Linked ∧ g'.content = change g.content) ∧
    (¬P g.content → ∃ e g', m g = .error e g')

namespace Follows

variable {m : EStateM ε (Graph α) β} {n : EStateM ε (Graph α) γ} {P Q : Content α → Prop}
  {change next : Content α → Content α}

theorem congr (hm : Follows m P change) (same : ∀ c, P c ↔ Q c)
    (changes : ∀ c, Q c → change c = next c) : Follows m Q next := by
  intro g hg
  obtain ⟨succeeds, fails⟩ := hm g hg
  rw [same] at succeeds fails
  refine ⟨fun h => ?_, fails⟩
  rw [← changes _ h]
  exact succeeds h

theorem bind (hm : Follows m P change) (hn : Follows n Q next) :
    Follows (m >>= fun _ => n) (fun c => P c ∧ Q (change c)) (next ∘ change) := by
  intro g hg
  obtain ⟨succeeds, fails⟩ := hm g hg
  by_cases hP : P g.content
  · obtain ⟨b, g', run, linked, content⟩ := succeeds hP
    have after := hn g' linked
    rw [content] at after
    constructor
    · rintro ⟨-, hQ⟩
      obtain ⟨c, h, run', rest⟩ := after.1 hQ
      exact ⟨c, h, (bind_of_ok run).trans run', rest⟩
    · intro h
      obtain ⟨e, h', run'⟩ := after.2 fun hQ => h ⟨hP, hQ⟩
      exact ⟨e, h', (bind_of_ok run).trans run'⟩
  · obtain ⟨e, g', run⟩ := fails hP
    exact ⟨fun h => absurd h.1 hP, fun _ => ⟨e, g', bind_of_error run⟩⟩

theorem discard (hm : Follows m P change) : Follows (discard m) P change := by
  intro g hg
  obtain ⟨succeeds, fails⟩ := hm g hg
  constructor
  · intro h
    obtain ⟨b, g', run, rest⟩ := succeeds h
    exact ⟨(), g', discard_of_ok run, rest⟩
  · intro h
    obtain ⟨e, g', run⟩ := fails h
    exact ⟨e, g', discard_of_error run⟩

theorem adaptExcept {wrap : ε → δ} (hm : Follows m P change) :
    Follows (EStateM.adaptExcept wrap m) P change := by
  intro g hg
  obtain ⟨succeeds, fails⟩ := hm g hg
  constructor
  · intro h
    obtain ⟨b, g', run, rest⟩ := succeeds h
    exact ⟨b, g', by simp only [EStateM.adaptExcept, run], rest⟩
  · intro h
    obtain ⟨e, g', run⟩ := fails h
    exact ⟨wrap e, g', by simp only [EStateM.adaptExcept, run]⟩

theorem of_edit {m : Edit α β}
    (yields : ∀ g : Graph α, g.Linked → P g.content →
      ∃ b, Edit.Yields m g b (change g.content))
    (refuses : ∀ g : Graph α, g.Linked → ¬P g.content → Edit.Refuses m g) :
    Follows m P change := by
  intro g hg
  constructor
  · intro h
    obtain ⟨b, g', run, linked, content⟩ := yields g hg h
    exact ⟨b, g', run, linked, content⟩
  · intro h
    obtain ⟨e, run⟩ := refuses g hg h
    exact ⟨e, g, run⟩

/-- `P l` is the condition where the elements of `l` are still to come. -/
theorem forM {f : γ → EStateM ε (Graph α) PUnit} {P : List γ → Content α → Prop}
    {change : Content α → γ → Content α} (nil : ∀ c, P [] c)
    (cons : ∀ b l c, P (b :: l) c ↔ P [b] c ∧ P l (change c b))
    (step : ∀ b, Follows (f b) (P [b]) (change · b)) (l : List γ) :
    Follows (l.forM f) (P l) (l.foldl change) := by
  induction l with
  | nil => exact fun g hg => ⟨fun _ => ⟨⟨⟩, g, rfl, hg, rfl⟩, fun h => absurd (nil _) h⟩
  | cons b l ih => exact ((step b).bind ih).congr (fun c => (cons b l c).symm) fun _ _ => rfl

end Follows

/-- The declaration that the graph keeps: what has a value is a parameter. -/
def Declaration.stored (d : Declaration α) : Declaration α :=
  { d with isParameter := d.isParameter || d.value.isSome }

namespace Content

def declare (c : Content α) (d : Declaration α) : Content α :=
  { c with declarations := c.declarations.insert d.name d.stored }

def add (c : Content α) (o : Operation α) : Content α :=
  { c with operations := c.operations.insert o.name o }

/-- Nothing produces the variable, and it is no parameter. -/
structure Open (c : Content α) (var : String) : Prop where
  plain : ∃ d, c.declarations.get? var = some d ∧ d.isParameter = false
  unmade : ∀ op o, c.operations.get? op = some o → var ∉ o.outputs

/-- Variables that may be declared one after the other. -/
def Declarable (vars : List (Declaration α)) (c : Content α) : Prop :=
  (vars.map (·.name)).Nodup ∧ ∀ d ∈ vars, d.name ∉ c.declarations

/-- Operations that may be added one after the other. -/
structure Addable (ops : List (Operation α)) (c : Content α) : Prop where
  names_nodup : (ops.map (·.name)).Nodup
  fresh : ∀ o ∈ ops, o.name ∉ c.operations
  known : ∀ o ∈ ops, ∀ var ∈ o.inputs, var ∈ c.declarations
  produced_once : (ops.flatMap (·.outputs)).Nodup
  outputs_open : ∀ o ∈ ops, ∀ var ∈ o.outputs, c.Open var

variable {c : Content α}

theorem declarable_cons {d : Declaration α} {vars : List (Declaration α)} :
    c.Declarable (d :: vars) ↔ c.Declarable [d] ∧ (c.declare d).Declarable vars := by
  simp only [Declarable, declare, NameMap.mem_insert, List.map_cons, List.nodup_cons,
    List.mem_map, List.forall_mem_cons]
  grind

theorem open_add {o : Operation α} (fresh : o.name ∉ c.operations) {var : String} :
    (c.add o).Open var ↔ c.Open var ∧ var ∉ o.outputs := by
  have look : ∀ op, (c.add o).operations.get? op =
      if op = o.name then some o else c.operations.get? op :=
    fun op => NameMap.get?_insert c.operations o.name op o
  constructor
  · intro h
    refine ⟨⟨h.plain, fun op p hp => ?_⟩, h.unmade o.name o (by rw [look, if_pos rfl])⟩
    have other : op ≠ o.name := fun same => fresh (same ▸ NameMap.mem_of_get? hp)
    exact h.unmade op p (by rw [look, if_neg other, hp])
  · intro h
    refine ⟨h.1.plain, fun op p hp => ?_⟩
    rw [look] at hp
    split at hp
    · cases hp
      exact h.2
    · exact h.1.unmade op p hp

theorem addable_cons {o : Operation α} {ops : List (Operation α)} :
    c.Addable (o :: ops) ↔ c.Addable [o] ∧ (c.add o).Addable ops := by
  constructor
  · intro h
    have fresh := h.fresh o List.mem_cons_self
    obtain ⟨newName, names⟩ := List.nodup_cons.1 h.names_nodup
    obtain ⟨own, others, apart⟩ := List.nodup_append'.1 (List.flatMap_cons ▸ h.produced_once)
    refine ⟨⟨by simp, by simpa using fresh, by simpa using h.known o List.mem_cons_self,
      by simpa using own, by simpa using h.outputs_open o List.mem_cons_self⟩,
      ⟨names, fun p hp => ?_, fun p hp => h.known p (List.mem_cons_of_mem _ hp), others,
        fun p hp var hvar => ?_⟩⟩
    · rintro known
      rcases NameMap.mem_insert.1 known with same | old
      · exact newName (List.mem_map.2 ⟨p, hp, same⟩)
      · exact h.fresh p (List.mem_cons_of_mem _ hp) old
    · refine (open_add fresh).2 ⟨h.outputs_open p (List.mem_cons_of_mem _ hp) var hvar, ?_⟩
      exact fun mine => apart mine (List.mem_flatMap.2 ⟨p, hp, hvar⟩)
  · rintro ⟨first, rest⟩
    have fresh := first.fresh o List.mem_cons_self
    have parted : ∀ p ∈ ops, ∀ var ∈ p.outputs, c.Open var ∧ var ∉ o.outputs :=
      fun p hp var hvar => (open_add fresh).1 (rest.outputs_open p hp var hvar)
    constructor
    · refine List.nodup_cons.2 ⟨fun repeated => ?_, rest.names_nodup⟩
      obtain ⟨p, hp, same⟩ := List.mem_map.1 repeated
      exact rest.fresh p hp (NameMap.mem_insert.2 (.inl same))
    · refine List.forall_mem_cons.2 ⟨fresh, fun p hp old => ?_⟩
      exact rest.fresh p hp (NameMap.mem_insert.2 (.inr old))
    · exact List.forall_mem_cons.2 ⟨first.known o List.mem_cons_self, rest.known⟩
    · rw [List.flatMap_cons, List.nodup_append']
      refine ⟨by simpa using first.produced_once, rest.produced_once, fun var mine hvar => ?_⟩
      obtain ⟨p, hp, hvar⟩ := List.mem_flatMap.1 hvar
      exact (parted p hp var hvar).2 mine
    · refine List.forall_mem_cons.2 ⟨first.outputs_open o List.mem_cons_self, ?_⟩
      exact fun p hp var hvar => (parted p hp var hvar).1

end Content

open Content

namespace Graph.Linked

variable {g : Graph α}

theorem free_iff (hg : g.Linked) {var : String} : Edit.Free g var ↔ g.content.Open var := by
  have produced : ∀ {v : Variable α}, g.getVariable? var = some v →
      (v.producer = none ↔ ∀ op o, g.getOperation? op = some o → var ∉ o.outputs) := by
    intro v hv
    rw [Option.eq_none_iff_forall_not_mem]
    simp only [Option.mem_def, hg.producer_iff hv, not_exists, not_and]
  constructor
  · rintro ⟨v, hv, unmade, plain⟩
    exact ⟨⟨v.declaration, by rw [g.get?_declarations, hv]; rfl, plain⟩, (produced hv).1 unmade⟩
  · rintro ⟨⟨d, hd, plain⟩, unmade⟩
    rw [g.get?_declarations] at hd
    obtain ⟨v, hv, rfl⟩ := Option.map_eq_some_iff.1 hd
    exact ⟨v, hv, (produced hv).2 unmade, plain⟩

theorem creatable_iff (hg : g.Linked) (o : Operation α) :
    Edit.Creatable g o.name o.inputs o.outputs ↔ g.content.Addable [o] := by
  constructor
  · intro h
    exact ⟨by simp, List.forall_mem_singleton.2 h.fresh, by simpa using h.inputs_known,
      by simpa using h.nodup, by simpa [hg.free_iff] using h.outputs_free⟩
  · intro h
    exact ⟨h.fresh o List.mem_cons_self, by simpa using h.known,
      by simpa [hg.free_iff] using h.outputs_open, by simpa using h.produced_once⟩

end Graph.Linked

namespace Document

theorem declare_follows (d : Declaration α) :
    Follows (declare d) (Declarable [d]) (Content.declare · d) := by
  intro g hg
  have once : g.content.Declarable [d] ↔ d.name ∉ g.vars := by simp [Declarable]
  rw [once]
  constructor
  · intro fresh
    have absent : g.vars.contains d.name = false := NameMap.contains_eq_false_iff.2 fresh
    refine ⟨⟨⟩, g.putVariable ⟨d.name, d.value, d.isParameter || d.value.isSome, none, []⟩, ?_,
      hg.putVariable fresh ⟨rfl, rfl⟩ fun h => by simp [h], ?_⟩
    · simp only [declare, run_bind, run_get, absent, Bool.false_eq_true, if_false, run_modify]
    · simp [Graph.content, Graph.putVariable, NameMap.mapEntries_insert, Variable.declaration,
        Content.declare, Declaration.stored]
  · intro known
    have present : g.vars.contains d.name = true := Decidable.not_not.1 known
    exact ⟨.declaredTwice d.name, g, by
      simp only [declare, run_bind, run_get, present, if_true, run_throw]⟩

theorem addOperation_follows (o : Operation α) :
    Follows (addOperation o) (Addable [o]) (Content.add · o) := by
  have created : Follows (Edit.createOperation o.name o.type o.attributes o.inputs o.outputs)
      (Addable [o]) (Content.add · { o with platform := .unspecified }) := by
    apply Follows.of_edit
    · exact fun g hg h => ⟨_, Edit.createOperation_yields hg ((hg.creatable_iff o).2 h)⟩
    · exact fun g hg h => Edit.createOperation_refuses fun creatable =>
        h ((hg.creatable_iff o).1 creatable)
  have placed : Follows (Edit.setPlatform o.name o.platform) (o.name ∈ ·.operations)
      fun c : Content α => { c with
        operations := c.operations.modify o.name fun p => { p with platform := o.platform } } :=
    .of_edit (fun g hg known => ⟨(), Edit.setPlatform_yields hg known o.platform⟩)
      fun g _ unknown => Edit.setPlatform_refuses unknown o.platform
  refine ((created.discard.bind placed).congr (fun c => ?_) fun c _ => ?_).adaptExcept
  · exact and_iff_left (NameMap.mem_insert.2 (.inl rfl))
  · simp [Content.add, NameMap.modify_insert]

theorem markInput_follows (var : String) : Follows (Edit.markInput (α := α) var)
    (var ∈ ·.declarations) fun c => { c with inputs := Edit.addOnce var c.inputs } :=
  .of_edit (fun _ hg known => ⟨(), Edit.markInput_yields hg (Graph.mem_declarations.1 known)⟩)
    fun _ _ unknown => Edit.markInput_refuses fun known => unknown (Graph.mem_declarations.2 known)

theorem markOutput_follows (var : String) : Follows (Edit.markOutput (α := α) var)
    (var ∈ ·.declarations) fun c => { c with outputs := Edit.addOnce var c.outputs } :=
  .of_edit (fun _ hg known => ⟨(), Edit.markOutput_yields hg (Graph.mem_declarations.1 known)⟩)
    fun _ _ unknown => Edit.markOutput_refuses fun known => unknown (Graph.mem_declarations.2 known)

/-- What the graph of a document contains. -/
def content (d : Document α) : Content α where
  name := d.name
  operations := .ofList (d.operations.map fun o => (o.name, o))
  declarations := .ofList (d.vars.map fun v => (v.name, v.stored))
  inputs := d.inputs.foldl (fun names var => Edit.addOnce var names) []
  outputs := d.outputs.foldl (fun names var => Edit.addOnce var names) []

/-- What lets a document build. -/
structure Buildable (d : Document α) : Prop where
  vars_nodup : (d.vars.map (·.name)).Nodup
  operations_nodup : (d.operations.map (·.name)).Nodup
  slots_declared : ∀ o ∈ d.operations, ∀ var ∈ o.inputs ++ o.outputs, var ∈ d.vars.map (·.name)
  interface_declared : ∀ var ∈ d.inputs ++ d.outputs, var ∈ d.vars.map (·.name)
  /-- No variable stands twice in the output lists, also of one operation. -/
  produced_once : (d.operations.flatMap (·.outputs)).Nodup
  outputs_plain : ∀ o ∈ d.operations, ∀ v ∈ d.vars, v.name ∈ o.outputs →
    v.isParameter = false ∧ v.value = none

instance (d : Document α) : Decidable d.Buildable :=
  decidable_of_iff ((d.vars.map (·.name)).Nodup ∧ (d.operations.map (·.name)).Nodup ∧
      (∀ o ∈ d.operations, ∀ var ∈ o.inputs ++ o.outputs, var ∈ d.vars.map (·.name)) ∧
      (∀ var ∈ d.inputs ++ d.outputs, var ∈ d.vars.map (·.name)) ∧
      (d.operations.flatMap (·.outputs)).Nodup ∧
      ∀ o ∈ d.operations, ∀ v ∈ d.vars, v.name ∈ o.outputs →
        v.isParameter = false ∧ v.value = none)
    ⟨fun ⟨vars, operations, slots, interface, once, plain⟩ =>
      ⟨vars, operations, slots, interface, once, plain⟩,
    fun h => ⟨h.vars_nodup, h.operations_nodup, h.slots_declared, h.interface_declared,
      h.produced_once, h.outputs_plain⟩⟩

section Content

variable {d : Document α}

theorem get?_content_declarations (nodup : (d.vars.map (·.name)).Nodup) {var : String}
    {e : Declaration α} : d.content.declarations.get? var = some e ↔
      ∃ v ∈ d.vars, v.name = var ∧ v.stored = e := by
  have nodup : ((d.vars.map fun v => (v.name, v.stored)).map (·.1)).Nodup := by
    rwa [List.map_map]
  rw [content, NameMap.get?_ofList_eq_some nodup]
  simp [Prod.ext_iff]

theorem get?_content_operations (nodup : (d.operations.map (·.name)).Nodup) {op : String}
    {o : Operation α} :
    d.content.operations.get? op = some o ↔ o ∈ d.operations ∧ o.name = op := by
  have nodup : ((d.operations.map fun o => (o.name, o)).map (·.1)).Nodup := by
    rwa [List.map_map]
  rw [content, NameMap.get?_ofList_eq_some nodup]
  simp only [List.mem_map, Prod.ext_iff]
  exact ⟨by rintro ⟨_, ho, name, rfl⟩; exact ⟨ho, name⟩, fun h => ⟨o, h.1, h.2, rfl⟩⟩

theorem mem_content_declarations (nodup : (d.vars.map (·.name)).Nodup) (var : String) :
    var ∈ d.content.declarations ↔ var ∈ d.vars.map (·.name) := by
  simp [NameMap.mem_iff, get?_content_declarations nodup]

/-- The conditions of the three steps of the construction. -/
theorem buildable_iff : d.Buildable ↔ (d.vars.map (·.name)).Nodup ∧
    Content.Addable d.operations ⟨d.name, ∅, d.content.declarations, [], []⟩ ∧
    (∀ var ∈ d.inputs, var ∈ d.content.declarations) ∧
    ∀ var ∈ d.outputs, var ∈ d.content.declarations := by
  constructor
  · intro h
    have declared := mem_content_declarations h.vars_nodup
    refine ⟨h.vars_nodup, ⟨h.operations_nodup, fun o _ known => ?_, fun o ho var hvar => ?_,
      h.produced_once, fun o ho var hvar => ⟨?_, fun _ _ h => ?_⟩⟩, fun var hvar => ?_,
      fun var hvar => ?_⟩
    · cases known
    · exact (declared var).2 (h.slots_declared o ho var (List.mem_append_left _ hvar))
    · obtain ⟨v, hv, rfl⟩ :=
        List.mem_map.1 (h.slots_declared o ho var (List.mem_append_right _ hvar))
      obtain ⟨parameter, value⟩ := h.outputs_plain o ho v hv hvar
      exact ⟨v.stored, (get?_content_declarations h.vars_nodup).2 ⟨v, hv, rfl, rfl⟩,
        by simp [Declaration.stored, parameter, value]⟩
    · cases h
    · exact (declared var).2 (h.interface_declared var (List.mem_append_left _ hvar))
    · exact (declared var).2 (h.interface_declared var (List.mem_append_right _ hvar))
  · rintro ⟨nodup, addable, inputs, outputs⟩
    have declared := mem_content_declarations nodup
    refine ⟨nodup, addable.names_nodup, fun o ho var hvar => ?_, fun var hvar => ?_,
      addable.produced_once, fun o ho v hv hvar => ?_⟩
    · rcases List.mem_append.1 hvar with hvar | hvar
      · exact (declared var).1 (addable.known o ho var hvar)
      · obtain ⟨e, he, -⟩ := (addable.outputs_open o ho var hvar).plain
        exact (declared var).1 (NameMap.mem_of_get? he)
    · exact (declared var).1 ((List.mem_append.1 hvar).elim (inputs var) (outputs var))
    · obtain ⟨e, he, plain⟩ := (addable.outputs_open o ho v.name hvar).plain
      have own := (get?_content_declarations nodup).2 ⟨v, hv, rfl, rfl⟩
      rw [own, Option.some.injEq] at he
      subst he
      simpa [Declaration.stored] using plain

end Content

/-- Marks one after the other. -/
theorem marks_follow {f : String → Edit α Unit} {change : Content α → String → Content α}
    (step : ∀ var, Follows (f var) (var ∈ ·.declarations) (change · var))
    (declarations : ∀ c var, (change c var).declarations = c.declarations) (l : List String) :
    Follows (l.forM f) (∀ var ∈ l, var ∈ ·.declarations) (l.foldl change) := by
  apply Follows.forM
  · exact fun c _ h => absurd h List.not_mem_nil
  · intro var l c
    rw [declarations, List.forall_mem_cons, List.forall_mem_singleton]
  · exact fun var => (step var).congr (fun c => List.forall_mem_singleton.symm) fun _ _ => rfl

theorem markInputs_follow (l : List String) :
    Follows (l.forM (Edit.markInput (α := α))) (∀ var ∈ l, var ∈ ·.declarations) fun c =>
      { c with inputs := l.foldl (fun names var => Edit.addOnce var names) c.inputs } :=
  (marks_follow markInput_follows (fun _ _ => rfl) l).congr (fun _ => Iff.rfl) fun c _ =>
    List.foldl_hom (fun names => { c with inputs := names }) fun _ _ => rfl

theorem markOutputs_follow (l : List String) :
    Follows (l.forM (Edit.markOutput (α := α))) (∀ var ∈ l, var ∈ ·.declarations) fun c =>
      { c with outputs := l.foldl (fun names var => Edit.addOnce var names) c.outputs } :=
  (marks_follow markOutput_follows (fun _ _ => rfl) l).congr (fun _ => Iff.rfl) fun c _ =>
    List.foldl_hom (fun names => { c with outputs := names }) fun _ _ => rfl

/-- The variables of a document without its operations and its interface. -/
theorem foldl_declare (d : Document α) :
    d.vars.foldl Content.declare (Graph.empty d.name).content =
      ⟨d.name, ∅, d.content.declarations, [], []⟩ := by
  have declared : ∀ m, d.vars.foldl Content.declare (⟨d.name, ∅, m, [], []⟩ : Content α) =
      ⟨d.name, ∅, d.vars.foldl (fun m v => m.insert v.name v.stored) m, [], []⟩ :=
    fun m => List.foldl_hom (fun m => (⟨d.name, ∅, m, [], []⟩ : Content α)) fun _ _ => rfl
  simp only [content, NameMap.ofList, List.foldl_map]
  exact declared ∅

theorem foldl_add (d : Document α) (declarations : NameMap (Declaration α)) :
    d.operations.foldl Content.add ⟨d.name, ∅, declarations, [], []⟩ =
      ⟨d.name, d.content.operations, declarations, [], []⟩ := by
  have added : ∀ m, d.operations.foldl Content.add ⟨d.name, m, declarations, [], []⟩ =
      ⟨d.name, d.operations.foldl (fun m o => m.insert o.name o) m, declarations, [], []⟩ :=
    fun m => List.foldl_hom (fun m => (⟨d.name, m, declarations, [], []⟩ : Content α))
      fun _ _ => rfl
  simp only [content, NameMap.ofList, List.foldl_map]
  exact added ∅

/-- Where the conditions hold, the construction leads to the content of the document, and
elsewhere it fails. -/
theorem construct_run (d : Document α) :
    (d.Buildable → ∃ b g, d.construct (Graph.empty d.name) = .ok b g ∧ g.Linked ∧
      g.content = d.content) ∧
    (¬d.Buildable → ∃ e g, d.construct (Graph.empty d.name) = .error e g) := by
  have declares := Follows.forM (fun c => ⟨.nil, by simp⟩) (fun _ _ _ => declarable_cons)
    declare_follows d.vars
  have adds := Follows.forM (fun c => ⟨.nil, by simp, by simp, .nil, by simp⟩)
    (fun _ _ _ => addable_cons) addOperation_follows d.operations
  have marks := (markInputs_follow (α := α) d.inputs).bind (markOutputs_follow d.outputs)
  have follows : Follows d.construct _ _ := declares.bind (adds.bind marks.adaptExcept)
  have run := follows (Graph.empty d.name) (Graph.linked_empty d.name)
  have unused : (Graph.empty d.name : Graph α).content.Declarable d.vars ↔
      (d.vars.map (·.name)).Nodup := and_iff_left fun _ _ known => by cases known
  simp only [Function.comp_apply, foldl_declare, foldl_add, unused, ← buildable_iff] at run
  exact run

/-- A document builds the linked graph of its content. -/
theorem build_eq_ok_iff {d : Document α} {g : Graph α} :
    d.build = .ok g ↔ d.Buildable ∧ g.Linked ∧ g.content = d.content := by
  obtain ⟨succeeds, fails⟩ := construct_run d
  unfold build
  by_cases h : d.Buildable
  · obtain ⟨b, built, run, linked, content⟩ := succeeds h
    rw [run]
    constructor
    · rintro ⟨⟩
      exact ⟨h, linked, content⟩
    · rintro ⟨-, linked', content'⟩
      exact congrArg _ (linked.ext linked' (content.trans content'.symm))
  · obtain ⟨e, g', run⟩ := fails h
    rw [run]
    exact ⟨fun failed => (by cases failed), fun built => absurd built.1 h⟩

/-- What the graph of a document declares stands in the document, and so do its operations. -/
theorem declared_of_build {d : Document α} {g : Graph α} (h : d.build = .ok g) {var : String}
    {e : Declaration α} (he : g.content.declarations.get? var = some e) :
    ∃ v ∈ d.vars, v.stored = e := by
  obtain ⟨buildable, -, content⟩ := build_eq_ok_iff.1 h
  rw [content, get?_content_declarations buildable.vars_nodup] at he
  obtain ⟨v, hv, -, stored⟩ := he
  exact ⟨v, hv, stored⟩

theorem operation_of_build {d : Document α} {g : Graph α} (h : d.build = .ok g) {op : String}
    {o : Operation α} (ho : g.getOperation? op = some o) : o ∈ d.operations := by
  obtain ⟨buildable, -, content⟩ := build_eq_ok_iff.1 h
  have operations : g.operations = d.content.operations := congrArg Content.operations content
  rw [Graph.getOperation?, operations, get?_content_operations buildable.operations_nodup] at ho
  exact ho.1

theorem Buildable.builds {d : Document α} (h : d.Buildable) : ∃ g, d.build = .ok g := by
  obtain ⟨b, g, run, linked, content⟩ := (construct_run d).1 h
  exact ⟨g, build_eq_ok_iff.2 ⟨h, linked, content⟩⟩

/-- The same declarations and operations in another order. -/
structure Rearranges (d d' : Document α) : Prop where
  name : d'.name = d.name
  inputs : d'.inputs = d.inputs
  outputs : d'.outputs = d.outputs
  vars : d.vars.Perm d'.vars
  operations : d.operations.Perm d'.operations

namespace Rearranges

variable {d d' : Document α}

theorem symm (h : d.Rearranges d') : d'.Rearranges d :=
  ⟨h.name.symm, h.inputs.symm, h.outputs.symm, h.vars.symm, h.operations.symm⟩

theorem buildable (h : d.Rearranges d') (hd : d.Buildable) : d'.Buildable where
  vars_nodup := (h.vars.map _).nodup_iff.1 hd.vars_nodup
  operations_nodup := (h.operations.map _).nodup_iff.1 hd.operations_nodup
  slots_declared o ho var hvar :=
    (h.vars.map _).mem_iff.1 (hd.slots_declared o (h.operations.mem_iff.2 ho) var hvar)
  interface_declared var hvar := by
    rw [h.inputs, h.outputs] at hvar
    exact (h.vars.map _).mem_iff.1 (hd.interface_declared var hvar)
  produced_once := (h.operations.flatMap_right _).nodup_iff.1 hd.produced_once
  outputs_plain o ho v hv := hd.outputs_plain o (h.operations.mem_iff.2 ho) v (h.vars.mem_iff.2 hv)

theorem content (h : d.Rearranges d') (hd : d.Buildable) : d'.content = d.content := by
  have operations := NameMap.ofList_perm (l := d.operations.map fun o => (o.name, o))
    (by rw [List.map_map]; exact hd.operations_nodup) (h.operations.map _)
  have declarations := NameMap.ofList_perm (l := d.vars.map fun v => (v.name, v.stored))
    (by rw [List.map_map]; exact hd.vars_nodup) (h.vars.map _)
  simp only [Document.content, operations, declarations, h.name, h.inputs, h.outputs]

theorem build_ok (h : d.Rearranges d') {g : Graph α} (built : d.build = .ok g) :
    d'.build = .ok g := by
  obtain ⟨buildable, linked, content⟩ := build_eq_ok_iff.1 built
  exact build_eq_ok_iff.2 ⟨h.buildable buildable, linked, content.trans (h.content buildable).symm⟩

end Rearranges

/-- A document builds exactly where `Buildable` holds, and documents that differ in the order
of their lists build the same graphs. -/
theorem builds_in_any_order (d : Document α) :
    ((∃ g, d.build = .ok g) ↔ d.Buildable) ∧
    ∀ d', d.Rearranges d' → ∀ g, d.build = .ok g ↔ d'.build = .ok g := by
  constructor
  · constructor
    · rintro ⟨g, built⟩
      exact (build_eq_ok_iff.1 built).1
    · exact fun h => h.builds
  · intro d' h g
    exact ⟨h.build_ok, h.symm.build_ok⟩

/-- Users come before what they use. -/
def reversed (d : Document α) : Document α :=
  { d with vars := d.vars.reverse, operations := d.operations.reverse }

theorem builds_in_any_order_convChain :
    ∃ g, (convChain 1 : Document Float32).build = .ok g ∧ (convChain 1).reversed.build = .ok g := by
  obtain ⟨builds, order⟩ := builds_in_any_order (convChain 1 : Document Float32)
  obtain ⟨g, built⟩ := builds.2 (by decide)
  have rearranged : (convChain 1 : Document Float32).Rearranges (convChain 1).reversed :=
    ⟨rfl, rfl, rfl, (List.reverse_perm _).symm, (List.reverse_perm _).symm⟩
  exact ⟨g, built, (order _ rearranged g).1 built⟩

end Document

end GraphDispatch
