import GraphDispatch.Proofs.Documents.RoundTrip
import GraphDispatch.Proofs.Rewrite.SharedParameters
import GraphDispatch.Rewrite.Format

/-!
# Operands of operations

Copying shared parameters moves slots from a parameter to its copy and leaves all else in
place. A copy has the value of its parameter. Without a value it is a variable like any
other, so where parameters without values are shared, slots lose their parameters.
-/

namespace GraphDispatch

open GraphDispatch.Graph

variable {α : Type} {g g' g'' : Graph α} {op var copy : String} {value : Option (Tensor α)}

namespace Graph

/-- Both graphs have the same operations but for what stands in their slots, and what stands in
a slot of `op` is related by `R op`. -/
structure Reslotted (R : String → String → String → Prop) (g g' : Graph α) : Prop where
  kept : ∀ op o, g.getOperation? op = some o → ∃ inputs,
    g'.getOperation? op = some { o with inputs } ∧ List.Forall₂ (R op) o.inputs inputs
  only : ∀ op ∈ g'.operations, op ∈ g.operations

/-- The variables have the same flag and the same value, and only a parameter without producer
gives way to another variable. -/
def SameOperand (g g' : Graph α) (var var' : String) : Prop :=
  ∃ v v', g.getVariable? var = some v ∧ g'.getVariable? var' = some v' ∧
    v'.isParameter = v.isParameter ∧ v'.value = v.value ∧
    (var' ≠ var → v.isParameter = true ∧ v.producer = none)

/-- The variable is a parameter without producer, and `op` is not the first of its consumers. -/
def Shares (g : Graph α) (op var : String) : Prop :=
  ∃ v, g.getVariable? var = some v ∧ v.isParameter = true ∧ v.producer = none ∧
    op ∈ v.consumerNames.tail

theorem Linked.reads_of_shares (hg : g.Linked) (shares : g.Shares op var) : g.Reads op var := by
  obtain ⟨v, hv, -, -, later⟩ := shares
  exact (hg.mem_consumerNames hv).1 (List.mem_of_mem_tail later)

variable {R R' : String → String → String → Prop}

theorem Reslotted.mono (h : g.Reslotted R g')
    (weaker : ∀ op x y, g.Reads op x → R op x y → R' op x y) : g.Reslotted R' g' where
  kept op o ho := by
    obtain ⟨inputs, ho', related⟩ := h.kept op o ho
    have read : ∀ x ∈ o.inputs, g.Reads op x := fun x hx => ⟨o, ho, hx⟩
    refine ⟨inputs, ho', ((List.forall₂_and_left _ _).2 ⟨read, related⟩).imp fun x y both => ?_⟩
    exact weaker op x y both.1 both.2
  only := h.only

theorem Reslotted.and (h : g.Reslotted R g') (h' : g.Reslotted R' g') :
    g.Reslotted (fun op x y => R op x y ∧ R' op x y) g' where
  kept op o ho := by
    obtain ⟨inputs, ho', related⟩ := h.kept op o ho
    obtain ⟨inputs', ho'', related'⟩ := h'.kept op o ho
    have same : inputs' = inputs := by simpa [ho'] using ho''.symm
    rw [same] at related'
    exact ⟨inputs, ho', related.mp (fun _ _ => And.intro) related'⟩
  only := h.only

/-- What stands in the slots of `op` that read `var`. -/
theorem Reslotted.operand (h : g.Reslotted R g') (reads : g.Reads op var) :
    ∃ var', g'.Reads op var' ∧ R op var var' := by
  obtain ⟨o, ho, hvar⟩ := reads
  obtain ⟨inputs, ho', related⟩ := h.kept op o ho
  obtain ⟨var', hvar', slot⟩ := exists_of_forall₂ related hvar
  exact ⟨var', ⟨_, ho', hvar'⟩, slot⟩

end Graph

namespace Rewrite

/-- The copies that the sharings ask for, with the operations that are to read them. -/
def copies (l : List (Sharing α)) : List (Sharing α × String) :=
  l.flatMap fun s => s.others.map (s, ·)

/-- The operations and parameters of the copies. -/
def pairs (todo : List (Sharing α × String)) : List (String × String) :=
  todo.map fun p => (p.2, p.1.var)

section Copies

theorem mem_copies (hg : g.Linked) {p : Sharing α × String}
    (h : p ∈ copies (g.vars.values.filterMap sharing?)) :
    g.Shares p.2 p.1.var ∧ ∃ d, g.content.declarations.get? p.1.var = some d ∧
      d.value = p.1.value := by
  obtain ⟨s, hs, op, hop, rfl⟩ : ∃ s ∈ g.vars.values.filterMap sharing?,
      ∃ op ∈ s.others, (s, op) = p := by
    simpa [copies] using h
  obtain ⟨v, first, hv, value, parameter, producer, consumers⟩ := sharing_of_mem hg hs
  refine ⟨⟨v, hv, parameter, producer, ?_⟩, v.declaration, ?_, value⟩
  · rw [consumers]
    exact hop
  · rw [get?_declarations, hv, Option.map_some]

theorem mem_pairs_copies (hg : g.Linked) :
    (op, var) ∈ pairs (copies (g.vars.values.filterMap sharing?)) ↔ g.Shares op var := by
  constructor
  · intro h
    obtain ⟨p, hp, same⟩ := List.mem_map.1 h
    cases same
    exact (mem_copies hg hp).1
  · rintro ⟨v, hv, parameter, producer, later⟩
    obtain ⟨s, hs, rfl, hop⟩ := sharing_mem hg hv parameter producer later
    refine List.mem_map.2 ⟨(s, op), ?_, rfl⟩
    exact List.mem_flatMap.2 ⟨s, hs, List.mem_map.2 ⟨op, hop, rfl⟩⟩

/-- No operation gets two copies of one parameter. -/
theorem pairs_copies_nodup (hg : g.Linked) :
    (pairs (copies (g.vars.values.filterMap sharing?))).Nodup := by
  have names : (g.vars.values.map (·.name)).Nodup := hg.vars_names ▸ g.vars.names_nodup
  have split (l : List (Sharing α)) : pairs (copies l) =
      l.flatMap fun s => s.others.map (·, s.var) := by
    simp [pairs, copies, List.map_flatMap, Function.comp_def]
  rw [split, List.nodup_flatMap]
  -- Within one sharing the operations differ, and the parameters do between two.
  constructor
  · intro s hs
    obtain ⟨v, first, hv, -, -, -, consumers⟩ := sharing_of_mem hg hs
    have others : s.others.Nodup := (consumers ▸ v.consumerNames_nodup).of_cons
    exact others.map fun _ _ same => (Prod.mk.inj same).1
  · have apart : (g.vars.values.filterMap sharing?).Pairwise fun s t => s.var ≠ t.var := by
      apply List.Pairwise.filterMap sharing? _ (List.pairwise_map.1 names)
      intro v w other s hs t ht
      rwa [var_of_sharing? hs, var_of_sharing? ht]
    refine apart.imp fun {s t} other => List.disjoint_left.2 ?_
    intro p hp hq
    obtain ⟨a, -, rfl⟩ := List.mem_map.1 hp
    obtain ⟨b, -, same⟩ := List.mem_map.1 hq
    exact other (Prod.mk.inj same).2.symm

end Copies

section Splitting

/-- Wherever the parameter is read a copy can be made. -/
theorem copyFor_runs (hg : g.Linked) (reads : g.Reads op var) (value : Option (Tensor α)) :
    ∃ g' copy, copyFor var value op g = .ok () g' ∧ Copied g g' op var copy value := by
  have fresh : g.freshName var ∉ g.vars := (g.freshName_not_mem var).1
  obtain ⟨h, made, linked, content⟩ :
      Edit.Yields (Edit.createVariable (g.freshName var) value) g _ _ :=
    Edit.createVariable_yields hg fresh
  have operations : h.operations = g.operations := congrArg Content.operations content
  have known : g.freshName var ∈ h.vars :=
    (mem_vars_of_declared (congrArg Content.declarations content)).2 (Or.inl rfl)
  have reads' : h.Reads op var := by
    rw [Reads, getOperation?, operations]
    exact reads
  obtain ⟨g', moved, -, -⟩ := Edit.replaceInput_yields linked reads' known
  have run : copyFor var value op g = .ok () g' := by
    unfold copyFor
    rw [bind_of_ok (run_get g), bind_of_ok (discard_of_ok made), moved]
  obtain ⟨copy, copied⟩ := copyFor_ensures hg var value op () g' run
  exact ⟨g', copy, run, copied⟩

/-- A slot of `op` that read `var` in `g` and now reads `var'`. The copies in `todo` are still
to come. -/
inductive Slot (g g' : Graph α) (todo : List (String × String)) (op var var' : String) : Prop
  | kept (same : var' = var) (later : g.Shares op var → (op, var) ∈ todo)
  | copied (shares : g.Shares op var) (done : (op, var) ∉ todo) (fresh : var' ∉ g.vars)
    (d : Declaration α) (original : g.content.declarations.get? var = some d)
    (copy : g'.content.declarations.get? var' = some ⟨var', d.value, d.value.isSome⟩)

/-- Some copies have been made, and those in `todo` are still to come. -/
structure Splitting (g : Graph α) (todo : List (Sharing α × String)) (g' : Graph α) : Prop where
  linked : g'.Linked
  declared : ∀ var d, g.content.declarations.get? var = some d →
    g'.content.declarations.get? var = some d
  reslotted : g.Reslotted (Slot g g' (pairs todo)) g'
  nodup : (pairs todo).Nodup
  shares : ∀ p ∈ todo, g.Shares p.2 p.1.var
  values : ∀ p ∈ todo, ∃ d, g.content.declarations.get? p.1.var = some d ∧ d.value = p.1.value

variable {todo : List (Sharing α × String)} {p : Sharing α × String} {n x y : String}

theorem splitting_start (hg : g.Linked) :
    Splitting g (copies (g.vars.values.filterMap sharing?)) g where
  linked := hg
  declared _ _ hd := hd
  reslotted := by
    refine ⟨fun op o ho => ⟨o.inputs, ho, List.forall₂_same.2 fun var hvar => ?_⟩, fun _ h => h⟩
    exact .kept rfl (mem_pairs_copies hg).2
  nodup := pairs_copies_nodup hg
  shares _ hp := (mem_copies hg hp).1
  values _ hp := (mem_copies hg hp).2

namespace Splitting

theorem known (state : Splitting g todo g') (h : var ∈ g.vars) : var ∈ g'.vars := by
  obtain ⟨d, hd⟩ := NameMap.mem_iff.1 (mem_declarations.2 h)
  exact mem_declarations.1 (NameMap.mem_of_get? (state.declared var d hd))

variable (state : Splitting g (p :: todo) g')
include state

/-- The parameter is still in its slots. -/
theorem reads (hg : g.Linked) : g'.Reads p.2 p.1.var := by
  have shares := state.shares p List.mem_cons_self
  obtain ⟨var', reads', slot⟩ := state.reslotted.operand (hg.reads_of_shares shares)
  cases slot with
  | kept same => exact same ▸ reads'
  | copied _ done => exact absurd List.mem_cons_self done

/-- What a copy does to the slots of all operations. -/
theorem next_slot (h : Copied g' g'' p.2 p.1.var copy p.1.value)
    (slot : Slot g g' (pairs (p :: todo)) n x y) : Slot g g'' (pairs todo) n x
      (if n = p.2 ∧ y = p.1.var then copy else y) := by
  have shares := state.shares p List.mem_cons_self
  obtain ⟨d, hd, value⟩ := state.values p List.mem_cons_self
  have nodup : (p.2, p.1.var) ∉ pairs todo := (List.nodup_cons.1 state.nodup).1
  cases slot with
  | kept same later =>
    subst same
    by_cases moves : n = p.2 ∧ y = p.1.var
    · obtain ⟨rfl, rfl⟩ := moves
      rw [if_pos ⟨rfl, rfl⟩]
      have fresh : copy ∉ g.vars := fun known => h.fresh (state.known known)
      refine .copied shares nodup fresh d hd ?_
      rw [h.declarations_get?, if_pos rfl, value]
    · rw [if_neg moves]
      refine .kept rfl fun hs => (List.mem_cons.1 (later hs)).resolve_left fun same => moves ?_
      exact Prod.mk.inj same
  | copied hs done fresh d' hd' copied =>
    -- A copy has a fresh name, so a slot that reads one is not moved again.
    have other : y ≠ p.1.var := by
      rintro rfl
      exact fresh (mem_declarations.1 (NameMap.mem_of_get? hd))
    rw [if_neg fun moves => other moves.2]
    refine .copied hs (fun later => done (List.mem_cons_of_mem _ later)) fresh d' hd' ?_
    exact h.declared copied

/-- The first of the copies that are to come is made. -/
theorem next (h : Copied g' g'' p.2 p.1.var copy p.1.value) :
    Splitting g todo g'' where
  linked := h.after
  declared var d hd := h.declared (state.declared var d hd)
  reslotted := by
    constructor
    · intro n o ho
      obtain ⟨inputs, ho', slots⟩ := state.reslotted.kept n o ho
      refine ⟨inputs.map fun y => if n = p.2 ∧ y = p.1.var then copy else y, ?_, ?_⟩
      · rw [h.getOperation?_eq, ho', Option.map_some]
        by_cases hn : n = p.2 <;> simp [hn, Operation.redirect]
      · rw [List.forall₂_map_right_iff]
        exact slots.imp fun x y => state.next_slot h
    · intro n hn
      exact state.reslotted.only n (h.mem_operations.1 hn)
  nodup := (List.nodup_cons.1 state.nodup).2
  shares q hq := state.shares q (List.mem_cons_of_mem _ hq)
  values q hq := state.values q (List.mem_cons_of_mem _ hq)

theorem copyFor_runs (hg : g.Linked) : ∃ g'',
    copyFor p.1.var p.1.value p.2 g' = .ok () g'' ∧ Splitting g todo g'' := by
  obtain ⟨g'', copy, run, copied⟩ :=
    Rewrite.copyFor_runs state.linked (state.reads hg) p.1.value
  exact ⟨g'', run, state.next copied⟩

end Splitting

theorem sharedParameters_leads_split (hg : g.Linked) :
    Task.Leads sharedParameters g fun _ g' => Splitting g [] g' := by
  unfold sharedParameters
  apply Task.leads_state_bind
  have each (l : List (Sharing α)) (s : Sharing α) (k : Graph α)
      (state : Splitting g (copies (s :: l)) k) :
      ∃ k', s.others.forM (copyFor s.var s.value) k = .ok ⟨⟩ k' ∧ Splitting g (copies l) k' :=
    forM_runs (fun rest k => Splitting g (rest.map (s, ·) ++ copies l) k)
      (fun _ _ _ now => now.copyFor_runs hg) state
  obtain ⟨g', copied, done⟩ := forM_runs (fun l k => Splitting g (copies l) k)
    (fun s l k state => each l s k state) (splitting_start hg)
  exact Task.leads_edit_bind copied (Task.leads_pure done)

end Splitting

/-- A slot of `op` reads `var` on, or a copy of it where `op` shares it. The copy of a parameter
without value is no parameter. -/
structure Stands (g g' : Graph α) (op var var' : String) : Prop where
  replaced : var' ≠ var ↔ g.Shares op var
  operand : ∃ v v', g.getVariable? var = some v ∧ g'.getVariable? var' = some v' ∧
    v'.value = v.value ∧ (v'.isParameter = v.isParameter ↔ (g.Shares op var → v.value.isSome))

theorem Stands.sameOperand_iff (h : Stands g g' op var copy) {v : Variable α}
    (hv : g.getVariable? var = some v) :
    g.SameOperand g' var copy ↔ (g.Shares op var → v.value.isSome) := by
  obtain ⟨w, v', hw, hv', value, flag⟩ := h.operand
  cases hv.symm.trans hw
  constructor
  · rintro ⟨w, w', hw, hw', parameter, -, -⟩
    cases hv.symm.trans hw
    cases hv'.symm.trans hw'
    exact flag.1 parameter
  · intro valued
    refine ⟨v, v', hv, hv', flag.2 valued, value, fun other => ?_⟩
    obtain ⟨w, hw, parameter, producer, -⟩ := h.replaced.1 other
    cases hv.symm.trans hw
    exact ⟨parameter, producer⟩

theorem Slot.stands (slot : Slot g g' [] op var copy) (reads : g.Reads op var)
    (hg : g.Linked) (state : Splitting g [] g') : Stands g g' op var copy := by
  obtain ⟨o, ho, hvar⟩ := reads
  obtain ⟨v, hv⟩ := mem_vars_iff.1 (hg.input_known ho hvar)
  have declared : g.content.declarations.get? var = some v.declaration :=
    declared_iff.2 ⟨v, hv, rfl⟩
  cases slot with
  | kept same later =>
    have alone : ¬g.Shares op var := fun shares => List.not_mem_nil (later shares)
    obtain ⟨v', hv', kept⟩ := declared_iff.1 (state.declared var _ declared)
    subst same
    refine ⟨by simp [alone], v, v', hv, hv', congrArg Declaration.value kept, ?_⟩
    simp only [alone, false_implies, iff_true]
    exact congrArg Declaration.isParameter kept
  | copied shares done fresh d original copied =>
    cases declared.symm.trans original
    obtain ⟨v', hv', same⟩ := declared_iff.1 copied
    have other : copy ≠ var := by
      rintro rfl
      exact fresh (mem_vars_iff.2 ⟨v, hv⟩)
    have parameter : v.isParameter = true := by
      obtain ⟨w, hw, parameter, -⟩ := shares
      cases hv.symm.trans hw
      exact parameter
    have flag : v'.isParameter = v.value.isSome := congrArg Declaration.isParameter same
    refine ⟨by simp [shares, other], v, v', hv, hv', congrArg Declaration.value same, ?_⟩
    rw [flag, parameter]
    simp [shares]

end Rewrite

section Operands

variable [Scalar α]

/-- Copying shared parameters succeeds. Every slot has a variable of the same value as before,
and the variable is another one just where the operation is not the first to read a parameter
without producer. The flags are all the same just where none of these is without value. -/
theorem sharedParameters_operands {d : Document α} (built : d.build = .ok g)
    (events : List Event) : ∃ n later,
      process .sharedParameters ⟨g, events⟩ = .ok n later ∧
      g.Reslotted (Rewrite.Stands g later.state) later.state ∧
      (g.Reslotted (fun _ => g.SameOperand later.state) later.state ↔
        ∀ op var v, g.Shares op var → g.getVariable? var = some v → v.value.isSome) := by
  have linked : g.Linked := linked_of_build built
  have leads : Task.Leads (process .sharedParameters) g fun _ g' => Rewrite.Splitting g [] g' :=
    process_leads_of_rewrite (Rewrite.sharedParameters_leads_split linked)
  obtain ⟨n, g', later, run, done⟩ := leads events
  have stands : g.Reslotted (Rewrite.Stands g g') g' :=
    done.reslotted.mono fun op x y reads slot => slot.stands reads linked done
  refine ⟨n, _, run, stands, ?_⟩
  constructor
  · intro same op var v shares hv
    obtain ⟨copy, -, stood, operand⟩ := (stands.and same).operand (linked.reads_of_shares shares)
    exact (stood.sameOperand_iff hv).1 operand shares
  · intro valued
    refine stands.mono fun op x y _ stood => ?_
    obtain ⟨v, v', hv, -⟩ := stood.operand
    exact (stood.sameOperand_iff hv).2 fun shares => valued op x v shares hv

/-- Three operations read a parameter, one of them in both of its slots. -/
def tied (value : Option (Tensor Float32)) : Document Float32 where
  name := "net"
  inputs := ["x"]
  outputs := ["y", "z", "w"]
  vars := [⟨"x", none, false⟩, ⟨"p", value, true⟩, ⟨"y", none, false⟩, ⟨"z", none, false⟩,
    ⟨"w", none, false⟩]
  operations := [⟨"a", "Relu", ∅, ["p"], ["y"], .unspecified⟩,
    ⟨"b", "Mul", ∅, ["p", "p"], ["z"], .unspecified⟩,
    ⟨"c", "Add", ∅, ["x", "p"], ["w"], .unspecified⟩]

theorem sharedParameters_operands_tied : ∃ g n later,
    (tied (some ⟨[1], .floats [2]⟩)).build = .ok g ∧
    process .sharedParameters ⟨g, []⟩ = .ok n later ∧
    g.Reslotted (fun _ => g.SameOperand later.state) later.state := by
  have built : (tied (some ⟨[1], .floats [2]⟩)).build =
    .ok (tied (some ⟨[1], .floats [2]⟩)).graph := rfl
  have valued : ∀ var v, (tied (some ⟨[1], .floats [2]⟩)).graph.getVariable? var = some v →
      v.isParameter = true → v.value.isSome :=
    NameMap.forall_get?_iff.2 (by decide)
  obtain ⟨n, later, run, -, same⟩ := sharedParameters_operands built []
  refine ⟨_, n, later, built, run, same.2 ?_⟩
  rintro op var v ⟨w, hw, parameter, -⟩ hv
  cases hw.symm.trans hv
  exact valued var v hv parameter

/-- The copies of a parameter without value are no parameters. -/
theorem sharedParameters_lose_flag : ∃ g n later, (tied none).build = .ok g ∧
    process .sharedParameters ⟨g, []⟩ = .ok n later ∧
    ¬g.Reslotted (fun _ => g.SameOperand later.state) later.state := by
  have copied : ∃ n later, process .sharedParameters ⟨(tied none).graph, []⟩ = .ok n later ∧
      (later.state.getOperation? "b").map (·.inputs) = some ["p_0", "p_0"] ∧
      (later.state.getVariable? "p_0").map (·.isParameter) = some false := by
    decide +kernel
  have declared : ((tied none).graph.getVariable? "p").map (·.isParameter) = some true := rfl
  obtain ⟨n, later, run, slots, unflagged⟩ := copied
  refine ⟨(tied none).graph, n, later, rfl, run, fun same => ?_⟩
  obtain ⟨inputs, ho', related⟩ := same.kept "b" _ rfl
  rw [ho'] at slots
  cases slots
  obtain ⟨v, v', hv, hv', flag, -⟩ := (List.forall₂_cons.1 related).1
  rw [hv, Option.map_some, Option.some.injEq] at declared
  rw [hv', Option.map_some, Option.some.injEq, flag, declared] at unflagged
  cases unflagged

end Operands

end GraphDispatch
