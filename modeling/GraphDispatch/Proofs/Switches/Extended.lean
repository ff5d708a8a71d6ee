import GraphDispatch.Proofs.MainPath
import GraphDispatch.Proofs.Shapes
import GraphDispatch.Proofs.Switches.Origin

/-!
# Graphs with switches added

Where a graph differs from one without switches only in relays of its variables, the
shape computations and the main path of both are the same.
-/

namespace GraphDispatch

variable {α : Type} {g g' : Graph α}

namespace Graph

/-- The variable is declared and no parameter. -/
def carries (g : Graph α) (var : String) : Bool := (g.getVariable? var).any (!·.isParameter)

/-- `g'` is `g`, which has no switches, but some slots of it read a relay of what they read
in `g`. -/
structure Extended (g g' : Graph α) : Prop where
  base : g.Linked
  linked : g'.Linked
  ports : g'.SinglePorts
  unswitched : ∀ op o, g.getOperation? op = some o → o.isSwitch = false
  kept : ∀ op o, g.getOperation? op = some o → ∃ o', g'.getOperation? op = some o' ∧
    o'.type = o.type ∧ o'.outputs = o.outputs ∧
    List.Forall₂ (fun var var' => g'.Origin var' var) o.inputs o'.inputs
  only : ∀ op o', g'.getOperation? op = some o' → o'.isSwitch = false → op ∈ g.operations
  inputs : g'.inputs = g.inputs
  genuine : ∀ var ∈ g.vars, g'.Genuine var
  carries : ∀ var ∈ g.vars, g'.carries var = g.carries var
  relayed : ∀ s x r, g'.Relays s x r → x ∈ g.vars ∧ g'.carries x = true ∧ g'.carries r = true
  read : ∀ s x r, g'.Relays s x r → ∀ q o, g'.getOperation? q = some o → r ∈ o.inputs →
    o.isSwitch = false

namespace Extended

variable (h : Extended g g')
include h

theorem eq_of_origin {var root : String} (known : var ∈ g.vars) (origin : g'.Origin var root) :
    var = root := origin.eq_of_genuine (h.genuine var known)

/-- A relay leads back to its root by one step. -/
theorem origin_cases {var root : String} (origin : g'.Origin var root) :
    var = root ∨ ∃ s, g'.Relays s root var := by
  cases origin with
  | here => exact Or.inl rfl
  | back relays origin =>
    have root := h.eq_of_origin (h.relayed _ _ _ relays).1 origin
    exact Or.inr ⟨_, root ▸ relays⟩

theorem carries_iff {var root : String} (known : root ∈ g.vars) (origin : g'.Origin var root) :
    g'.carries var = g.carries root := by
  rcases h.origin_cases origin with rfl | ⟨s, relays⟩
  · exact h.carries var known
  · obtain ⟨-, carries, carries'⟩ := h.relayed s root var relays
    rw [carries', ← h.carries root known, carries]

/-- An operation that is no switch, in both graphs. -/
theorem pair {op : String} {o' : Operation α} (ho' : g'.getOperation? op = some o')
    (unswitched : o'.isSwitch = false) : ∃ o, g.getOperation? op = some o ∧ o'.type = o.type ∧
      o'.outputs = o.outputs ∧
      List.Forall₂ (fun var var' => g'.Origin var' var) o.inputs o'.inputs := by
  obtain ⟨o, ho⟩ := mem_operations_iff.1 (h.only op o' ho' unswitched)
  obtain ⟨o'', ho'', type, outputs, inputs⟩ := h.kept op o ho
  rw [ho'] at ho''
  cases ho''
  exact ⟨o, ho, type, outputs, inputs⟩

/-- What an operation reads in `g`, it reads in `g'`, maybe through a relay. -/
theorem reads {op var : String} (reads : g.Reads op var) :
    ∃ var', g'.Reads op var' ∧ g'.Origin var' var := by
  obtain ⟨o, ho, hvar⟩ := reads
  obtain ⟨o', ho', -, -, inputs⟩ := h.kept op o ho
  obtain ⟨var', hvar', origin⟩ := exists_of_forall₂ inputs hvar
  exact ⟨var', ⟨o', ho', hvar'⟩, origin⟩

theorem reads_back {op var' : String} {o' : Operation α} (ho' : g'.getOperation? op = some o')
    (unswitched : o'.isSwitch = false) (hvar' : var' ∈ o'.inputs) :
    ∃ var, g.Reads op var ∧ g'.Origin var' var := by
  obtain ⟨o, ho, -, -, inputs⟩ := h.pair ho' unswitched
  obtain ⟨var, hvar, origin⟩ := exists_of_forall₂ inputs.flip hvar'
  exact ⟨var, ⟨o, ho, hvar⟩, origin⟩

section Shapes

open Dispatch

omit h in
theorem mem_activations {g : Graph α} {o : Operation α} {var : String} :
    var ∈ activations g o ↔ var ∈ o.inputs ∧ g.carries var = true := List.mem_filter

/-- The activations of an operation and of what it became. -/
theorem keeps_activations {op : String} {o o' : Operation α} (ho : g.getOperation? op = some o)
    (inputs : List.Forall₂ (fun var var' => g'.Origin var' var) o.inputs o'.inputs) :
    (∀ a ∈ activations g o, ∃ a' ∈ activations g' o', g'.Origin a' a) ∧
      ∀ a' ∈ activations g' o', ∃ a ∈ activations g o, g'.Origin a' a := by
  constructor
  · intro a ha
    obtain ⟨ha, carries⟩ := mem_activations.1 ha
    obtain ⟨a', ha', origin⟩ := exists_of_forall₂ inputs ha
    have same := h.carries_iff (h.base.input_known ho ha) origin
    exact ⟨a', mem_activations.2 ⟨ha', same.trans carries⟩, origin⟩
  · intro a' ha'
    obtain ⟨ha', carries⟩ := mem_activations.1 ha'
    obtain ⟨a, ha, origin⟩ := exists_of_forall₂ inputs.flip ha'
    have same := h.carries_iff (h.base.input_known ho ha) origin
    exact ⟨a, mem_activations.2 ⟨ha, same.symm.trans carries⟩, origin⟩

/-- Relays of shapes are shapes. -/
theorem shapeDerived_relay {var root : String} (origin : g'.Origin var root)
    (derived : ShapeDerived g' root) : ShapeDerived g' var := by
  rcases h.origin_cases origin with rfl | ⟨s, relays⟩
  · exact derived
  · obtain ⟨-, carries, -⟩ := h.relayed s root var relays
    obtain ⟨o, ho, switch, hroot, hvar⟩ := relays
    obtain ⟨x, r, input, output⟩ := h.ports s o ho switch
    rw [input, List.mem_singleton] at hroot
    subst hroot
    have only : activations g' o = [root] := by
      change o.inputs.filter g'.carries = _
      rw [input, List.filter_singleton, carries]
      rfl
    refine .activations ho (by simp [only]) (fun a ha => ?_) hvar
    rw [only, List.mem_singleton] at ha
    exact ha ▸ derived

theorem shapeDerived_of {root : String} (derived : ShapeDerived g root) :
    ShapeDerived g' root := by
  induction derived with
  | source ho type hvar =>
    obtain ⟨o', ho', type', outputs, -⟩ := h.kept _ _ ho
    exact .source ho' (type' ▸ type) (outputs ▸ hvar)
  | @activations op o var ho some all hvar ih =>
    obtain ⟨o', ho', -, outputs, inputs⟩ := h.kept _ _ ho
    obtain ⟨onto, back⟩ := h.keeps_activations ho inputs
    obtain ⟨a, ha⟩ := List.exists_mem_of_ne_nil _ some
    obtain ⟨a', ha', -⟩ := onto a ha
    refine .activations ho' (List.ne_nil_of_mem ha') (fun b' hb' => ?_) (outputs ▸ hvar)
    obtain ⟨b, hb, origin⟩ := back b' hb'
    exact h.shapeDerived_relay origin (ih b hb)

theorem of_shapeDerived {var root : String} (derived : ShapeDerived g' var)
    (origin : g'.Origin var root) : ShapeDerived g root := by
  induction derived generalizing root with
  | @source op o' var ho' type hvar =>
    have unswitched : o'.isSwitch = false := by
      have none : switchType ∉ shapeSourceTypes := by decide
      exact decide_eq_false fun e => none (e ▸ type)
    obtain ⟨o, ho, type', outputs, -⟩ := h.pair ho' unswitched
    have known : var ∈ g.vars := h.base.output_known ho (outputs ▸ hvar)
    cases h.eq_of_origin known origin
    exact .source ho (type' ▸ type) (outputs ▸ hvar)
  | @activations op o' var ho' some all hvar ih =>
    cases switch : o'.isSwitch with
    | true =>
      obtain ⟨a, ha⟩ := List.exists_mem_of_ne_nil _ some
      have relays : g'.Relays op a var := ⟨o', ho', switch, (mem_activations.1 ha).1, hvar⟩
      rcases h.origin_cases origin with rfl | ⟨s, relays'⟩
      · exact absurd origin.genuine relays.not_genuine
      · obtain ⟨-, rfl⟩ := h.ports.relays_unique h.linked relays relays'
        have known := (h.relayed _ _ _ relays).1
        exact ih a ha (.here (h.genuine a known))
    | false =>
      obtain ⟨o, ho, -, outputs, inputs⟩ := h.pair ho' switch
      have known : var ∈ g.vars := h.base.output_known ho (outputs ▸ hvar)
      cases h.eq_of_origin known origin
      obtain ⟨onto, back⟩ := h.keeps_activations ho inputs
      obtain ⟨a', ha'⟩ := List.exists_mem_of_ne_nil _ some
      obtain ⟨a, ha, -⟩ := back a' ha'
      refine .activations ho (List.ne_nil_of_mem ha) (fun b hb => ?_) (outputs ▸ hvar)
      obtain ⟨b', hb', origin⟩ := onto b hb
      exact ih b' hb' origin

/-- Switches hide no shapes and make none. -/
theorem shapeDerived_iff {var root : String} (origin : g'.Origin var root) :
    ShapeDerived g' var ↔ ShapeDerived g root :=
  ⟨fun derived => h.of_shapeDerived derived origin,
    fun derived => h.shapeDerived_relay origin (h.shapeDerived_of derived)⟩

end Shapes

section MainPath

open Dispatch

variable {shapes shapes' : List String} (blind : ∀ {var root}, g'.Origin var root →
  root ∈ g.vars → (var ∈ shapes' ↔ root ∈ shapes))
include blind

theorem carriesNumbers_iff {var root : String} (known : root ∈ g.vars)
    (origin : g'.Origin var root) :
    carriesNumbers g' shapes' var = carriesNumbers g shapes root := by
  have same := h.carries_iff known origin
  unfold Graph.carries at same
  have shape : shapes'.contains var = shapes.contains root := by
    rw [Bool.eq_iff_iff, List.contains_iff_mem, List.contains_iff_mem, blind origin known]
  unfold carriesNumbers
  rw [shape, same]

/-- What an operation of `g` reads puts it on the main path of `g'`, too. -/
theorem onMainPath_of_fed {op var : String} (fed : Fed g' shapes' var)
    (carries : carriesNumbers g shapes var = true) (reads : g.Reads op var) :
    OnMainPath g' shapes' op := by
  have known := h.base.reads_known reads
  obtain ⟨var', reads', origin⟩ := h.reads reads
  have numbers' := (h.carriesNumbers_iff blind known origin).trans carries
  have reader' : op ∈ readers g' shapes' var' := (mem_readers h.linked).2 ⟨numbers', reads'⟩
  rcases h.origin_cases origin with rfl | ⟨s, relays⟩
  · exact onMainPath_iff.2 ⟨var', fed, reader'⟩
  · have numbers := (h.carriesNumbers_iff blind known (.here (h.genuine var known))).trans carries
    have switch : OnMainPath g' shapes' s :=
      onMainPath_iff.2 ⟨var, fed, (mem_readers h.linked).2 ⟨numbers, relays.reads⟩⟩
    exact .step switch (mem_outputsOf.2 relays.produces) reader'

theorem onMainPath_of {op : String} (onPath : OnMainPath g shapes op) :
    OnMainPath g' shapes' op := by
  induction onPath with
  | input hvar reader =>
    obtain ⟨carries, reads⟩ := (mem_readers h.base).1 reader
    exact h.onMainPath_of_fed blind (Or.inl (h.inputs ▸ hvar)) carries reads
  | step _ made reader ih =>
    obtain ⟨carries, reads⟩ := (mem_readers h.base).1 reader
    obtain ⟨o, ho, hvar⟩ := mem_outputsOf.1 made
    obtain ⟨o', ho', -, outputs, -⟩ := h.kept _ o ho
    have made' := mem_outputsOf.2 ⟨o', ho', outputs ▸ hvar⟩
    exact h.onMainPath_of_fed blind (Or.inr ⟨_, ih, made'⟩) carries reads

/-- Numbers that arrive at a variable of `g` arrive at its readers, of which switches pass
them on. -/
theorem of_fed {op var : String} {o' : Operation α} (fed : Fed g shapes var)
    (known : var ∈ g.vars) (ho' : g'.getOperation? op = some o')
    (reader : op ∈ readers g' shapes' var) :
    (o'.isSwitch = false → OnMainPath g shapes op) ∧
      (o'.isSwitch = true → ∃ x, x ∈ o'.inputs ∧ Fed g shapes x ∧
        carriesNumbers g shapes x = true) := by
  obtain ⟨numbers, o'', ho'', hvar⟩ := (mem_readers h.linked).1 reader
  rw [ho'] at ho''
  cases ho''
  have origin : g'.Origin var var := .here (h.genuine var known)
  have carries := (h.carriesNumbers_iff blind known origin).symm.trans numbers
  refine ⟨fun unswitched => ?_, fun _ => ⟨var, hvar, fed, carries⟩⟩
  obtain ⟨root, reads, origin'⟩ := h.reads_back ho' unswitched hvar
  cases h.eq_of_origin known origin'
  exact onMainPath_iff.2 ⟨var, fed, (mem_readers h.base).2 ⟨carries, reads⟩⟩

theorem of_onMainPath {op : String} (onPath : OnMainPath g' shapes' op) :
    ∀ o', g'.getOperation? op = some o' →
      (o'.isSwitch = false → OnMainPath g shapes op) ∧
        (o'.isSwitch = true → ∃ x, x ∈ o'.inputs ∧ Fed g shapes x ∧
          carriesNumbers g shapes x = true) := by
  induction onPath with
  | input hvar reader =>
    intro o' ho'
    have hvar := h.inputs ▸ hvar
    exact h.of_fed blind (Or.inl hvar) (h.base.inputs_known _ hvar) ho' reader
  | @step op var next _ made reader ih =>
    intro o' ho'
    obtain ⟨p, hp, hvar⟩ := mem_outputsOf.1 made
    cases switch : p.isSwitch with
    | false =>
      obtain ⟨o, ho, -, outputs, -⟩ := h.pair hp switch
      have made' := mem_outputsOf.2 ⟨o, ho, outputs ▸ hvar⟩
      exact h.of_fed blind (Or.inr ⟨op, (ih p hp).1 switch, made'⟩)
        (h.base.output_known ho (outputs ▸ hvar)) ho' reader
    | true =>
      obtain ⟨x, hx, fed, carries⟩ := (ih p hp).2 switch
      have relays : g'.Relays op x var := ⟨p, hp, switch, hx, hvar⟩
      obtain ⟨-, o'', ho'', reads⟩ := (mem_readers h.linked).1 reader
      rw [ho'] at ho''
      cases ho''
      have unswitched := h.read op x var relays next o' ho' reads
      refine ⟨fun _ => ?_, fun switch' => absurd (unswitched.symm.trans switch') (by simp)⟩
      obtain ⟨root, reads', origin⟩ := h.reads_back ho' unswitched reads
      -- the only root of a relay is what its switch reads
      have known := (h.relayed op x var relays).1
      cases Origin.unique h.linked h.ports origin (.back relays (.here (h.genuine x known)))
      exact onMainPath_iff.2 ⟨x, fed, (mem_readers h.base).2 ⟨carries, reads'⟩⟩

/-- Switches do not lead off the main path. -/
theorem mainPath_iff {op : String} (known : op ∈ g.operations) :
    OnMainPath g' shapes' op ↔ OnMainPath g shapes op := by
  refine ⟨fun onPath => ?_, h.onMainPath_of blind⟩
  obtain ⟨o, ho⟩ := mem_operations_iff.1 known
  obtain ⟨o', ho', type, -⟩ := h.kept op o ho
  have unswitched : o'.isSwitch = false := by
    rw [Operation.isSwitch, type]
    exact h.unswitched op o ho
  exact (h.of_onMainPath blind onPath o' ho').1 unswitched

end MainPath

end Extended

end Graph

end GraphDispatch
