import GraphDispatch.Proofs.Links.Live
import GraphDispatch.Proofs.Lists
import GraphDispatch.Proofs.Switches.Stale

/-!
# The interface of a graph

Passes and dispatches rename no graph and leave its lists of inputs and outputs alone, as long
as no operation produces an input. Only the removal of a variable could touch the lists. Each
use of it has a guard of its own: what nothing refers to is looked up in the lists, the variable
between an operation and its normalization is private and produced, and the relay of a stale
switch is produced and no output.
-/

namespace GraphDispatch

variable {α β : Type} {g h k : Graph α}

open GraphDispatch.Graph

namespace Graph

/-- Operations that keep their outputs produce what they produced. -/
theorem produces_of_modify {op n var : String} {f : Operation α → Operation α} {o : Operation α}
    (outputs : ∀ o, (f o).outputs = o.outputs) (ho : (g.operations.modify op f).get? n = some o)
    (hvar : var ∈ o.outputs) : g.Produces n var := by
  rw [NameMap.get?_modify] at ho
  split at ho
  · obtain ⟨p, hp, rfl⟩ := Option.map_eq_some_iff.1 ho
    exact ⟨p, hp, outputs p ▸ hvar⟩
  · exact ⟨o, ho, hvar⟩

theorem produces_of_erase {op n var : String} {o : Operation α}
    (ho : (g.operations.erase op).get? n = some o) (hvar : var ∈ o.outputs) :
    g.Produces n var := by
  rw [NameMap.get?_erase] at ho
  split at ho
  · cases ho
  · exact ⟨o, ho, hvar⟩

/-- No operation produces an input of the graph. -/
def InputsFree (g : Graph α) : Prop := ∀ var ∈ g.inputs, g.producer? var = none

instance : Decidable g.InputsFree :=
  inferInstanceAs (Decidable (∀ var ∈ g.inputs, g.producer? var = none))

/-- `h` shows the interface of `g`, and its operations produce no input. -/
structure Shows (g h : Graph α) : Prop where
  linked : h.Linked
  name : h.name = g.name
  inputs : h.inputs = g.inputs
  outputs : h.outputs = g.outputs
  unproduced : ∀ op, ∀ var ∈ g.inputs, ¬h.Produces op var

theorem Linked.shows (hg : g.Linked) (free : g.InputsFree) : g.Shows g := by
  refine ⟨hg, rfl, rfl, rfl, fun op var hvar produces => ?_⟩
  have made := hg.producer?_eq_some.2 produces
  rw [free var hvar] at made
  cases made

namespace Shows

theorem produced_not_input (hh : g.Shows h) {op var : String} (produces : h.Produces op var) :
    var ∉ g.inputs := fun listed => hh.unproduced op var listed produces

theorem known (hh : g.Shows h) : ∀ var ∈ g.inputs ++ g.outputs, var ∈ h.vars := by
  intro var hvar
  rcases List.mem_append.1 hvar with listed | listed
  · exact hh.linked.inputs_known var (hh.inputs ▸ listed)
  · exact hh.linked.outputs_known var (hh.outputs ▸ listed)

/-- Operations may change as long as they come to produce no input. -/
theorem rework (hh : g.Shows h) (linked : k.Linked) {operations : NameMap (Operation α)}
    {declarations : NameMap (Declaration α)}
    (content : k.content =
      { h.content with operations := operations, declarations := declarations })
    (made : ∀ n o, operations.get? n = some o → ∀ var ∈ o.outputs, h.Produces n var ∨
      var ∉ g.inputs) : g.Shows k where
  linked := linked
  name := (congrArg Content.name content).trans hh.name
  inputs := (congrArg Content.inputs content).trans hh.inputs
  outputs := (congrArg Content.outputs content).trans hh.outputs
  unproduced := by
    rintro op var hvar ⟨o, ho, produced⟩
    have same : k.operations = operations := congrArg Content.operations content
    rw [getOperation?, same] at ho
    rcases made op o ho var produced with before | free
    · exact hh.unproduced op var hvar before
    · exact free hvar

theorem redeclare (hh : g.Shows h) (linked : k.Linked) {declarations : NameMap (Declaration α)}
    (content : k.content = { h.content with declarations := declarations }) : g.Shows k :=
  hh.rework linked content fun _ o ho _ made => Or.inl ⟨o, ho, made⟩

end Shows

end Graph

namespace Edit

variable {m : Edit α β} {op var : String}

theorem Modifies.keeps_shows {f : Operation α → Operation α} (he : Modifies m op f)
    (outputs : ∀ o, (f o).outputs = o.outputs) : Keeps g.Shows m := by
  refine he.keeps (fun _ hh => hh.linked) fun h k hh linked content => ?_
  exact hh.rework linked content fun n o ho var hvar => Or.inl (produces_of_modify outputs ho hvar)

theorem removeOperation_shows : Keeps g.Shows (removeOperation op) := by
  refine (removeOperation_effects op).keeps (fun _ hh => hh.linked) fun h k hh linked effect => ?_
  exact hh.rework linked effect.2 fun n o ho var hvar => Or.inl (produces_of_erase ho hvar)

theorem createVariable_shows {value : Option (Tensor α)} :
    Keeps g.Shows (createVariable var value) :=
  (createVariable_effects var value).keeps (fun _ hh => hh.linked)
    fun _ _ hh linked effect => hh.redeclare linked effect.2

theorem setValue_shows {value : Tensor α} : Keeps g.Shows (setValue var value) :=
  (setValue_effects var value).keeps (fun _ hh => hh.linked)
    fun _ _ hh linked effect => hh.redeclare linked effect.2

/-- A variable outside the interface leaves no gap in it. -/
theorem removeVariable_shows (inputs : var ∉ g.inputs) (outputs : var ∉ g.outputs) :
    Keeps g.Shows (removeVariable var) := by
  refine (removeVariable_effects var).keeps (fun _ hh => hh.linked) fun h k hh linked content => ?_
  rw [filter_ne_of_not_mem (hh.inputs ▸ inputs), filter_ne_of_not_mem (hh.outputs ▸ outputs)]
    at content
  exact hh.redeclare linked content

theorem replaceOutput_shows {old new : String} (free : new ∉ g.inputs) :
    Keeps g.Shows (replaceOutput op old new) := by
  refine (replaceOutput_effects op old new).keeps (fun _ hh => hh.linked) ?_
  rintro h k hh linked ⟨made, -, -, content⟩
  refine hh.rework linked content fun n o ho var hvar => ?_
  obtain ⟨p, hp, -, -, -, outputs⟩ := operation_of_replaceOutput hh.linked made ho
  rcases outputs var hvar with hvar | ⟨-, rfl⟩
  · exact Or.inl ⟨p, hp, hvar⟩
  · exact Or.inr free

theorem createOperation_shows {type : String} {attributes : NameMap (Attribute α)}
    {inputs outputs : List String} (free : ∀ var ∈ outputs, var ∉ g.inputs) :
    Keeps g.Shows (createOperation op type attributes inputs outputs) := by
  refine (createOperation_effects _ _ _ _ _).keeps (fun _ hh => hh.linked) ?_
  rintro h k hh linked ⟨-, content⟩
  refine hh.rework linked content fun n o ho var hvar => ?_
  rw [NameMap.get?_insert] at ho
  split at ho
  · cases ho
    exact Or.inr (free var hvar)
  · exact Or.inl ⟨o, ho, hvar⟩

theorem workStable_shows : WorkStable g.Shows where
  linked _ hh := hh.linked
  replaceByNew _ _ _ _ := createVariable_shows.discard.bind fun _ =>
    (replaceInput_modifies _ _ _).keeps_shows fun _ => rfl
  appendNew _ _ _ _ _ := createVariable_shows.discard.bind fun _ =>
    (appendInput_modifies _ _).keeps_shows fun _ => rfl
  removeOperation _ := removeOperation_shows
  removeVariable hh inputs outputs :=
    removeVariable_shows (hh.inputs ▸ inputs) (hh.outputs ▸ outputs)
  setAttribute _ _ _ := (setAttribute_modifies _ _ _).keeps_shows fun _ => rfl
  removeAttribute _ _ := (removeAttribute_modifies _ _).keeps_shows fun _ => rfl
  setValue _ _ := setValue_shows

theorem relayStable_shows : RelayStable g.Shows where
  replaceInput _ _ _ := (replaceInput_modifies _ _ _).keeps_shows fun _ => rfl
  attach {h relay} hh unknown _ _ _ _ := by
    have free : relay ∉ g.inputs := fun listed =>
      unknown (hh.linked.inputs_known relay (hh.inputs ▸ listed))
    refine createVariable_shows.discard.bind fun _ => (createOperation_shows ?_).discard
    intro var hvar
    rwa [List.mem_singleton.1 hvar]
  setPlatform _ _ := (setPlatform_modifies _ _).keeps_shows fun _ => rfl

end Edit

namespace Rewrite

open Edit

variable [Scalar α]

/-- The output of the normalization moves to the parent, and the variable between them goes;
both were produced, and the latter is private to the parent. -/
theorem applyFusion_shows {norm : String} {f : Fusion α} (hh : g.Shows h)
    (plan : planFusion h norm = .ok (.fold f)) : g.Shows (finalState (applyFusion f h)) := by
  obtain ⟨rfl, o, p, _, _, _, _, _, _, planned⟩ := planFusion_eq_fold plan
  have output : f.output ∉ g.inputs :=
    hh.produced_not_input ⟨o, planned.norm, by simp [planned.outputs]⟩
  have between : f.intermediate ∉ g.inputs :=
    hh.produced_not_input (hh.linked.producer?_eq_some.1 planned.made)
  obtain ⟨-, -, hidden, -⟩ := isPrivate_iff.1 planned.alone
  have parent : f.parent ∈ h.operationsOfType p.type :=
    hh.linked.mem_operationsOfType.2 ⟨p, planned.parent, rfl⟩
  refine applyFusion_leaves hh.linked plan fun k statistics linked content => ?_
  have left : g.Shows k :=
    hh.rework linked content fun n o ho var hvar => Or.inl (produces_of_erase ho hvar)
  exact workStable_shows.absorb_leaves workStable_shows.toInputStable (fun _ hk => hk) hh parent
    (type_of_channelAxis planned.channel).1 (replaceOutput_shows output)
    (removeVariable_shows between (hh.outputs ▸ hidden)) statistics left

theorem process_shows (c : Command) : Task.Keeps g.Shows (process (α := α) c) :=
  workStable_shows.process_of_batchNorms
    (keeps_countChanges fun _ _ _ _ => keeps_foldBatchNorm fun _ _ => applyFusion_shows) c

end Rewrite

namespace Dispatch

open Edit

/-- `h` shows the interface of `g`, and each operation of it produces what it produces in `k`
at most. -/
structure ShowsWithin (g k h : Graph α) : Prop extends g.Shows h where
  within : ∀ op var, h.Produces op var → k.Produces op var

theorem keeps_showsWithin {m : Edit α β} {E : Graph α → Content α → Prop} (he : Effects m E)
    (shows : ∀ h, ShowsWithin g k h → g.Shows (finalState (m h)))
    (within : ∀ h c, E h c → ∀ n o, c.operations.get? n = some o → ∀ var ∈ o.outputs,
      h.Produces n var) : Keeps (ShowsWithin g k) m := by
  intro h hh
  refine ⟨shows h hh, ?_⟩
  refine he.leaves (P := fun h => ∀ op var, h.Produces op var → k.Produces op var) hh.linked
    hh.within ?_
  rintro h' - effect op var ⟨o, ho, hvar⟩
  exact hh.within op var (within h _ effect op o ho var hvar)

theorem hidden_of_stale (hk : k.Linked) {op var : String} (stale : op ∈ staleSwitches k)
    (produces : k.Produces op var) : var ∉ k.outputs := by
  obtain ⟨o, ho, -, -, hidden⟩ := (mem_staleSwitches hk).1 stale
  obtain ⟨p, hp, hvar⟩ := produces
  cases ho.symm.trans hp
  exact fun listed => hidden ⟨var, hvar, listed⟩

/-- The relay of a stale switch is no output, and as it is produced it is no input. -/
theorem removeStale_shows {op : String} (hk : g.Shows k) (stale : op ∈ staleSwitches k) :
    Task.Keeps (ShowsWithin g k) (removeStale op) := by
  refine keeps_removeStale (fun op => ?_) (fun op old new => ?_) fun hh ho made => ?_
  · refine keeps_showsWithin (removeOperation_effects op)
      (fun h hh => removeOperation_shows h hh.toShows) ?_
    rintro h _ ⟨-, rfl⟩ n o ho var hvar
    exact produces_of_erase ho hvar
  · refine keeps_showsWithin (replaceInput_modifies op old new)
      (fun h hh => (replaceInput_modifies op old new).keeps_shows (fun _ => rfl) h hh.toShows) ?_
    rintro h _ rfl n o ho var hvar
    exact produces_of_modify (f := Operation.redirect old new) (fun _ => rfl) ho hvar
  · have produces := hh.within _ _ ⟨_, ho, made⟩
    have drops := removeVariable_shows (hk.produced_not_input produces)
      (hk.outputs ▸ hidden_of_stale hk.linked stale produces)
    refine keeps_showsWithin (removeVariable_effects _) (fun h hh => drops h hh.toShows) ?_
    rintro h _ rfl n o ho var hvar
    exact ⟨o, ho, hvar⟩

theorem removeStaleSwitches_shows :
    Task.Keeps g.Shows (removeStaleSwitches : Dispatching α Nat) :=
  keeps_removeStaleSwitches (ShowsWithin g) (fun _ hk => ⟨hk, fun _ _ produces => produces⟩)
    (fun _ _ hh => hh.toShows) fun _ hk _ => removeStale_shows hk

end Dispatch

variable [Scalar α]

/-- Passes, switches and dispatches keep the name, the inputs and the outputs of a graph, and
every variable named there, also where they fail. -/
theorem interface_kept (reachable : Reachable g) (free : g.InputsFree) {passes : List (Action α)}
    (h : ∀ a ∈ passes, a.isPass = true) :
    (performAll g passes).name = g.name ∧ (performAll g passes).inputs = g.inputs ∧
      (performAll g passes).outputs = g.outputs ∧
      ∀ var ∈ g.inputs ++ g.outputs, var ∈ (performAll g passes).vars := by
  have relays := Edit.relayStable_shows (g := g)
  have removal := Dispatch.removeStaleSwitches_shows (g := g)
  have shows : g.Shows (performAll g passes) :=
    performAll_keeps_of_passes Rewrite.process_shows (relays.insertSwitches removal)
      (relays.run removal) h (reachable.linked.shows free)
  exact ⟨shows.name, shows.inputs, shows.outputs, shows.known⟩

/-- From an input to an output, and a variable beside them. -/
def served : List (Action Float32) :=
  [.createVariable "x" none, .createVariable "h" none, .createVariable "y" none,
    .createVariable "spare" none, .createOperation "conv" "Conv" ∅ ["x"] ["h"],
    .createOperation "relu" "Relu" ∅ ["h"] ["y"], .markInput "x", .markOutput "y"]

/-- The spare variable goes; the second dispatch fails, as no strategy has its name. -/
theorem interface_kept_served :
    let g := performAll (Graph.empty "net") served
    let passes := [.process .isolated, .dispatch ⟨.trtInt8, "pointwise", .quantizationFirst, ∅⟩,
      .dispatch ⟨.trtInt8, "none", .quantizationFirst, ∅⟩]
    (performAll g passes).name = "net" ∧ (performAll g passes).inputs = ["x"] ∧
      (performAll g passes).outputs = ["y"] ∧
      ∀ var ∈ ["x", "y"], var ∈ (performAll g passes).vars :=
  interface_kept ⟨_, served, .empty "net", rfl⟩ (by decide) (by decide)

end GraphDispatch
