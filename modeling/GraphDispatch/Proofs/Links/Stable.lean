import GraphDispatch.Dispatch.Run
import GraphDispatch.Graph.Consistency
import GraphDispatch.Proofs.FreshName
import GraphDispatch.Proofs.Program
import GraphDispatch.Rewrite.Format

/-!
# Properties that no edit loses

Rewrites and dispatches change a graph by edits only. What every elementary edit
keeps, also where it fails, is therefore kept by all of them. Most edits are guarded where
passes and dispatches use them: new inputs are new variables, what is removed is not part of
the interface. `InputStable`, `WorkStable` and `RelayStable` ask for no more than that.
-/

namespace GraphDispatch

variable {α : Type}

/-- `P` outlasts new variables that operations come to read, however that ends. -/
structure Edit.InputStable (P : Graph α → Prop) : Prop where
  replaceByNew : ∀ op old new value, Keeps P (do
    discard (createVariable new value)
    replaceInput op old new)
  /-- Only operations that are no switches get further inputs. -/
  appendNew : ∀ {g : Graph α} {op type : String}, P g → op ∈ g.operationsOfType type →
    type ≠ switchType → ∀ var value, Keeps P (do
      discard (createVariable var value)
      appendInput op var)

/-- `P` outlasts the edits of passes as passes use them, where no operation comes to produce
another variable. -/
structure Edit.WorkStable (P : Graph α → Prop) : Prop extends Edit.InputStable P where
  linked : ∀ g, P g → g.Linked
  removeOperation : ∀ op, Keeps P (removeOperation op)
  /-- Only variables outside the interface are removed. -/
  removeVariable : ∀ {g : Graph α} {var : String}, P g → var ∉ g.inputs → var ∉ g.outputs →
    Keeps P (removeVariable var)
  setAttribute : ∀ op key value, Keeps P (setAttribute op key value)
  removeAttribute : ∀ op key, Keeps P (removeAttribute op key)
  setValue : ∀ var value, Keeps P (setValue var value)

/-- `P` outlasts the edits that lead variables through switches. -/
structure Edit.RelayStable (P : Graph α → Prop) : Prop where
  replaceInput : ∀ op old new, Keeps P (replaceInput op old new)
  /-- An operation that is put on a variable produces a new one. -/
  attach : ∀ {g : Graph α} {relay : String}, P g → relay ∉ g.vars →
    ∀ op type attributes var, Keeps P (do
      discard (createVariable relay none)
      discard (createOperation op type attributes [var] [relay]))
  setPlatform : ∀ op platform, Keeps P (setPlatform op platform)

/-- Every edit that rewrites are made of keeps `P`, however it ends, where no operation comes
to produce another variable. -/
structure Edit.PassStable (P : Graph α → Prop) : Prop where
  createVariable : ∀ var value, Keeps P (createVariable var value)
  removeOperation : ∀ op, Keeps P (removeOperation op)
  removeVariable : ∀ var, Keeps P (removeVariable var)
  replaceInput : ∀ op old new, Keeps P (replaceInput op old new)
  appendInput : ∀ op var, Keeps P (appendInput op var)
  setAttribute : ∀ op key value, Keeps P (setAttribute op key value)
  removeAttribute : ∀ op key, Keeps P (removeAttribute op key)
  setValue : ∀ var value, Keeps P (setValue var value)

/-- Every edit that rewrites are made of keeps `P`, however it ends. -/
structure Edit.RewriteStable (P : Graph α → Prop) : Prop extends Edit.PassStable P where
  replaceOutput : ∀ op old new, Keeps P (replaceOutput op old new)

/-- Every edit that dispatches are made of keeps `P`, however it ends. -/
structure Edit.DispatchStable (P : Graph α → Prop) : Prop extends Edit.PassStable P where
  createOperation : ∀ op type attributes inputs outputs,
    Keeps P (createOperation op type attributes inputs outputs)
  setPlatform : ∀ op platform, Keeps P (setPlatform op platform)

/-- Every elementary edit keeps `P`, however it ends. -/
structure Edit.Stable (P : Graph α → Prop) : Prop
    extends Edit.RewriteStable P, Edit.DispatchStable P where
  linked : ∀ g, P g → g.Linked
  markInput : ∀ var, Keeps P (markInput var)
  markOutput : ∀ var, Keeps P (markOutput var)
  truncateInputs : ∀ op keep, Keeps P (truncateInputs op keep)

namespace Edit

variable {P : Graph α → Prop}

theorem PassStable.inputStable (h : PassStable P) : InputStable P where
  replaceByNew _ _ _ _ := (h.createVariable _ _).discard.bind fun _ => h.replaceInput _ _ _
  appendNew _ _ _ _ _ := (h.createVariable _ _).discard.bind fun _ => h.appendInput _ _

theorem PassStable.workStable (h : PassStable P) (linked : ∀ g, P g → g.Linked) :
    WorkStable P where
  toInputStable := h.inputStable
  linked := linked
  removeOperation := h.removeOperation
  removeVariable _ _ _ := h.removeVariable _
  setAttribute := h.setAttribute
  removeAttribute := h.removeAttribute
  setValue := h.setValue

theorem DispatchStable.relayStable (h : DispatchStable P) : RelayStable P where
  replaceInput := h.replaceInput
  attach _ _ _ _ _ _ :=
    (h.createVariable _ _).discard.bind fun _ => (h.createOperation _ _ _ _ _).discard
  setPlatform := h.setPlatform

end Edit

namespace Rewrite

/-- Lets the parent read the new bias. -/
def setBias (f : Fusion α) (bias : String) : Edit α Unit :=
  match f.bias with
  | some old => Edit.replaceInput f.parent old bias
  | none => Edit.appendInput f.parent bias

/-- Lets the parent stand for the normalization that is gone. -/
def absorb (f : Fusion α) (statistics : List String) : Edit α Unit := do
  let weight := (← get).freshName (f.parent ++ ".fused_weight")
  discard (Edit.createVariable weight (some f.foldedWeight))
  Edit.replaceInput f.parent f.weight weight
  let bias := (← get).freshName (f.parent ++ ".fused_bias")
  discard (Edit.createVariable bias (some f.foldedBias))
  setBias f bias
  Edit.replaceOutput f.parent f.intermediate f.output
  discard (Edit.removeVariable f.intermediate)
  (statistics ++ f.weight :: f.bias.toList).forM removeOrphan

theorem applyFusion_eq (f : Fusion α) : applyFusion f = (do
    let statistics := (((← get).getOperation? f.norm).map (·.inputs.drop 1)).getD []
    discard (Edit.removeOperation f.norm)
    absorb f statistics) := by
  unfold applyFusion absorb setBias
  cases f.bias <;> rfl

/-- Lets the parent read new parameters with the folded values. -/
def supplyFolded (f : Fusion α) : Edit α Unit := do
  let weight := (← get).freshName (f.parent ++ ".fused_weight")
  discard (Edit.createVariable weight (some f.foldedWeight))
  Edit.replaceInput f.parent f.weight weight
  let bias := (← get).freshName (f.parent ++ ".fused_bias")
  discard (Edit.createVariable bias (some f.foldedBias))
  setBias f bias

/-- Removes what nothing refers to after a fold. -/
def dropFolded (f : Fusion α) (statistics : List String) : Edit α Unit := do
  discard (Edit.removeVariable f.intermediate)
  (statistics ++ f.weight :: f.bias.toList).forM removeOrphan

theorem absorb_eq (f : Fusion α) (statistics : List String) : absorb f statistics = (do
    supplyFolded f
    Edit.replaceOutput f.parent f.intermediate f.output
    dropFolded f statistics) := by
  simp only [absorb, supplyFolded, dropFolded, bind_assoc]

end Rewrite

section Passes

open Rewrite

variable {β : Type} {P : Graph α → Prop}

theorem keeps_getOperation {kind op : String} {f : Operation α → Rewrite α β}
    (h : ∀ g o, P g → g.getOperation? op = some o → Task.Keeps P (f o)) :
    Task.Keeps P (Rewrite.getOperation kind op >>= f) := by
  unfold Rewrite.getOperation
  rw [bind_assoc]
  refine Task.keeps_state_bind fun g hg => ?_
  cases ho : g.getOperation? op with
  | none => exact fun _ hl => hl
  | some o => exact h g o hg ho

theorem keeps_countChanges {type : String} {step : String → Rewrite α Bool}
    (hs : ∀ g op, P g → op ∈ g.operationsOfType type → Task.Keeps P (step op)) :
    Task.Keeps P (countChanges type step) := by
  refine Task.keeps_state_bind fun g hg => Keeps.foldlM (fun n op hop => ?_) _
  exact (hs g op hg hop).bind fun changed => by cases changed <;> exact Keeps.pure _

theorem keeps_removeOrphan {var : String} (removes : ∀ {g : Graph α}, P g → var ∉ g.inputs →
    var ∉ g.outputs → Keeps P (Edit.removeVariable var)) : Keeps P (removeOrphan var) := by
  refine Keeps.get_bind fun g hg => Keeps.ite (fun orphan => ?_) fun _ => Keeps.pure _
  obtain ⟨v, -, free⟩ := (Option.any_eq_true _ _).1 orphan
  simp only [Bool.and_eq_true, Bool.not_eq_true', List.contains_eq_mem,
    decide_eq_false_iff_not] at free
  exact (removes hg free.1.2 free.2).discard

/-- Whatever is found about a normalization, only its fold changes the graph. -/
theorem keeps_foldBatchNorm [Scalar α] {norm : String} (folds : ∀ g f, P g →
    planFusion g norm = .ok (.fold f) → P (finalState (applyFusion f g))) :
    Task.Keeps P (foldBatchNorm norm) := by
  intro l hl
  change P (finalState ((Task.ofExcept id (planFusion l.state norm) >>= _) l)).state
  cases plan : planFusion l.state norm with
  | error e => exact hl
  | ok plan' =>
    cases plan' with
    | skip => exact hl
    | statisticsNotParameters => exact hl
    | statisticsMismatch => exact hl
    | fold f =>
      have left := folds l.state f hl plan
      change P (finalState ((edit (applyFusion f) >>= fun _ => pure true : Rewrite α Bool)
        ⟨l.state, _⟩)).state
      rw [run_bind, edit, Task.edit]
      cases run : applyFusion f l.state <;> simpa [run, run_pure] using left

end Passes

namespace Edit.InputStable

open Rewrite

variable {P : Graph α → Prop} (h : InputStable P) {g : Graph α} {op type : String}
include h

theorem appendParameter (hg : P g) (hop : op ∈ g.operationsOfType type) (other : type ≠ switchType)
    (suffix : String) (value : Tensor α) : Keeps P (appendParameter op suffix value) :=
  Keeps.get.bind fun _ => h.appendNew hg hop other _ _

theorem supplyFolded {f : Rewrite.Fusion α} (hg : P g) (hop : f.parent ∈ g.operationsOfType type)
    (other : type ≠ switchType) : Keeps P (supplyFolded f) := by
  have bias : ∀ var value, Keeps P (do
      discard (createVariable var value)
      setBias f var) := by
    intro var value
    unfold setBias
    cases f.bias with
    | none => exact h.appendNew hg hop other _ _
    | some old => exact h.replaceByNew _ _ _ _
  refine Keeps.get.bind fun _ => ?_
  rw [← bind_assoc]
  exact (h.replaceByNew _ _ _ _).bind fun _ => Keeps.get.bind fun _ => bias _ _

end Edit.InputStable

namespace Edit.WorkStable

open Rewrite

variable {P : Graph α → Prop} (h : WorkStable P)
include h

theorem constants : Task.Keeps P (constants : Rewrite α Nat) := by
  refine keeps_countChanges fun _ op _ _ => keeps_getOperation fun _ o _ _ => ?_
  refine (Task.keeps_ofExcept _).bind fun r => ?_
  refine (Task.keeps_edit ?_).bind fun _ => Keeps.pure _
  exact (h.removeOperation _).discard.bind fun _ => h.setValue _ _

theorem sharedParameters : Task.Keeps P (sharedParameters : Rewrite α Nat) := by
  refine Task.keeps_state.bind fun g => (Task.keeps_edit ?_).bind fun _ => Keeps.pure _
  refine Keeps.forM fun s _ => Keeps.forM fun op _ => Keeps.get.bind fun _ => ?_
  exact h.replaceByNew _ _ _ _

theorem casts : Task.Keeps P (casts : Rewrite α Nat) := by
  refine keeps_countChanges fun _ op _ _ => keeps_getOperation fun _ o _ _ => ?_
  refine (Task.keeps_ofExcept _).bind fun t => Keeps.ite (fun _ => Keeps.pure _) fun _ => ?_
  exact (Task.keeps_edit (h.setAttribute _ _ _)).bind fun _ => Keeps.pure _

theorem slices : Task.Keeps P (slices : Rewrite α Nat) := by
  refine keeps_countChanges fun g op hg hop => ?_
  have append : ∀ suffix value, Keeps P (Rewrite.appendParameter op suffix value) :=
    h.appendParameter hg hop (by decide)
  refine keeps_getOperation fun _ o _ _ => ?_
  refine Keeps.ite (fun _ => ?_) fun _ => Keeps.ite (fun _ => Keeps.pure _) fun _ => ?_
  · refine (Task.keeps_ofExcept _).bind fun b => (Task.keeps_edit ?_).bind fun _ => Keeps.pure _
    refine (Keeps.forM fun key _ => (h.removeAttribute _ _).discard).bind fun _ => ?_
    refine (append _ _).bind fun _ => (append _ _).bind fun _ => ?_
    exact (append _ _).bind fun _ => append _ _
  · refine Task.keeps_state.bind fun g => ?_
    cases sliceRank g o with
    | none => exact Keeps.pure _
    | some rank =>
      refine (Task.keeps_edit ?_).bind fun _ => Keeps.pure _
      dsimp only
      split
      · exact (append _ _).bind fun _ => append _ _
      · exact append _ _

theorem clips [Scalar α] : Task.Keeps P (clips : Rewrite α Nat) := by
  refine keeps_countChanges fun g op hg hop => keeps_getOperation fun k o hk ho => ?_
  have name : o.name = op := (h.linked k hk).operation_name ho
  have append : ∀ suffix value, Keeps P (Rewrite.appendParameter o.name suffix value) :=
    h.appendParameter hg (name ▸ hop) (by decide)
  refine Keeps.ite (fun _ => Keeps.pure _) fun _ => Keeps.ite (fun _ => Keeps.throw _) fun _ => ?_
  refine (Task.keeps_edit ?_).bind fun _ => Keeps.pure _
  refine (h.removeAttribute _ _).discard.bind fun _ => ?_
  refine (h.removeAttribute _ _).discard.bind fun _ => ?_
  dsimp only
  split
  · exact (append _ _).bind fun _ => append _ _
  · exact append _ _

theorem removeOrphan (var : String) : Keeps P (removeOrphan (α := α) var) :=
  keeps_removeOrphan h.removeVariable

theorem isolated : Task.Keeps P (isolated : Rewrite α Nat) := by
  have rest : ∀ dead : List String, Task.Keeps P (do
      edit (dead.forM fun op => discard (Edit.removeOperation op))
      let unused := unreferenced (← Task.state)
      edit (unused.forM fun var => discard (Edit.removeVariable var))
      return dead.length + unused.length : Rewrite α Nat) := by
    intro dead
    refine (Task.keeps_edit (Keeps.forM fun op _ => (h.removeOperation _).discard)).bind fun _ => ?_
    refine Task.keeps_state_bind fun g hg => ?_
    refine (Task.keeps_edit (Keeps.forM fun var hvar => ?_)).bind fun _ => Keeps.pure _
    obtain ⟨v, hv, rfl⟩ := List.mem_map.1 hvar
    have free := (List.mem_filter.1 hv).2
    simp only [Bool.and_eq_true, Bool.not_eq_true', List.contains_eq_mem,
      decide_eq_false_iff_not] at free
    exact (h.removeVariable hg free.1.2 free.2).discard
  refine Task.keeps_state.bind fun g => ?_
  dsimp only
  split
  · exact (Task.keeps_note _).bind fun _ => (Keeps.pure _).bind rest
  · exact (Keeps.pure _).bind rest

theorem dropFolded {f : Rewrite.Fusion α} (removes : Keeps P (Edit.removeVariable f.intermediate))
    (statistics : List String) : Keeps P (dropFolded f statistics) :=
  removes.discard.bind fun _ => Keeps.forM fun var _ => h.removeOrphan var

/-- New inputs come first. With them `Q` holds, which is enough for the parent to take the
output over. -/
theorem absorb_leaves {Q : Graph α → Prop} (inputs : InputStable Q) (weaken : ∀ g, Q g → P g)
    {f : Rewrite.Fusion α} {g k : Graph α} {type : String} (hk : Q k)
    (parent : f.parent ∈ k.operationsOfType type) (other : type ≠ switchType)
    (moves : ∀ g, Q g → P (finalState (replaceOutput f.parent f.intermediate f.output g)))
    (removes : Keeps P (Edit.removeVariable f.intermediate)) (statistics : List String) (hg : Q g) :
    P (finalState (absorb f statistics g)) := by
  rw [absorb_eq]
  refine (inputs.supplyFolded hk parent other).bind_leaves weaken (fun _ k hk => ?_) g hg
  have moved := moves k hk
  rw [run_bind]
  cases run : replaceOutput f.parent f.intermediate f.output k with
  | ok b t =>
    rw [run] at moved
    exact h.dropFolded removes statistics t moved
  | error e t =>
    rw [run] at moved
    exact moved

theorem rewrite_of_batchNorms [Scalar α] (norms : Task.Keeps P (Rewrite.batchNorms (α := α)))
    (c : Command) : Task.Keeps P (c.rewrite (α := α)) := by
  cases c with
  | constants => exact h.constants
  | batchNorms => exact norms
  | sharedParameters => exact h.sharedParameters
  | casts => exact h.casts
  | slices => exact h.slices
  | clips => exact h.clips
  | isolated => exact h.isolated

theorem process_of_batchNorms [Scalar α] (norms : Task.Keeps P (Rewrite.batchNorms (α := α)))
    (c : Command) : Task.Keeps P (process (α := α) c) :=
  (Task.keeps_wrapError (h.rewrite_of_batchNorms norms c)).bind fun _ =>
    Task.keeps_state.bind fun _ => (Task.keeps_note _).bind fun _ => Keeps.pure _

end Edit.WorkStable

namespace Edit.RewriteStable

open Rewrite

variable {P : Graph α → Prop} (h : RewriteStable P)
include h

theorem absorb (f : Rewrite.Fusion α) (statistics : List String) :
    Keeps P (absorb f statistics) := by
  have bias : ∀ var, Keeps P (Rewrite.setBias f var) := by
    intro var
    unfold Rewrite.setBias
    cases f.bias with
    | none => exact h.appendInput _ _
    | some old => exact h.replaceInput _ _ _
  refine Keeps.get.bind fun _ => (h.createVariable _ _).discard.bind fun _ => ?_
  refine (h.replaceInput _ _ _).bind fun _ => Keeps.get.bind fun _ => ?_
  refine (h.createVariable _ _).discard.bind fun _ => (bias _).bind fun _ => ?_
  refine (h.replaceOutput _ _ _).bind fun _ => (h.removeVariable _).discard.bind fun _ => ?_
  exact Keeps.forM fun var _ => keeps_removeOrphan fun _ _ _ => h.removeVariable var

theorem applyFusion (f : Rewrite.Fusion α) : Keeps P (applyFusion f) := by
  rw [applyFusion_eq]
  exact Keeps.get.bind fun _ => (h.removeOperation _).discard.bind fun _ => h.absorb f _

theorem batchNorms [Scalar α] : Task.Keeps P (batchNorms : Rewrite α Nat) :=
  keeps_countChanges fun _ _ _ _ => keeps_foldBatchNorm fun g f hg _ => h.applyFusion f g hg

theorem rewrite [Scalar α] (linked : ∀ g, P g → g.Linked) (c : Command) :
    Task.Keeps P (c.rewrite (α := α)) :=
  (h.workStable linked).rewrite_of_batchNorms h.batchNorms c

theorem process [Scalar α] (linked : ∀ g, P g → g.Linked) (c : Command) :
    Task.Keeps P (process (α := α) c) :=
  (h.workStable linked).process_of_batchNorms h.batchNorms c

end Edit.RewriteStable

section Removal

open Dispatch

variable {P : Graph α → Prop}

/-- A switch goes with its relay. -/
theorem keeps_removeStale {op : String} (removes : ∀ op, Keeps P (Edit.removeOperation op))
    (redirects : ∀ op old new, Keeps P (Edit.replaceInput op old new))
    (drops : ∀ {g o relay}, P g → g.getOperation? op = some o → relay ∈ o.outputs →
      Keeps P (Edit.removeVariable relay)) : Task.Keeps P (removeStale (α := α) op) := by
  refine Task.keeps_state_bind fun g hg => ?_
  cases ho : g.getOperation? op with
  | none => exact Keeps.pure _
  | some o =>
    dsimp only
    split
    · rename_i input relay slots
      have produced : o.outputs.head? = some relay := congrArg Prod.snd slots
      refine (Task.keeps_edit ?_).bind fun _ => Task.keeps_note _
      refine Keeps.get.bind fun _ => (removes _).discard.bind fun _ => ?_
      refine (Keeps.forM fun c _ => redirects _ _ _).bind fun _ => ?_
      exact (drops hg ho (List.mem_of_head? produced)).discard
    · exact Keeps.pure _

/-- What is stale is known at the start; `Q k` is what holds while the stale switches of `k` go. -/
theorem keeps_removeStaleSwitches (Q : Graph α → Graph α → Prop) (start : ∀ k, P k → Q k k)
    (weaken : ∀ k h, Q k h → P h)
    (removal : ∀ k, P k → ∀ op ∈ staleSwitches k, Task.Keeps (Q k) (removeStale op)) :
    Task.Keeps P (removeStaleSwitches : Dispatching α Nat) := by
  intro l hl
  have all : Task.Keeps (Q l.state) ((staleSwitches l.state).forM removeStale) :=
    Keeps.forM fun op hop => removal l.state hl op hop
  exact weaken _ _ ((all.bind fun _ => Keeps.pure _) l (start _ hl))

theorem keeps_apply_overrides (overrides : Overrides) (g : Graph α) (t : DispatchTable) :
    Task.Keeps P (overrides.apply g t : Task (Graph α) DispatchError DispatchTable) := by
  refine Keeps.bind (Keeps.filterMapM fun e _ => ?_) fun requests => Keeps.foldlM (fun t r _ => ?_) _
  · refine Keeps.ite (fun _ => (Task.keeps_note _).bind fun _ => Keeps.pure _) fun _ => ?_
    cases Platform.ofCode? e.2 with
    | none => exact Keeps.throw _
    | some platform => exact Keeps.pure _
  · unfold Overrides.force
    cases t.get? r.1 with
    | none => exact Keeps.pure _
    | some previous =>
      dsimp only
      split
      · exact (Task.keeps_note _).bind fun _ => Keeps.pure _
      · exact Keeps.pure _

end Removal

namespace Edit.RelayStable

open Dispatch

variable {P : Graph α → Prop} (h : RelayStable P)
include h

theorem insertOnVariable (op type : String) (attributes : NameMap (Attribute α)) (var : String)
    (consumers : List String) :
    Keeps P (insertOnVariable op type attributes var consumers) := by
  refine Keeps.get.bind fun g => ?_
  cases g.getVariable? var with
  | none => exact Keeps.throw _
  | some v =>
    refine (Keeps.forM fun c _ => Keeps.ite (fun _ => Keeps.pure _) fun _ => Keeps.throw _).bind
      fun _ => ?_
    refine Keeps.get_bind fun k hk => ?_
    rw [← bind_assoc]
    refine (h.attach hk (k.freshName_not_mem _).1 _ _ _ _).bind fun _ => ?_
    exact (Keeps.forM fun c _ => h.replaceInput c _ _).bind fun _ => Keeps.pure _

theorem relayCrossing (c : Crossing) : Task.Keeps P (relayCrossing (α := α) c) := by
  unfold Dispatch.relayCrossing
  cases c.relay with
  | some relay =>
    refine (Task.keeps_edit ?_).bind fun _ => Keeps.pure _
    exact Keeps.forM fun consumer _ => h.replaceInput _ _ _
  | none =>
    refine (Task.keeps_edit ?_).bind fun _ => (Task.keeps_note _).bind fun _ => Keeps.pure _
    refine Keeps.get.bind fun _ => (h.insertOnVariable _ _ _ _ _).discard.bind fun _ => ?_
    exact (h.setPlatform _ _).bind fun _ => Keeps.pure _

theorem insertSwitches (removal : Task.Keeps P (removeStaleSwitches : Dispatching α Nat)) :
    Task.Keeps P (insertSwitches : Dispatching α Nat) := by
  have relay : Task.Keeps P (do
      (crossings (← Task.state)).foldlM
        (fun n c => return if ← Dispatch.relayCrossing c then n + 1 else n) 0 :
        Dispatching α Nat) := by
    refine Task.keeps_state.bind fun g => Keeps.foldlM (fun n c _ => ?_) _
    exact (h.relayCrossing c).bind fun new => Keeps.pure _
  refine removal.bind fun removed => ?_
  dsimp only
  split
  · exact (Task.keeps_note _).bind fun _ => relay
  · exact relay

theorem commit (t : DispatchTable) : Task.Keeps P (t.commit (α := α)) := by
  refine Task.keeps_state.bind fun g => (Task.keeps_ofExcept _).bind fun _ => ?_
  refine Keeps.forM fun e _ => Task.keeps_state.bind fun g => ?_
  exact Keeps.ite (fun _ => Task.keeps_edit (h.setPlatform _ _)) fun _ => Keeps.pure _

theorem run (removal : Task.Keeps P (removeStaleSwitches : Dispatching α Nat)) (r : Request) :
    Task.Keeps P (run (α := α) r) := by
  refine Task.keeps_state.bind fun g => (Task.keeps_ofExcept _).bind fun planned => ?_
  refine Task.keeps_state.bind fun _ => (Keeps.forM fun e _ => Task.keeps_note e).bind fun _ => ?_
  refine Task.keeps_state.bind fun g => (keeps_apply_overrides _ _ _).bind fun table => ?_
  refine (h.commit table).bind fun _ => (h.insertSwitches removal).bind fun switches => ?_
  exact Task.keeps_state.bind fun _ => (Task.keeps_note _).bind fun _ => Keeps.pure _

end Edit.RelayStable

namespace Edit.DispatchStable

open Dispatch

variable {P : Graph α → Prop} (h : DispatchStable P)
include h

theorem insertOnVariable (op type : String) (attributes : NameMap (Attribute α)) (var : String)
    (consumers : List String) :
    Keeps P (insertOnVariable op type attributes var consumers) :=
  h.relayStable.insertOnVariable op type attributes var consumers

theorem removeStaleSwitches : Task.Keeps P (removeStaleSwitches : Dispatching α Nat) :=
  keeps_removeStaleSwitches (fun _ => P) (fun _ hk => hk) (fun _ _ hh => hh) fun _ _ _ _ =>
    keeps_removeStale h.removeOperation h.replaceInput fun _ _ _ => h.removeVariable _

theorem insertSwitches : Task.Keeps P (insertSwitches : Dispatching α Nat) :=
  h.relayStable.insertSwitches h.removeStaleSwitches

theorem run (r : Request) : Task.Keeps P (run (α := α) r) :=
  h.relayStable.run h.removeStaleSwitches r

end Edit.DispatchStable

end GraphDispatch
