import GraphDispatch.Pipeline.Load
import GraphDispatch.Proofs.Agreement
import GraphDispatch.Proofs.Dispatch.Written
import GraphDispatch.Setting.Simple

/-!
# Operations that stay in single precision

A simple setting asks by name for operations that stay in single precision. A dispatch with it
puts them there and decides on all others as if nothing was asked for. What it asks of operations
that the graph does not have is reported and changes nothing.
-/

namespace GraphDispatch

variable {ε σ α β : Type} {g g' : Graph α}

/-- Of names that all stand for the same, repeated or not, each is found. -/
theorem NameMap.get?_foldl_insert_same (a : β) (names : List String) (m : NameMap β)
    (k : String) :
    ((names.map fun n => (n, a)).foldl (fun m e => m.insert e.1 e.2) m).get? k =
      if k ∈ names then some a else m.get? k := by
  induction names generalizing m with
  | nil => simp
  | cons n names ih =>
    rw [List.map_cons, List.foldl_cons, ih, get?_insert]
    by_cases hk : k = n <;> simp [hk]

/-- A program ends as itself where nothing about the state is left open. -/
theorem Agree.refl (m : EStateM ε σ β) : Agree Eq Eq m m := by
  rintro s _ rfl
  cases m s with
  | ok b t => exact .ok ⟨rfl, rfl⟩
  | error e t => exact .error

namespace Dispatch

/-- The task does the same whatever was reported before. -/
abbrev Deaf (m : Dispatching α β) : Prop := Task.Agree Eq Eq m m

theorem deaf_edit (m : Edit α β) : Deaf (Task.edit .edit m) := Task.agree_edit (.refl m)

theorem deaf_removeStale (op : String) : Deaf (removeStale (α := α) op) := by
  refine Task.agree_state_bind fun g h same => ?_
  rw [same]
  cases h.getOperation? op with
  | none => exact Agree.pure rfl
  | some o =>
    dsimp only
    split
    · exact (deaf_edit _).next fun _ => Task.agree_note _ _
    · exact Agree.pure rfl

theorem deaf_removeStaleSwitches : Deaf (removeStaleSwitches : Dispatching α Nat) := by
  refine Task.agree_state_bind fun g h same => ?_
  rw [same]
  exact Agree.next (.forM fun op _ => deaf_removeStale op) fun _ => .pure rfl

theorem deaf_relayCrossing (c : Crossing) : Deaf (relayCrossing (α := α) c) := by
  unfold relayCrossing
  cases c.relay with
  | some relay => exact (deaf_edit _).next fun _ => .pure rfl
  | none => exact (deaf_edit _).next fun _ => (Task.agree_note _ _).next fun _ => .pure rfl

theorem deaf_insertSwitches : Deaf (insertSwitches : Dispatching α Nat) := by
  have relay : Deaf (do
      (crossings (← Task.state)).foldlM
        (fun n c => return if ← relayCrossing c then n + 1 else n) 0 : Dispatching α Nat) := by
    refine Task.agree_state_bind fun g h same => ?_
    rw [same]
    exact .foldlM (fun n c _ => (deaf_relayCrossing c).next fun new => .pure rfl) _
  refine deaf_removeStaleSwitches.next fun removed => ?_
  dsimp only
  split
  · exact (Task.agree_note _ _).next fun _ => relay
  · exact relay

theorem carryOut_deaf (hg : g.Linked) (strategy : Strategy) {table : DispatchTable}
    (covers : ∀ op ∈ g.operations, op ∈ table) (events later : List Event) :
    SameOutcome (fun t t' l l' => t = t' ∧ l.state = l'.state)
      (carryOut strategy table ⟨g, events⟩) (carryOut strategy table ⟨g, later⟩) := by
  obtain ⟨_, _, noted, run, rfl⟩ := DispatchTable.commit_leads hg covers events
  obtain ⟨_, _, noted', run', rfl⟩ := DispatchTable.commit_leads hg covers later
  have rest : Deaf (do
      let switches ← insertSwitches
      Task.note (.dispatched table.size (← Task.state).name strategy switches)
      return table : Dispatching α DispatchTable) :=
    deaf_insertSwitches.next fun _ => Task.agree_state_bind fun _ _ _ =>
      (Task.agree_note _ _).next fun _ => .pure rfl
  unfold carryOut
  rw [bind_of_ok run, bind_of_ok run']
  exact rest ⟨_, noted⟩ ⟨_, noted'⟩ rfl

/-- Overrides that ask the same of the operations of the graph lead to the same table and the
same graph, or to the same error. -/
theorem run_alike (hg : g.Linked) {r : Request} {overrides : Overrides}
    (decodable : r.overrides.Decodable g) (decodable' : overrides.Decodable g)
    (alike : ∀ op ∈ g.operations, r.overrides.asked op = overrides.asked op)
    (events later : List Event) :
    SameOutcome (fun t t' l l' => t = t' ∧ l.state = l'.state)
      (run r ⟨g, events⟩) (run { r with overrides } ⟨g, later⟩) := by
  have plans : planned { r with overrides } g = planned r g := rfl
  cases plan : planned r g with
  | error e =>
    rw [run_of_error plan, run_of_error (plans.trans plan)]
    exact .error
  | ok p =>
    obtain ⟨strategy, proposed⟩ := p
    have proposes := Request.proposes_of_planned plan
    obtain ⟨reported, goes⟩ := run_of_planned plan events
    obtain ⟨reported', goes'⟩ := run_of_planned (plans.trans plan) later
    obtain ⟨table, _, noted, applied, rfl, found⟩ :=
      Overrides.apply_leads decodable proposed reported
    obtain ⟨table', _, noted', applied', rfl, found'⟩ :=
      Overrides.apply_leads decodable' proposed reported'
    have same : table' = table := by
      refine NameMap.ext_get? fun op => ?_
      rw [found, found']
      by_cases known : op ∈ g.operations
      · rw [if_pos known, if_pos known, alike op known]
      · rw [if_neg known, if_neg known]
    rw [goes, goes', bind_of_ok applied, bind_of_ok applied', same]
    exact carryOut_deaf hg strategy (fun op => (mem_reconciled proposes found op).2) noted noted'

/-- What is proposed does not depend on the overrides. -/
theorem Request.Proposes.unique {r : Request} {overrides : Overrides}
    {proposed proposed' : DispatchTable} (proposes : r.Proposes g proposed)
    (proposes' : Request.Proposes { r with overrides } g proposed') : proposed' = proposed := by
  obtain ⟨quantTypes, strategy, quantizer, parsed, found⟩ := proposes
  obtain ⟨quantTypes', strategy', quantizer', parsed', found'⟩ := proposes'
  cases quantizer.symm.trans quantizer'
  cases parsed.symm.trans parsed'
  exact Except.ok.inj (found'.symm.trans found)

end Dispatch

namespace SimpleSetting

open Dispatch

/-- The operations that are asked to stay in single precision. -/
def spared (s : SimpleSetting) : List String := s.unquantized.getD []

theorem get?_overrides (s : SimpleSetting) (op : String) :
    s.overrides.get? op = if op ∈ s.spared then some Platform.fp32.code else none :=
  NameMap.get?_foldl_insert_same _ _ _ _

theorem overrides_decodable (s : SimpleSetting) (g : Graph α) : s.overrides.Decodable g := by
  intro op code found _
  rw [get?_overrides] at found
  split at found
  · cases found
    exact ⟨.fp32, Platform.ofCode?_code _⟩
  · cases found

variable {s : SimpleSetting} {p : Platform} {table : DispatchTable}

/-- The request that a dispatch with the full setting makes. -/
def request (s : SimpleSetting) (p : Platform) : Request := Pipeline.request p s.expand

theorem accepted (registered : ∃ types, p.quantizer? = some types) (s : SimpleSetting)
    (g : Graph α) : (s.request p).Accepted g where
  quantizer := registered
  strategy := ⟨.conservative, show Strategy.parse? "conservative" = _ by decide⟩
  overrides := s.overrides_decodable g

theorem asked_congr {s' : SimpleSetting} {op : String} (same : op ∈ s'.spared ↔ op ∈ s.spared) :
    s.overrides.asked op = s'.overrides.asked op := by
  simp only [Overrides.asked, get?_overrides, same]

theorem platform_of_spared (written : Written (s.request p) g table g') {op : String}
    (spared : op ∈ s.spared) (known : op ∈ g.operations) : table.get? op = some .fp32 := by
  obtain ⟨proposed, -, decided⟩ := written.decided
  have asked : (s.request p).overrides.get? op = some Platform.fp32.code :=
    (s.get?_overrides op).trans (if_pos spared)
  obtain ⟨q, decoded, found⟩ := (decided op known).1 _ asked
  rw [Platform.ofCode?_code] at decoded
  rw [found, decoded]

/-- Nothing is asked of an operation that is not spared, so the proposal decides. -/
theorem platform_of_unspared {names : Option (List String)} {table' : DispatchTable}
    {h : Graph α} (written : Written (s.request p) g table g')
    (written' : Written ({ s with unquantized := names }.request p) g table' h) {op : String}
    (unspared : op ∉ s.spared) (unspared' : op ∉ names.getD []) (known : op ∈ g.operations) :
    table'.get? op = table.get? op := by
  obtain ⟨proposed, proposes, decided⟩ := written.decided
  obtain ⟨proposed', proposes', decided'⟩ := written'.decided
  have silent : (s.request p).overrides.get? op = none :=
    (s.get?_overrides op).trans (if_neg unspared)
  have silent' : ({ s with unquantized := names }.request p).overrides.get? op = none :=
    (get?_overrides _ op).trans (if_neg unspared')
  rw [(decided op known).2 silent, (decided' op known).2 silent', proposes.unique proposes']

/-- A dispatch of `g` for the platform with the full setting returns the table and leads to
`g'`. -/
def Dispatches (s : SimpleSetting) (p : Platform) (events : List Event) (g : Graph Float32)
    (table : DispatchTable) (g' : Graph Float32) : Prop :=
  ∃ later, Pipeline.dispatch p s.expand ⟨g, events⟩ = .ok table ⟨g', later⟩

theorem dispatches_of_run {g g' : Graph Float32} {events later : List Event}
    (success : run (s.request p) ⟨g, events⟩ = .ok table ⟨g', later⟩) :
    s.Dispatches p events g table g' := by
  refine ⟨later, ?_⟩
  unfold Pipeline.dispatch Task.wrapError EStateM.adaptExcept
  rw [show run (Pipeline.request p s.expand) ⟨g, events⟩ = _ from success]

/-- A dispatch for a platform with a quantizer succeeds. The operations that a simple setting
spares end in single precision, and all others where they end if it spares none; switches apart.
What it says about operations that are not there has no effect. -/
theorem spared_stay_single {g : Graph Float32} (reachable : Reachable g) (acyclic : g.Acyclic)
    (registered : ∃ types, p.quantizer? = some types) (s : SimpleSetting) (events : List Event) :
    ∃ table g', s.Dispatches p events g table g' ∧
      (∀ op ∈ s.spared, ∀ o, g.getOperation? op = some o → o.type ≠ switchType →
        ∃ o', g'.getOperation? op = some o' ∧ o'.platform = .fp32) ∧
      (∀ names : Option (List String), names.getD [] = [] → ∃ table₀ g₀,
        { s with unquantized := names }.Dispatches p events g table₀ g₀ ∧
        ∀ op ∉ s.spared, ∀ o, g.getOperation? op = some o → o.type ≠ switchType →
          ∃ o' o₀, g'.getOperation? op = some o' ∧ g₀.getOperation? op = some o₀ ∧
            o'.platform = o₀.platform) ∧
      ∀ names : Option (List String),
        (∀ op ∈ g.operations, op ∈ names.getD [] ↔ op ∈ s.spared) →
        { s with unquantized := names }.Dispatches p events g table g' := by
  have linked := reachable.linked
  obtain ⟨table, g', later, success, -⟩ :=
    run_succeeds linked acyclic (s.accepted registered g) events
  have written := run_writes linked _ events table _ success
  refine ⟨table, g', dispatches_of_run success, ?_, ?_, ?_⟩
  · intro op spared o ho unswitched
    obtain ⟨o', ho', found, -⟩ := written.kept op o ho unswitched
    have single := platform_of_spared written spared (Graph.mem_operations_iff.2 ⟨o, ho⟩)
    exact ⟨o', ho', Option.some.inj (found.symm.trans single)⟩
  · intro names empty
    let plain : SimpleSetting := { s with unquantized := names }
    obtain ⟨table₀, g₀, later₀, success₀, -⟩ :=
      run_succeeds linked acyclic (plain.accepted registered g) events
    have written₀ := run_writes linked _ events table₀ _ success₀
    refine ⟨table₀, g₀, dispatches_of_run success₀, ?_⟩
    intro op unspared o ho unswitched
    obtain ⟨o', ho', found, -⟩ := written.kept op o ho unswitched
    obtain ⟨o₀, ho₀, found₀, -⟩ := written₀.kept op o ho unswitched
    have same := platform_of_unspared written written₀ unspared (by simp [empty])
      (Graph.mem_operations_iff.2 ⟨o, ho⟩)
    exact ⟨o', o₀, ho', ho₀, Option.some.inj (found.symm.trans (same.symm.trans found₀))⟩
  · intro names same
    let renamed : SimpleSetting := { s with unquantized := names }
    have alike : ∀ op ∈ g.operations, s.overrides.asked op = renamed.overrides.asked op :=
      fun op known => asked_congr (same op known)
    have ends := run_alike (r := s.request p) linked (s.overrides_decodable g)
      (renamed.overrides_decodable g) alike events events
    rw [success] at ends
    obtain ⟨_, ⟨_, later'⟩, success', rfl, rfl⟩ := ends.exists_ok
    exact dispatches_of_run (s := renamed) success'

/-- One of the names is of no operation, and one is said twice. -/
def sparing : SimpleSetting :=
  { platform := .pplCudaInt8, unquantized := some ["conv", "gone", "conv"] }

theorem spared_stay_single_conv : ∃ table g', sparing.Dispatches .trtInt8 [] detoured table g' ∧
    (∃ o', g'.getOperation? "conv" = some o' ∧ o'.platform = .fp32) ∧
    { sparing with unquantized := some ["conv"] }.Dispatches .trtInt8 [] detoured table g' := by
  have reachable : Reachable detoured := ⟨_, detour, .empty "net", rfl⟩
  obtain ⟨table, g', dispatches, single, -, renamed⟩ :=
    spared_stay_single (p := .trtInt8) reachable detoured_acyclic ⟨trtTypes, rfl⟩ sparing []
  have found : (detoured.getOperation? "conv").any (·.type ≠ switchType) = true := by decide
  obtain ⟨o, ho, unswitched⟩ := (Option.any_eq_true _ _).1 found
  have same : ∀ op ∈ detoured.operations, op ∈ ["conv"] ↔ op ∈ sparing.spared := by
    have names : ∀ op ∈ detoured.operations.names, op ∈ ["conv"] ↔ op ∈ sparing.spared := by
      decide
    exact fun op known => names op (NameMap.mem_names.2 known)
  exact ⟨table, g', dispatches, single "conv" (by decide) o ho (of_decide_eq_true unswitched),
    renamed _ same⟩

end SimpleSetting

end GraphDispatch
