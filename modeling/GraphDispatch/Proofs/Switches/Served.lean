import Mathlib.Data.Set.Card
import GraphDispatch.Proofs.Sorting
import GraphDispatch.Proofs.Switches.Completed
import GraphDispatch.Proofs.Switches.Handed

/-!
# One switch for each crossing

On a graph without switches every pair of a variable and a platform that it crosses to gets a
switch of its own. The names of the switches and of their relays are new; the operations on the
platform read the relay instead of the variable, and nothing else changes.
-/

namespace GraphDispatch

variable {α : Type} {a k k' : Graph α} {c : Dispatch.Crossing} {l : List Dispatch.Crossing}
  {s r op var : String} {o : Operation α} {platform : Platform} {p : String × Platform}
  {S : Set (String × Platform)} {switch relay : String × Platform → String}

def Dispatch.Crossing.pair (c : Dispatch.Crossing) : String × Platform := (c.var, c.target)

namespace Graph

section Slot

open Classical in
/-- What an operation on the platform reads for `var` where the pairs of `S` have relays. -/
noncomputable def slot (S : Set (String × Platform)) (relay : String × Platform → String)
    (platform : Platform) (var : String) : String :=
  if (var, platform) ∈ S then relay (var, platform) else var

theorem slot_of_mem (h : (var, platform) ∈ S) :
    slot S relay platform var = relay (var, platform) := if_pos h

theorem slot_of_not_mem (h : (var, platform) ∉ S) : slot S relay platform var = var := if_neg h

open Classical in
theorem slot_insert : slot (insert p S) (Function.update relay p r) platform var =
    if (var, platform) = p then r else slot S relay platform var := by
  by_cases same : (var, platform) = p
  · rw [if_pos same, slot_of_mem (by simp [same]), same, Function.update_self]
  · rw [if_neg same]
    by_cases served : (var, platform) ∈ S
    · rw [slot_of_mem served, slot_of_mem (by simp [served]), Function.update_of_ne same]
    · rw [slot_of_not_mem served, slot_of_not_mem (by simp [served, same])]

/-- The operation with the relays in the slots that have them. -/
noncomputable def rerouted (S : Set (String × Platform)) (relay : String × Platform → String)
    (o : Operation α) : Operation α := { o with inputs := o.inputs.map (slot S relay o.platform) }

end Slot

/-- A new name for a new pair. -/
theorem injOn_update {f : String × Platform → String} (injective : Set.InjOn f S) (hp : p ∉ S)
    (unused : ∀ q ∈ S, f q ≠ s) : Set.InjOn (Function.update f p s) (insert p S) := by
  have same : Set.EqOn f (Function.update f p s) S := by
    intro q hq
    rw [Function.update_of_ne]
    rintro rfl
    exact hp hq
  rw [Set.injOn_insert hp, Function.update_self]
  refine ⟨injective.congr same, ?_⟩
  rintro ⟨q, hq, named⟩
  exact unused q hq ((same hq).trans named)

/-- `k` is `a` with a switch for every pair of `S`, named by `switch`, that hands the variable
of the pair over to its platform under the name that `relay` gives. -/
structure Served (S : Set (String × Platform)) (a k : Graph α)
    (switch relay : String × Platform → String) : Prop where
  linked : k.Linked
  name : k.name = a.name
  inputs : k.inputs = a.inputs
  outputs : k.outputs = a.outputs
  new_switch : ∀ p ∈ S, switch p ∉ a.operations
  new_relay : ∀ p ∈ S, relay p ∉ a.vars
  switch_injOn : Set.InjOn switch S
  relay_injOn : Set.InjOn relay S
  /-- Operations change in the slots that have relays and nowhere else. -/
  kept : ∀ op o, a.getOperation? op = some o → k.getOperation? op = some (rerouted S relay o)
  /-- A switch leads from where the variable is made to the platform of the pair. Its attributes
  are the codes of both. -/
  switches : ∀ p ∈ S, ∃ source o, a.MadeOn source p.1 ∧ k.getOperation? (switch p) = some o ∧
    o.switchPlatforms? = some (source, p.2) ∧
    o = ⟨switch p, "DeviceSwitch", .ofList [("source_platform", .int source.code),
      ("target_platform", .int p.2.code)], [p.1], [relay p], .boundary⟩
  operations : ∀ op ∈ k.operations, op ∈ a.operations ∨ ∃ p ∈ S, op = switch p
  declared : ∀ var ∈ a.vars, k.content.declarations.get? var = a.content.declarations.get? var
  relays : ∀ p ∈ S, k.content.declarations.get? (relay p) = some ⟨relay p, none, false⟩
  vars : ∀ var ∈ k.vars, var ∈ a.vars ∨ ∃ p ∈ S, var = relay p

/-- The graph has what the crossing says, and no switch hands its variable on. -/
structure Unserved (a : Graph α) (c : Dispatch.Crossing) : Prop where
  made : a.MadeOn c.source c.var
  consumers : ∀ q, q ∈ c.consumers ↔ a.Reads q c.var ∧ a.SitsOn c.target q
  relay : c.relay = none

namespace Served

theorem start (ha : a.Linked) : Served ∅ a a switch relay where
  linked := ha
  name := rfl
  inputs := rfl
  outputs := rfl
  new_switch := by simp
  new_relay := by simp
  switch_injOn := Set.injOn_empty _
  relay_injOn := Set.injOn_empty _
  kept op o ho := by
    have same : o.inputs.map (slot ∅ relay o.platform) = o.inputs :=
      List.map_id'' (fun _ => slot_of_not_mem (by simp)) _
    rw [rerouted, same, ho]
  switches := by simp
  operations _ := Or.inl
  declared _ _ := rfl
  relays := by simp
  vars _ := Or.inl

section

variable (h : Served S a k switch relay)
include h

theorem keeps_operation (known : op ∈ a.operations) : op ∈ k.operations := by
  obtain ⟨o, ho⟩ := mem_operations_iff.1 known
  exact mem_operations_iff.2 ⟨_, h.kept op o ho⟩

theorem keeps_variable (known : var ∈ a.vars) : var ∈ k.vars := by
  obtain ⟨d, hd⟩ := NameMap.mem_iff.1 (mem_declarations.2 known)
  exact mem_declarations.1 (NameMap.mem_of_get? ((h.declared var known).trans hd))

theorem switch_mem (hp : p ∈ S) : switch p ∈ k.operations := by
  obtain ⟨source, o, -, found, -⟩ := h.switches p hp
  exact mem_operations_iff.2 ⟨_, found⟩

theorem relay_mem (hp : p ∈ S) : relay p ∈ k.vars :=
  mem_declarations.1 (NameMap.mem_of_get? (h.relays p hp))

/-- What is no variable of `a` is read for no variable of `a` but its own. -/
theorem slot_eq_iff {x : String} (known : x ∈ a.vars) :
    slot S relay platform var = x ↔ var = x ∧ (var, platform) ∉ S := by
  by_cases served : (var, platform) ∈ S
  · rw [slot_of_mem served]
    simp only [served, not_true_eq_false, and_false, iff_false]
    rintro rfl
    exact h.new_relay _ served known
  · simp [slot_of_not_mem served, served]

/-- The consumers of a crossing are redirected in the slots of its pair. -/
theorem redirect_slots (plain : a.Plain) (ha : a.Linked) (crossing : a.Unserved c)
    (unserved : c.pair ∉ S) (ho : a.getOperation? op = some o) :
    (if op ∈ c.consumers then (rerouted S relay o).redirect c.var r else rerouted S relay o) =
      rerouted (insert c.pair S) (Function.update relay c.pair r) o := by
  unfold rerouted
  have known := crossing.made.known ha
  by_cases consumes : op ∈ c.consumers
  · obtain ⟨o', ho', -, platform⟩ := ((crossing.consumers op).1 consumes).2
    cases ho.symm.trans ho'
    rw [if_pos consumes]
    simp only [Operation.redirect, List.map_map]
    congr 1
    apply List.map_congr_left
    intro var _
    rw [Function.comp_apply, slot_insert, platform, Dispatch.Crossing.pair]
    by_cases same : var = c.var
    · subst same
      rw [slot_of_not_mem unserved, if_pos rfl, if_pos rfl]
    · rw [if_neg fun e => same ((h.slot_eq_iff known).1 e).1,
        if_neg fun e => same (Prod.mk.inj e).1]
  · rw [if_neg consumes]
    congr 1
    apply List.map_congr_left
    intro var hvar
    rw [slot_insert, if_neg]
    intro same
    obtain ⟨rfl, platform⟩ := Prod.mk.inj same
    exact consumes ((crossing.consumers op).2 ⟨⟨o, ho, hvar⟩, o, ho, plain ho, platform⟩)

end

/-- A new switch serves the next crossing. -/
theorem next (h : Served S a k switch relay) (ha : a.Linked) (plain : a.Plain)
    (crossing : a.Unserved c) (unserved : c.pair ∉ S)
    (fresh : s ∉ k.operations) (unknown : r ∉ k.vars) (linked : k'.Linked)
    (content : k'.content = { k.content with
      operations := (k.operations.mapEntries fun n o =>
        if n ∈ c.consumers then o.redirect c.var r else o).insert s (Dispatch.switchOn c s r)
      declarations := k.content.declarations.insert r ⟨r, none, false⟩ }) :
    Served (insert c.pair S) a k' (Function.update switch c.pair s)
      (Function.update relay c.pair r) := by
  have look : ∀ n, k'.getOperation? n = if n = s then some (Dispatch.switchOn c s r) else
      (k.getOperation? n).map fun o => if n ∈ c.consumers then o.redirect c.var r else o := by
    intro n
    have operations : k'.operations = _ := congrArg Content.operations content
    rw [getOperation?, operations, NameMap.get?_insert, NameMap.get?_mapEntries]
    rfl
  have declarations : ∀ n, k'.content.declarations.get? n =
      if n = r then some ⟨r, none, false⟩ else k.content.declarations.get? n := by
    intro n
    rw [content, NameMap.get?_insert]
  have other : ∀ p ∈ S, p ≠ c.pair := by
    rintro p hp rfl
    exact unserved hp
  have switched : ∀ p ∈ S, switch p ≠ s := by
    rintro p hp rfl
    exact fresh (h.switch_mem hp)
  have relayed : ∀ p ∈ S, relay p ≠ r := by
    rintro p hp rfl
    exact unknown (h.relay_mem hp)
  constructor
  case linked => exact linked
  case name => exact (congrArg Content.name content).trans h.name
  case inputs => exact (congrArg Content.inputs content).trans h.inputs
  case outputs => exact (congrArg Content.outputs content).trans h.outputs
  case new_switch =>
    intro p hp
    rcases Set.mem_insert_iff.1 hp with rfl | hp
    · rw [Function.update_self]
      exact fun known => fresh (h.keeps_operation known)
    · rw [Function.update_of_ne (other p hp)]
      exact h.new_switch p hp
  case new_relay =>
    intro p hp
    rcases Set.mem_insert_iff.1 hp with rfl | hp
    · rw [Function.update_self]
      exact fun known => unknown (h.keeps_variable known)
    · rw [Function.update_of_ne (other p hp)]
      exact h.new_relay p hp
  case switch_injOn => exact injOn_update h.switch_injOn unserved switched
  case relay_injOn => exact injOn_update h.relay_injOn unserved relayed
  case kept =>
    intro op o ho
    have apart : op ≠ s := fun e => fresh (e ▸ h.keeps_operation (mem_operations_iff.2 ⟨o, ho⟩))
    rw [look, if_neg apart, h.kept op o ho, Option.map_some,
      h.redirect_slots plain ha crossing unserved ho]
  case switches =>
    intro p hp
    rcases Set.mem_insert_iff.1 hp with rfl | hp
    · refine ⟨c.source, Dispatch.switchOn c s r, crossing.made, ?_,
        Operation.switchPlatforms?_of_attributes rfl rfl, ?_⟩
      · rw [Function.update_self, look, if_pos rfl]
      · rw [Function.update_self, Function.update_self]
        rfl
    · obtain ⟨source, o, made, found, platforms, rfl⟩ := h.switches p hp
      refine ⟨source, _, made, ?_, platforms, ?_⟩
      · have unread : switch p ∉ c.consumers := by
          intro consumes
          exact h.new_switch p hp ((crossing.consumers _).1 consumes).2.known
        rw [Function.update_of_ne (other p hp), look, if_neg (switched p hp), found,
          Option.map_some, if_neg unread]
      · rw [Function.update_of_ne (other p hp), Function.update_of_ne (other p hp)]
  case operations =>
    intro op known
    obtain ⟨o, ho⟩ := mem_operations_iff.1 known
    rw [look] at ho
    split at ho
    · exact Or.inr ⟨c.pair, Set.mem_insert _ _, by simp [*]⟩
    · obtain ⟨o', ho', -⟩ := Option.map_eq_some_iff.1 ho
      rcases h.operations op (mem_operations_iff.2 ⟨o', ho'⟩) with known | ⟨p, hp, rfl⟩
      · exact Or.inl known
      · exact Or.inr ⟨p, Set.mem_insert_of_mem _ hp, by rw [Function.update_of_ne (other p hp)]⟩
  case declared =>
    intro var known
    have apart : var ≠ r := fun e => unknown (e ▸ h.keeps_variable known)
    rw [declarations, if_neg apart, h.declared var known]
  case relays =>
    intro p hp
    rcases Set.mem_insert_iff.1 hp with rfl | hp
    · rw [Function.update_self, declarations, if_pos rfl]
    · rw [Function.update_of_ne (other p hp), declarations, if_neg (relayed p hp), h.relays p hp]
  case vars =>
    intro var known
    obtain ⟨d, hd⟩ := NameMap.mem_iff.1 (mem_declarations.2 known)
    rw [declarations] at hd
    split at hd
    · exact Or.inr ⟨c.pair, Set.mem_insert _ _, by simp [*]⟩
    · rcases h.vars var (mem_declarations.1 (NameMap.mem_of_get? hd)) with known | ⟨p, hp, rfl⟩
      · exact Or.inl known
      · exact Or.inr ⟨p, Set.mem_insert_of_mem _ hp, by rw [Function.update_of_ne (other p hp)]⟩

section Variables

variable (h : Served S a k switch relay)
include h

theorem produces_iff (known : var ∈ a.vars) : k.Produces op var ↔ a.Produces op var := by
  constructor
  · rintro ⟨o', ho', made⟩
    rcases h.operations op (mem_operations_iff.2 ⟨o', ho'⟩) with old | ⟨p, hp, rfl⟩
    · obtain ⟨o, ho⟩ := mem_operations_iff.1 old
      cases (h.kept op o ho).symm.trans ho'
      exact ⟨o, ho, made⟩
    · obtain ⟨source, o, -, found, -, rfl⟩ := h.switches p hp
      cases found.symm.trans ho'
      cases List.mem_singleton.1 made
      exact absurd known (h.new_relay p hp)
  · rintro ⟨o, ho, made⟩
    exact ⟨_, h.kept op o ho, made⟩

/-- A variable without relays is read as often as before. -/
theorem count_inputs (known : var ∈ a.vars) (alone : ∀ target, (var, target) ∉ S) (op : String) :
    ((k.getOperation? op).map (·.inputs.count var)).getD 0 =
      ((a.getOperation? op).map (·.inputs.count var)).getD 0 := by
  cases ho : a.getOperation? op with
  | some o =>
    have slots : ∀ x, slot S relay o.platform x = var ↔ x = var := by
      intro x
      rw [h.slot_eq_iff known]
      exact and_iff_left_of_imp fun e => e ▸ alone o.platform
    simp [h.kept op o ho, rerouted, List.count, List.countP_map, Function.comp_def, slots,
      beq_eq_decide]
  | none =>
    cases hk : k.getOperation? op with
    | none => rfl
    | some o' =>
      rcases h.operations op (mem_operations_iff.2 ⟨o', hk⟩) with old | ⟨p, hp, rfl⟩
      · obtain ⟨o, ho'⟩ := mem_operations_iff.1 old
        simp [ho] at ho'
      · obtain ⟨source, o, -, found, -, rfl⟩ := h.switches p hp
        cases found.symm.trans hk
        have other : p.1 ≠ var := by
          rintro rfl
          exact alone p.2 hp
        simp [List.count_eq_zero, other.symm]

/-- The variables keep what they are and who produces them, and without relays who reads them. -/
theorem getVariable? (ha : a.Linked) {v : Variable α} (hv : a.getVariable? var = some v) :
    ∃ consumers, k.getVariable? var = some { v with consumers := consumers } ∧
      ((∀ target, (var, target) ∉ S) → consumers = v.consumers) := by
  have known : var ∈ a.vars := mem_vars_iff.2 ⟨v, hv⟩
  obtain ⟨w, hw⟩ := mem_vars_iff.1 (h.keeps_variable known)
  have declared : w.declaration = v.declaration := by
    have same := h.declared var known
    rw [get?_declarations, get?_declarations, hv, hw] at same
    exact Option.some.inj same
  have producer : w.producer = v.producer := by
    apply Option.ext
    intro op
    exact (h.linked.producer_iff hw op).trans
      ((h.produces_iff known).trans (ha.producer_iff hv op).symm)
  refine ⟨w.consumers, ?_, fun alone => ?_⟩
  · rw [hw]
    cases v
    cases w
    simp_all [Variable.declaration]
  · apply eq_of_count_eq (h.linked.consumers_sorted hw) (ha.consumers_sorted hv)
    intro op
    rw [h.linked.count_consumers hw, ha.count_consumers hv, h.count_inputs known alone]

theorem getVariable?_relay (hp : p ∈ S) : ∃ consumers, k.getVariable? (relay p) =
    some ⟨relay p, none, false, some (switch p), consumers⟩ := by
  obtain ⟨w, hw⟩ := mem_vars_iff.1 (h.relay_mem hp)
  have declared : w.declaration = ⟨relay p, none, false⟩ := by
    have same := h.relays p hp
    rw [get?_declarations, hw] at same
    exact Option.some.inj same
  have producer : w.producer = some (switch p) := by
    obtain ⟨source, o, -, found, -, rfl⟩ := h.switches p hp
    exact (h.linked.producer_iff hw _).2 ⟨_, found, by simp⟩
  refine ⟨w.consumers, ?_⟩
  rw [hw]
  cases w
  simp_all [Variable.declaration]

theorem isSwitch_iff (plain : a.Plain) :
    (∃ o, k.getOperation? s = some o ∧ o.isSwitch = true) ↔ ∃ p ∈ S, s = switch p := by
  constructor
  · rintro ⟨o', ho', isSwitch⟩
    rcases h.operations s (mem_operations_iff.2 ⟨o', ho'⟩) with old | new
    · obtain ⟨o, ho⟩ := mem_operations_iff.1 old
      cases (h.kept s o ho).symm.trans ho'
      have unswitched : o.isSwitch = false := plain ho
      exact absurd (isSwitch.symm.trans unswitched) (by decide)
    · exact new
  · rintro ⟨p, hp, rfl⟩
    obtain ⟨source, o, -, found, -, rfl⟩ := h.switches p hp
    exact ⟨_, found, decide_eq_true rfl⟩

end Variables

end Served

/-- The variables with the platforms that they cross to. -/
def crossed (g : Graph α) : Set (String × Platform) := {p | g.Crosses p.1 p.2}

/-- `k` is `a` with one switch for each pair of a variable and a platform that it crosses to. -/
structure Switched (a k : Graph α) (switch relay : String × Platform → String) : Prop extends
    Served a.crossed a k switch relay where
  isSwitch_iff : ∀ s, (∃ o, k.getOperation? s = some o ∧ o.isSwitch = true) ↔
    ∃ p ∈ a.crossed, s = switch p
  known : ∀ var v, a.getVariable? var = some v → ∃ consumers,
    k.getVariable? var = some { v with consumers := consumers } ∧
      ((∀ target, ¬a.Crosses var target) → consumers = v.consumers)
  handed : ∀ p ∈ a.crossed, ∃ consumers, k.getVariable? (relay p) =
    some ⟨relay p, none, false, some (switch p), consumers⟩

theorem Served.switched (h : Served a.crossed a k switch relay) (ha : a.Linked)
    (plain : a.Plain) : Switched a k switch relay :=
  ⟨h, fun _ => h.isSwitch_iff plain, fun _ _ => h.getVariable? ha,
    fun _ => h.getVariable?_relay⟩

end Graph

namespace Dispatch

open GraphDispatch.Graph

theorem removeStaleSwitches_plain (ha : a.Linked) (plain : a.Plain) :
    Task.Leads removeStaleSwitches a fun _ k => k = a := by
  have none : staleSwitches a = [] := by
    apply List.eq_nil_iff_forall_not_mem.2
    intro s stale
    obtain ⟨o, ho, isSwitch, -⟩ := (mem_staleSwitches ha).1 stale
    exact absurd (isSwitch.symm.trans (plain ho)) (by decide)
  apply Task.leads_state_bind
  rw [none]
  exact Task.leads_pure rfl

theorem crossings_unserved (ha : a.Linked) (plain : a.Plain) (h : c ∈ crossings a) :
    a.Unserved c := by
  have due := crossings_due ha h
  obtain ⟨var, v, hv, hc⟩ := mem_crossings.1 h
  obtain ⟨rfl, made, -, consumers, -, -⟩ := crossingsOf_spec ha hv hc
  constructor
  case made => exact made
  case consumers =>
    intro q
    rw [consumers, List.mem_filter, ha.mem_consumerNames hv, sitsOn_iff]
  case relay =>
    cases relay : c.relay with
    | none => rfl
    | some r =>
      obtain ⟨s, o, source, x, ho, bridges⟩ := due.relay r relay
      exact absurd (bridges.isSwitch.symm.trans (plain ho)) (by decide)

theorem mem_crossed (ha : a.Linked) : p ∈ a.crossed ↔ ∃ c ∈ crossings a, c.pair = p := by
  constructor
  · rintro ⟨source, op, made, distinct, sits, reads⟩
    obtain ⟨c, hc, var, target, -⟩ := covered_crossings ha made sits reads distinct
    exact ⟨c, hc, Prod.ext var target⟩
  · rintro ⟨c, hc, rfl⟩
    have due := crossings_due ha hc
    obtain ⟨q, consumes⟩ := List.exists_mem_of_ne_nil _ due.consumed
    obtain ⟨reads, sits⟩ := due.consumers q consumes
    exact ⟨c.source, q, due.made, due.distinct, sits, reads⟩

/-- `T` are the pairs that are served in the end, those of `S` are served already. -/
theorem relayCrossings_serve (ha : a.Linked) (plain : a.Plain) {T : Set (String × Platform)}
    {n : Nat} (served : Served S a k switch relay) (count : S.encard = n)
    (outstanding : k.Outstanding l) (unserved : ∀ c ∈ l, a.Unserved c)
    (fresh : ∀ c ∈ l, c.pair ∉ S) (distinct : l.Pairwise fun c d => c.pair ≠ d.pair)
    (all : ∀ p, p ∈ T ↔ p ∈ S ∨ ∃ c ∈ l, c.pair = p) :
    Task.Leads (l.foldlM (fun n c => return if ← relayCrossing c then n + 1 else n) n) k
      fun m k' => T.encard = m ∧ ∃ switch relay, Served T a k' switch relay := by
  induction l generalizing k n S switch relay with
  | nil =>
    have same : T = S := Set.ext fun p => by simp [all p]
    subst same
    exact Task.leads_pure ⟨count, switch, relay, served⟩
  | cons c l ih =>
    have crossing := unserved c List.mem_cons_self
    have first : c.pair ∉ S := fresh c List.mem_cons_self
    have inserted : Task.Leads (relayCrossing c) k fun new k' => new = true ∧ k'.Outstanding l ∧
        ∃ switch relay, Served (insert c.pair S) a k' switch relay := by
      obtain ⟨s, r, absent, unknown, k', run, linked, content⟩ :=
        insertSwitch_yields outstanding.linked (outstanding.waiting c List.mem_cons_self)
      unfold relayCrossing
      rw [crossing.relay]
      refine Task.leads_edit_bind run (Task.leads_note_bind (Task.leads_pure ⟨rfl, ?_, ?_⟩))
      · exact outstanding.next (.of_inserted absent linked content)
      · exact ⟨_, _, served.next ha plain crossing first absent unknown linked content⟩
    rw [List.foldlM_cons, bind_assoc]
    refine inserted.bind fun new k' done => ?_
    obtain ⟨rfl, outstanding, switch, relay, served⟩ := done
    rw [pure_bind]
    refine ih served ?_ outstanding (fun d hd => unserved d (List.mem_cons_of_mem _ hd)) ?_
      distinct.of_cons ?_
    · rw [Set.encard_insert_of_notMem first, count]
      rfl
    · intro d hd
      rw [Set.mem_insert_iff, not_or]
      exact ⟨(List.rel_of_pairwise_cons distinct hd).symm, fresh d (List.mem_cons_of_mem _ hd)⟩
    · intro p
      simp [all p, or_left_comm, or_assoc, eq_comm]

theorem insertSwitches_switched (ha : a.Linked) (plain : a.Plain) :
    Task.Leads insertSwitches a fun n k =>
      a.crossed.encard = n ∧ ∃ switch relay, Switched a k switch relay := by
  apply insertSwitches_leads_of (removeStaleSwitches_plain ha plain)
  intro k same
  subst same
  have outstanding : k.Outstanding (crossings k) :=
    ⟨ha, fun c => crossings_waiting ha, crossings_apart ha⟩
  have start : Served ∅ k k Prod.fst Prod.fst := .start ha
  refine (relayCrossings_serve ha plain (T := k.crossed) start Set.encard_empty outstanding
    (fun c => crossings_unserved ha plain) (by simp) (crossings_pairwise ha)
    (by simp [mem_crossed ha])).mono fun n k' done => ?_
  obtain ⟨count, switch, relay, served⟩ := done
  exact ⟨count, switch, relay, served.switched ha plain⟩

variable [Scalar α]

/-- Inserting switches into a graph without switches succeeds for every assignment of platforms,
with one switch for each variable and platform that it crosses to. -/
theorem insertSwitches_serves (reachable : Reachable a) (plain : a.Plain)
    (platforms : String → Platform) :
    Task.Leads insertSwitches (a.assign platforms) fun n k =>
      (a.assign platforms).crossed.encard = n ∧
        ∃ switch relay, Switched (a.assign platforms) k switch relay :=
  insertSwitches_switched (reachable.linked.assign platforms) (plain.assign platforms)

/-- `join` reads what it produces and one variable of `split` twice, on another platform. -/
theorem insertSwitches_serves_looped : looped.Plain ∧
    Task.Leads insertSwitches
      (looped.assign fun op => if op = "split" then .fp32 else .shapeOrIndex) fun n k =>
        (looped.assign fun op => if op = "split" then .fp32 else .shapeOrIndex).crossed.encard = n ∧
        ∃ switch relay, Switched
          (looped.assign fun op => if op = "split" then .fp32 else .shapeOrIndex)
          k switch relay := by
  have plain : looped.Plain := by decide
  exact ⟨plain, insertSwitches_serves ⟨_, loop, .empty "net", rfl⟩ plain _⟩

end Dispatch

end GraphDispatch
