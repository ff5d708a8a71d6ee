import GraphDispatch.Proofs.Switches.Distinct
import Mathlib.Combinatorics.Enumerative.DoubleCounting

/-!
# Graphs completed by switches

However switches came into a graph that has none, once its boundaries are complete its
platforms alone say which slots read through a switch and how many switches there are.
-/

namespace GraphDispatch

variable {α : Type} {g a k k' : Graph α}

namespace Graph

/-- The graph has no switches. -/
def Plain (g : Graph α) : Prop := ∀ ⦃op o⦄, g.getOperation? op = some o → o.isSwitch = false

theorem plain_iff : g.Plain ↔ ∀ e ∈ g.operations.entries, e.2.isSwitch = false :=
  NameMap.forall_get?_iff

instance : Decidable g.Plain := decidable_of_iff _ plain_iff.symm

namespace Plain

theorem genuine (plain : g.Plain) (var : String) : g.Genuine var := fun _ _ ho _ => plain ho

theorem eq_of_origin (plain : g.Plain) {var root : String} (origin : g.Origin var root) :
    var = root := origin.eq_of_genuine (plain.genuine var)

theorem not_relays (plain : g.Plain) {s x r : String} : ¬g.Relays s x r :=
  fun relays => relays.not_genuine (plain.genuine r)

theorem ports (plain : g.Plain) : g.SinglePorts := by
  intro op o ho switch
  rw [plain ho] at switch
  cases switch

theorem assign (plain : g.Plain) (platforms : String → Platform) :
    (g.assign platforms).Plain := by
  intro op o ho
  obtain ⟨p, hp, rfl⟩ := assign_eq_some.1 ho
  have unswitched : p.isSwitch = false := plain hp
  exact unswitched

theorem not_hands (plain : g.Plain) {s var : String} {target : Platform} :
    ¬g.Hands s var target := by
  rintro ⟨o, source, ho, leads, -⟩
  have switch := isSwitch_of_platforms leads
  rw [plain ho] at switch
  cases switch

theorem sheltered (plain : g.Plain) : g.Sheltered := by
  intro op o ho switch
  rw [plain ho] at switch
  cases switch

end Plain

/-- `var'` is `var`, or what the one switch between the platforms makes of `var`. -/
inductive Via (g : Graph α) (var : String) : Option (Platform × Platform) → String → Prop where
  | direct : g.Genuine var → Via g var none var
  | switch {s o r pair} : g.getOperation? s = some o → o.switchPlatforms? = some pair →
    o.inputs = [var] → o.outputs = [r] → g.Genuine var → Via g var (some pair) r

theorem SinglePorts.hands_unique (ports : g.SinglePorts) {s x y : String} {source target : Platform}
    (hx : g.Hands s x source) (hy : g.Hands s y target) : x = y ∧ source = target := by
  obtain ⟨o, _, ho, leads, hx⟩ := hx
  obtain ⟨o', _, ho', leads', hy⟩ := hy
  rw [ho] at ho'
  cases ho'
  obtain ⟨z, r, input, -⟩ := ports s o ho (isSwitch_of_platforms leads)
  rw [input, List.mem_singleton] at hx hy
  rw [leads] at leads'
  cases leads'
  exact ⟨hx.trans hy.symm, rfl⟩

/-- The variable is made on one platform and read on another. -/
def Crosses (g : Graph α) (var : String) (target : Platform) : Prop :=
  ∃ source op, g.MadeOn source var ∧ source ≠ target ∧ g.SitsOn target op ∧ g.Reads op var

/-- `k` is the plain graph `a` with switches on all boundaries. -/
structure Completed (a k : Graph α) : Prop where
  plain : a.Plain
  sound : k.Sound
  flow : SameFlow a k
  complete : k.BoundaryComplete
  distinct : k.Distinct

namespace Completed

variable (h : Completed a k)
include h

/-- An operation of `a` in `k`, where its slots lead back to what they read in `a`. -/
theorem kept {op : String} {o : Operation α} (ho : a.getOperation? op = some o) :
    ∃ o', k.getOperation? op = some o' ∧ o'.isSwitch = false ∧ o'.type = o.type ∧
      o'.platform = o.platform ∧ o'.outputs = o.outputs ∧
      List.Forall₂ (fun var var' => k.Origin var' var) o.inputs o'.inputs := by
  obtain ⟨o', ho', work⟩ := h.flow.kept op o ho (h.plain ho)
  refine ⟨o', ho', work.isSwitch.trans (h.plain ho), work.type, work.platform, work.outputs, ?_⟩
  apply work.inputs.imp
  intro var var' same
  obtain ⟨root, origin, origin'⟩ := same
  rw [h.plain.eq_of_origin origin]
  exact origin'

/-- What an operation reads in `k` leads back to what it reads in `a`. -/
theorem reads_back {q var var' : String} {target : Platform} (sits : k.SitsOn target q)
    (reads : k.Reads q var') (origin : k.Origin var' var) : a.Reads q var := by
  obtain ⟨o', ho', unswitched, -⟩ := sits
  obtain ⟨o, ho, -⟩ := h.flow.only q o' ho' unswitched
  obtain ⟨o'', ho'', -, -, -, -, inputs⟩ := h.kept ho
  obtain ⟨p, hp, hvar'⟩ := reads
  rw [ho''] at ho' hp
  cases ho'
  cases hp
  obtain ⟨root, hroot, origin'⟩ := exists_of_forall₂ inputs.flip hvar'
  cases Origin.unique h.sound.linked h.sound.ports origin origin'
  exact ⟨o, ho, hroot⟩

/-- Between different platforms stands one switch. -/
theorem via_switch {op var var' : String} {source target : Platform} (made : a.MadeOn source var)
    (sits : a.SitsOn target op) (distinct : source ≠ target) (reads : k.Reads op var')
    (origin : k.Origin var' var) : k.Via var (some (source, target)) var' := by
  have made' := h.flow.madeOn_iff.2 made
  have sits' := h.flow.sitsOn_iff.2 sits
  cases origin with
  | here =>
    obtain ⟨p, ⟨o, ho, hvar⟩, o', ho', unswitched, platform⟩ := made'
    rw [ho] at ho'
    cases ho'
    obtain ⟨q, hq, unswitched', platform'⟩ := sits'
    obtain ⟨q', hq', reads⟩ := reads
    rw [hq] at hq'
    cases hq'
    have same := h.complete.direct ho unswitched hq unswitched' hvar reads
    exact absurd (platform.symm.trans (same.trans platform')) distinct
  | back relays origin =>
    obtain ⟨o, source', target', ho, fits⟩ := h.complete.fits_of_relays relays
    have genuine := fits.made.genuine h.sound.linked
    cases origin.eq_of_genuine genuine
    cases made'.unique h.sound.linked fits.made
    cases sits'.unique (fits.readers op reads)
    exact .switch ho fits.platforms fits.input fits.output genuine

/-- On one platform, and where nothing makes the variable, no switch is between. -/
theorem via_direct {op var var' : String} {target : Platform}
    (together : ∀ {source}, a.MadeOn source var → source = target) (sits : a.SitsOn target op)
    (reads : k.Reads op var') (origin : k.Origin var' var) : k.Via var none var' := by
  cases origin with
  | here genuine => exact .direct genuine
  | back relays origin =>
    obtain ⟨o, source, target', ho, fits⟩ := h.complete.fits_of_relays relays
    cases origin.eq_of_genuine (fits.made.genuine h.sound.linked)
    have source := together (h.flow.madeOn_iff.1 fits.made)
    have target := sits.unique (h.flow.sitsOn_iff.1 (fits.readers op reads))
    exact absurd (source.trans target) fits.distinct

/-- There are switches where variables cross. -/
theorem hands_iff {var : String} {target : Platform} :
    (∃ s, k.Hands s var target) ↔ a.Crosses var target := by
  constructor
  · rintro ⟨s, o, source, ho, leads, hvar⟩
    obtain ⟨source', target', x, r, fits⟩ := h.complete.switches ho (isSwitch_of_platforms leads)
    rw [fits.platforms] at leads
    cases leads
    rw [fits.input, List.mem_singleton] at hvar
    subst hvar
    obtain ⟨q, reads⟩ := fits.read
    have sits := fits.readers q reads
    have origin : k.Origin r var :=
      .back (fits.relays ho) (.here (fits.made.genuine h.sound.linked))
    exact ⟨source, q, h.flow.madeOn_iff.1 fits.made, fits.distinct, h.flow.sitsOn_iff.1 sits,
      h.reads_back sits reads origin⟩
  · rintro ⟨source, op, made, distinct, sits, o, ho, hvar⟩
    obtain ⟨o', ho', -, -, -, -, inputs⟩ := h.kept ho
    obtain ⟨var', hvar', origin⟩ := exists_of_forall₂ inputs hvar
    have via := h.via_switch made sits distinct ⟨o', ho', hvar'⟩ origin
    cases via with
    | switch hs platforms input output genuine =>
      exact ⟨_, _, _, hs, platforms, by simp [input]⟩

omit h in
/-- Graphs completed from one have switches for the same crossings. -/
theorem switches_le (h : Completed a k) (h' : Completed a k') :
    (k.operationsOfType switchType).length ≤ (k'.operationsOfType switchType).length := by
  have linked := h.sound.linked
  have linked' := h'.sound.linked
  rw [← List.toFinset_card_of_nodup (linked.operationsOfType_nodup _),
    ← List.toFinset_card_of_nodup (linked'.operationsOfType_nodup _)]
  refine Finset.card_le_card_of_forall_subsingleton
    (fun s t => ∃ var target, k.Hands s var target ∧ k'.Hands t var target) ?_ ?_
  · intro s hs
    obtain ⟨o, ho, type⟩ := linked.mem_operationsOfType.1 (List.mem_toFinset.1 hs)
    obtain ⟨source, target, x, r, fits⟩ := h.complete.switches ho (decide_eq_true type)
    have hands : k.Hands s x target := ⟨o, source, ho, fits.platforms, by simp [fits.input]⟩
    obtain ⟨t, hands'⟩ := h'.hands_iff.2 (h.hands_iff.1 ⟨s, hands⟩)
    refine ⟨t, List.mem_toFinset.2 (linked'.mem_operationsOfType.2 ?_), x, target, hands, hands'⟩
    obtain ⟨p, _, hp, leads, -⟩ := hands'
    exact ⟨p, hp, of_decide_eq_true (isSwitch_of_platforms leads)⟩
  · rintro t - s ⟨-, var, target, first, second⟩ n ⟨-, var', target', first', second'⟩
    obtain ⟨rfl, rfl⟩ := h'.sound.ports.hands_unique second second'
    exact h.distinct first first'

end Completed

/-- An operation reads in `k` and in `k'` what it reads in `g`, through switches between the
same platforms. -/
structure ReadAlike (k k' : Graph α) (o o₁ o₂ : Operation α) : Prop where
  length₁ : o₁.inputs.length = o.inputs.length
  length₂ : o₂.inputs.length = o.inputs.length
  slots : ∀ (i : Nat) (var : String), o.inputs[i]? = some var → ∃ pair var₁ var₂,
    o₁.inputs[i]? = some var₁ ∧ o₂.inputs[i]? = some var₂ ∧
    k.Via var pair var₁ ∧ k'.Via var pair var₂

/-- `k` and `k'` have the same switches for the operations of `g`. -/
structure Alike (g k k' : Graph α) : Prop where
  operations : ∀ op o, g.getOperation? op = some o → ∃ o₁ o₂, k.getOperation? op = some o₁ ∧
    k'.getOperation? op = some o₂ ∧ o₁.platform = o₂.platform ∧ ReadAlike k k' o o₁ o₂
  switches : (k.operationsOfType switchType).length = (k'.operationsOfType switchType).length

/-- Every slot of two completions of `a` reads alike. -/
theorem Completed.readAlike (h : Completed a k) (h' : Completed a k') {op : String}
    {o o₁ o₂ : Operation α} (ho : a.getOperation? op = some o) (ho₁ : k.getOperation? op = some o₁)
    (ho₂ : k'.getOperation? op = some o₂)
    (inputs₁ : List.Forall₂ (fun var var' => k.Origin var' var) o.inputs o₁.inputs)
    (inputs₂ : List.Forall₂ (fun var var' => k'.Origin var' var) o.inputs o₂.inputs) :
    ReadAlike k k' o o₁ o₂ where
  length₁ := inputs₁.length_eq.symm
  length₂ := inputs₂.length_eq.symm
  slots i var hvar := by
    obtain ⟨var₁, hvar₁, origin₁⟩ := getElem?_of_forall₂ inputs₁ hvar
    obtain ⟨var₂, hvar₂, origin₂⟩ := getElem?_of_forall₂ inputs₂ hvar
    have reads₁ : k.Reads op var₁ := ⟨o₁, ho₁, List.mem_of_getElem? hvar₁⟩
    have reads₂ : k'.Reads op var₂ := ⟨o₂, ho₂, List.mem_of_getElem? hvar₂⟩
    have sits : a.SitsOn o.platform op := ⟨o, ho, h.plain ho, rfl⟩
    by_cases apart : ∃ source, a.MadeOn source var ∧ source ≠ o.platform
    · obtain ⟨source, made, distinct⟩ := apart
      exact ⟨some (source, o.platform), var₁, var₂, hvar₁, hvar₂,
        h.via_switch made sits distinct reads₁ origin₁,
        h'.via_switch made sits distinct reads₂ origin₂⟩
    · push Not at apart
      have together : ∀ {source}, a.MadeOn source var → source = o.platform := @apart
      exact ⟨none, var₁, var₂, hvar₁, hvar₂, h.via_direct together sits reads₁ origin₁,
        h'.via_direct together sits reads₂ origin₂⟩

theorem Completed.alike (h : Completed a k) (h' : Completed a k') : Alike a k k' where
  operations op o ho := by
    obtain ⟨o₁, ho₁, -, -, platform₁, -, inputs₁⟩ := h.kept ho
    obtain ⟨o₂, ho₂, -, -, platform₂, -, inputs₂⟩ := h'.kept ho
    exact ⟨o₁, o₂, ho₁, ho₂, platform₁.trans platform₂.symm,
      h.readAlike h' ho ho₁ ho₂ inputs₁ inputs₂⟩
  switches := Nat.le_antisymm (h.switches_le h') (h'.switches_le h)

section Assign

variable {platforms : String → Platform}

@[simp] theorem assign_assign (p q : String → Platform) :
    (g.assign p).assign q = g.assign q := by
  simp only [assign, NameMap.mapEntries_mapEntries]

theorem Origin.assign {var root : String} (origin : g.Origin var root) :
    (g.assign platforms).Origin var root := by
  induction origin with
  | here genuine => exact .here (genuine_assign.2 genuine)
  | back relays _ ih => exact .back (relays_assign.2 relays) ih

theorem SameOrigin.assign {var var' : String} (same : SameOrigin g k var var') :
    SameOrigin (g.assign platforms) (k.assign platforms) var var' := by
  obtain ⟨root, origin, origin'⟩ := same
  exact ⟨root, origin.assign, origin'.assign⟩

/-- The same platforms for both graphs leave them the same otherwise. -/
theorem SameFlow.assign (flow : SameFlow g k) (platforms : String → Platform) :
    SameFlow (g.assign platforms) (k.assign platforms) where
  kept op o ho unswitched := by
    obtain ⟨p, hp, rfl⟩ := assign_eq_some.1 ho
    obtain ⟨p', hp', work⟩ := flow.kept op p hp unswitched
    exact ⟨_, assign_eq_some.2 ⟨p', hp', rfl⟩, work.type, work.attributes, rfl, work.outputs,
      work.inputs.imp fun _ _ same => same.assign⟩
  only op o' ho' unswitched := by
    obtain ⟨p', hp', rfl⟩ := assign_eq_some.1 ho'
    obtain ⟨p, hp, unswitched'⟩ := flow.only op p' hp' unswitched
    exact ⟨_, assign_eq_some.2 ⟨p, hp, rfl⟩, unswitched'⟩
  outputs := flow.outputs
  output_origins var hvar := (flow.output_origins var hvar).assign

theorem Alike.of_assign (h : Alike (g.assign platforms) k k') : Alike g k k' where
  operations op o ho := by
    obtain ⟨o₁, o₂, ho₁, ho₂, platform, alike⟩ := h.operations op _ (assign_eq_some.2 ⟨o, ho, rfl⟩)
    exact ⟨o₁, o₂, ho₁, ho₂, platform, alike.length₁, alike.length₂, alike.slots⟩
  switches := h.switches

end Assign

/-- What the graph returns, it returned before there were switches. -/
theorem Completed.sheltered (h : Completed a k) : k.Sheltered := by
  intro s o ho switch
  rintro ⟨r, hr, returned⟩
  rw [h.flow.outputs] at returned
  obtain ⟨root, origin, origin'⟩ := h.flow.output_origins r returned
  rw [h.plain.eq_of_origin origin] at hr
  rw [origin'.genuine s o ho hr] at switch
  cases switch

end Graph

namespace Dispatch

open GraphDispatch.Graph

variable {h : Graph α}

/-- Inserting switches completes a graph that has none. -/
theorem Reswitched.completed (way : Reswitched a h k) (plain : a.Plain) (sound : a.Sound) :
    Completed a k := by
  obtain ⟨sound', flow, complete⟩ := way.spec sound
  have flat : a.Flat := fun _ _ _ relays => absurd relays plain.not_relays
  have distinct : a.Distinct := fun _ _ _ _ hands => absurd hands plain.not_hands
  exact ⟨plain, sound', flow, complete plain.sheltered,
    way.distinct flat plain.sheltered distinct⟩

/-- Inserting switches anew, for other platforms, completes the graph for these. -/
theorem Reswitched.recompleted {platforms : String → Platform}
    (way : Reswitched (k.assign platforms) h k') (done : Completed a k) :
    Completed (a.assign platforms) k' := by
  have sound := done.sound.assign platforms
  have sheltered := done.sheltered.assign platforms
  have flat := (done.complete.flat done.sound.linked).assign platforms
  obtain ⟨sound', flow, complete⟩ := way.spec sound
  exact ⟨done.plain.assign platforms, sound', (done.flow.assign platforms).trans sound flow,
    complete sheltered, way.distinct flat sheltered (done.distinct.assign platforms)⟩

end Dispatch

end GraphDispatch
