import GraphDispatch.Dispatch.Crossing
import GraphDispatch.Proofs.Switches.Origin

/-!
# Fitting switches

What the tests of `Dispatch` decide: where operations sit, where variables are made,
and which switches fit between them.
-/

namespace GraphDispatch.Graph

variable {α : Type} {g : Graph α} {o : Operation α} {source target : Platform} {x r : String}

/-- `op` is no switch and sits on the platform. -/
def SitsOn (g : Graph α) (platform : Platform) (op : String) : Prop :=
  ∃ o, g.getOperation? op = some o ∧ o.isSwitch = false ∧ o.platform = platform

/-- An operation that is no switch makes the variable on the platform. -/
def MadeOn (g : Graph α) (platform : Platform) (var : String) : Prop :=
  ∃ op, g.Produces op var ∧ g.SitsOn platform op

/-- `o` is a switch from `x` to `r`, which are on its two platforms. -/
structure Fits (g : Graph α) (o : Operation α) (source target : Platform) (x r : String) :
    Prop where
  platforms : o.switchPlatforms? = some (source, target)
  distinct : source ≠ target
  input : o.inputs = [x]
  output : o.outputs = [r]
  made : g.MadeOn source x
  read : ∃ q, g.Reads q r
  readers : ∀ q, g.Reads q r → g.SitsOn target q

/-- An output of `o` is an output of the graph. -/
def Exposed (g : Graph α) (o : Operation α) : Prop := ∃ r ∈ o.outputs, r ∈ g.outputs

theorem sitsOn_iff {platform : Platform} {op : String} :
    Dispatch.sitsOn g platform op = true ↔ g.SitsOn platform op := by
  unfold Dispatch.sitsOn SitsOn
  cases g.getOperation? op <;> simp

theorem isExposed_iff : Dispatch.isExposed g o = true ↔ g.Exposed o := by
  unfold Dispatch.isExposed Exposed
  simp

theorem SitsOn.unique {p q : Platform} {op : String} (hp : g.SitsOn p op) (hq : g.SitsOn q op) :
    p = q := by
  obtain ⟨o, ho, -, rfl⟩ := hp
  obtain ⟨o', ho', -, rfl⟩ := hq
  rw [ho] at ho'
  cases ho'
  rfl

theorem SitsOn.known {platform : Platform} {op : String} (sits : g.SitsOn platform op) :
    op ∈ g.operations := by
  obtain ⟨o, ho, -⟩ := sits
  exact mem_operations_iff.2 ⟨o, ho⟩

theorem SitsOn.ne_switch {platform : Platform} {q s : String} (sits : g.SitsOn platform q)
    (ho : g.getOperation? s = some o) (switch : o.isSwitch = true) : q ≠ s := by
  rintro rfl
  obtain ⟨p, hp, unswitched, -⟩ := sits
  cases hp.symm.trans ho
  simp [switch] at unswitched

theorem MadeOn.genuine (hg : g.Linked) (made : g.MadeOn source x) : g.Genuine x := by
  obtain ⟨op, produces, o, ho, switch, -⟩ := made
  intro p o' ho' hx
  cases hg.produces_unique produces ⟨o', ho', hx⟩
  rw [ho] at ho'
  cases ho'
  exact switch

theorem MadeOn.ne_relay (hg : g.Linked) (made : g.MadeOn source x) {s : String}
    (ho : g.getOperation? s = some o) (switch : o.isSwitch = true) (hr : r ∈ o.outputs) : x ≠ r := by
  rintro rfl
  simp [made.genuine hg s o ho hr] at switch

theorem MadeOn.unique (hg : g.Linked) {p q : Platform} (hp : g.MadeOn p x) (hq : g.MadeOn q x) :
    p = q := by
  obtain ⟨op, produces, sits⟩ := hp
  obtain ⟨op', produces', sits'⟩ := hq
  cases hg.produces_unique produces produces'
  exact sits.unique sits'

/-- Both graphs have the same operations that are no switches, on the same platforms and with
the same outputs. -/
structure SameSeats (g g' : Graph α) : Prop where
  kept : ∀ op o, g.getOperation? op = some o → o.isSwitch = false →
    ∃ o', g'.getOperation? op = some o' ∧ o'.isSwitch = false ∧ o'.platform = o.platform ∧
      o'.outputs = o.outputs
  only : ∀ op o', g'.getOperation? op = some o' → o'.isSwitch = false →
    ∃ o, g.getOperation? op = some o ∧ o.isSwitch = false

namespace SameSeats

variable {g' : Graph α} (seats : SameSeats g g') {platform : Platform}
include seats

theorem sitsOn_iff {op : String} : g'.SitsOn platform op ↔ g.SitsOn platform op := by
  constructor
  · rintro ⟨p, hp, unswitched, rfl⟩
    obtain ⟨o, ho, unswitched'⟩ := seats.only op p hp unswitched
    obtain ⟨p', hp', -, same, -⟩ := seats.kept op o ho unswitched'
    cases hp.symm.trans hp'
    exact ⟨o, ho, unswitched', same.symm⟩
  · rintro ⟨o, ho, unswitched, rfl⟩
    obtain ⟨p, hp, unswitched', same, -⟩ := seats.kept op o ho unswitched
    exact ⟨p, hp, unswitched', same⟩

theorem madeOn_iff {var : String} : g'.MadeOn platform var ↔ g.MadeOn platform var := by
  apply exists_congr
  intro op
  rw [seats.sitsOn_iff]
  apply and_congr_left
  intro sits
  obtain ⟨o, ho, unswitched, -⟩ := sits
  obtain ⟨p, hp, -, -, same⟩ := seats.kept op o ho unswitched
  simp [Produces, ho, hp, same]

end SameSeats

section Flow

variable {g' : Graph α} (flow : SameFlow g g') {platform : Platform}
include flow

theorem SameFlow.seats : SameSeats g g' where
  kept op o ho unswitched := by
    obtain ⟨p, hp, work⟩ := flow.kept op o ho unswitched
    exact ⟨p, hp, work.isSwitch.trans unswitched, work.platform, work.outputs⟩
  only := flow.only

theorem SameFlow.sitsOn_iff {op : String} : g'.SitsOn platform op ↔ g.SitsOn platform op :=
  flow.seats.sitsOn_iff

theorem SameFlow.madeOn_iff {var : String} : g'.MadeOn platform var ↔ g.MadeOn platform var :=
  flow.seats.madeOn_iff

end Flow

theorem isSwitch_of_platforms (h : o.switchPlatforms? = some (source, target)) :
    o.isSwitch = true := by
  unfold Operation.switchPlatforms? at h
  split at h
  · assumption
  · cases h

theorem Fits.isSwitch (fits : g.Fits o source target x r) : o.isSwitch = true :=
  isSwitch_of_platforms fits.platforms

theorem Fits.relays (fits : g.Fits o source target x r) {s : String}
    (ho : g.getOperation? s = some o) : g.Relays s x r :=
  ⟨o, ho, fits.isSwitch, by simp [fits.input], by simp [fits.output]⟩

/-- What produces the first input of a switch. -/
theorem feeder?_eq_some (hg : g.Linked) (input : o.inputs.head? = some x) {p : Operation α} :
    Dispatch.feeder? g o = some p ↔ ∃ op, g.getOperation? op = some p ∧ x ∈ p.outputs := by
  unfold Dispatch.feeder?
  rw [input, Option.bind_some, Option.bind_eq_some_iff]
  constructor
  · rintro ⟨op, produces, hp⟩
    obtain ⟨p', hp', hx⟩ := hg.producer?_eq_some.1 produces
    rw [hp] at hp'
    cases hp'
    exact ⟨op, hp, hx⟩
  · rintro ⟨op, hp, hx⟩
    exact ⟨op, hg.producer?_eq_some.2 ⟨p, hp, hx⟩, hp⟩

theorem mem_receivers (hg : g.Linked) (output : o.outputs.head? = some r) (known : r ∈ g.vars)
    {q : String} : q ∈ Dispatch.receivers g o ↔ g.Reads q r := by
  obtain ⟨v, hv⟩ := mem_vars_iff.1 known
  unfold Dispatch.receivers
  rw [output, Option.bind_some, hv, Option.map_some, Option.getD_some]
  exact hg.mem_consumerNames hv

/-- `o` is a switch whose first input `x` and first output `r` are on its two platforms. It
may have more of both. -/
structure Bridges (g : Graph α) (o : Operation α) (source target : Platform) (x r : String) :
    Prop where
  platforms : o.switchPlatforms? = some (source, target)
  distinct : source ≠ target
  input : o.inputs.head? = some x
  output : o.outputs.head? = some r
  made : g.MadeOn source x
  read : ∃ q, g.Reads q r
  readers : ∀ q, g.Reads q r → g.SitsOn target q

theorem Bridges.isSwitch (bridges : g.Bridges o source target x r) : o.isSwitch = true :=
  isSwitch_of_platforms bridges.platforms

theorem Fits.bridges (fits : g.Fits o source target x r) : g.Bridges o source target x r :=
  ⟨fits.platforms, fits.distinct, by simp [fits.input], by simp [fits.output], fits.made,
    fits.read, fits.readers⟩

theorem Bridges.fits {y t : String} (bridges : g.Bridges o source target y t)
    (input : o.inputs = [x]) (output : o.outputs = [r]) : g.Fits o source target x r := by
  obtain rfl : x = y := by simpa [input] using bridges.input
  obtain rfl : r = t := by simpa [output] using bridges.output
  exact ⟨bridges.platforms, bridges.distinct, input, output, bridges.made, bridges.read,
    bridges.readers⟩

theorem isFitting_iff_bridges (hg : g.Linked) {s : String} (ho : g.getOperation? s = some o) :
    Dispatch.isFitting g o = true ↔ ∃ source target x r, g.Bridges o source target x r := by
  have known : ∀ r, o.outputs.head? = some r → r ∈ g.vars :=
    fun r output => hg.output_known ho (List.mem_of_head? output)
  unfold Dispatch.isFitting
  constructor
  · intro h
    split at h
    · rename_i source target feeder platforms fed
      simp only [Bool.and_eq_true, decide_eq_true_eq, Bool.not_eq_true',
        List.isEmpty_eq_false_iff_exists_mem, List.all_eq_true] at h
      obtain ⟨⟨⟨⟨distinct, switch⟩, platform⟩, q, hq⟩, all⟩ := h
      obtain ⟨x, input⟩ : ∃ x, o.inputs.head? = some x := by
        cases input : o.inputs.head? with
        | some x => exact ⟨x, rfl⟩
        | none => simp [Dispatch.feeder?, input] at fed
      obtain ⟨r, output⟩ : ∃ r, o.outputs.head? = some r := by
        cases output : o.outputs.head? with
        | some r => exact ⟨r, rfl⟩
        | none => simp [Dispatch.receivers, output] at hq
      have receivers := fun q => mem_receivers hg output (known r output) (q := q)
      obtain ⟨op, hop, hx⟩ := (feeder?_eq_some hg input).1 fed
      refine ⟨source, target, x, r, platforms, distinct, input, output,
        ⟨op, ⟨feeder, hop, hx⟩, feeder, hop, switch, platform⟩, ⟨q, (receivers q).1 hq⟩, ?_⟩
      intro q hq
      exact sitsOn_iff.1 (all q ((receivers q).2 hq))
    · cases h
  · rintro ⟨source, target, x, r, bridges⟩
    obtain ⟨op, ⟨p, hp, hx⟩, p', hp', switch, platform⟩ := bridges.made
    rw [hp] at hp'
    cases hp'
    have receivers := fun q => mem_receivers hg bridges.output (known r bridges.output) (q := q)
    rw [bridges.platforms, (feeder?_eq_some hg bridges.input).2 ⟨op, hp, hx⟩]
    simp only [Bool.and_eq_true, decide_eq_true_eq, Bool.not_eq_true',
      List.isEmpty_eq_false_iff_exists_mem, List.all_eq_true]
    obtain ⟨q, hq⟩ := bridges.read
    refine ⟨⟨⟨⟨bridges.distinct, switch⟩, platform⟩, q, (receivers q).2 hq⟩, fun q hq => ?_⟩
    exact sitsOn_iff.2 (bridges.readers q ((receivers q).1 hq))

/-- Of a switch with one input and one output nothing else is asked. -/
theorem isFitting_iff (hg : g.Linked) {s : String} (ho : g.getOperation? s = some o)
    (input : o.inputs = [x]) (output : o.outputs = [r]) :
    Dispatch.isFitting g o = true ↔ ∃ source target, g.Fits o source target x r := by
  rw [isFitting_iff_bridges hg ho]
  constructor
  · rintro ⟨source, target, y, t, bridges⟩
    exact ⟨source, target, bridges.fits input output⟩
  · rintro ⟨source, target, fits⟩
    exact ⟨source, target, x, r, fits.bridges⟩

/-- A switch that stays: the graph returns its relay, or it fits. -/
def Settled (g : Graph α) (o : Operation α) : Prop :=
  g.Exposed o ∨ ∃ source target x r, g.Fits o source target x r

end GraphDispatch.Graph
