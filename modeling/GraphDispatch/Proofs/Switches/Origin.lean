import GraphDispatch.Graph.Switch
import GraphDispatch.Proofs.Acyclic
import GraphDispatch.Proofs.Lists

/-!
# Where variables come from

Switches hand a variable on under another name. Going back through them leads to the
variable that holds the numbers, its origin.
-/

namespace GraphDispatch

variable {α : Type} {g g' h : Graph α}

namespace Graph

/-- Every switch has one input and one output. -/
def SinglePorts (g : Graph α) : Prop :=
  ∀ op o, g.getOperation? op = some o → o.isSwitch = true →
    ∃ x r, o.inputs = [x] ∧ o.outputs = [r]

theorem singlePorts_iff : g.SinglePorts ↔ ∀ e ∈ g.operations.entries, e.2.isSwitch = true →
    e.2.inputs.length = 1 ∧ e.2.outputs.length = 1 := by
  have single : ∀ l m : List String, (∃ x r, l = [x] ∧ m = [r]) ↔ l.length = 1 ∧ m.length = 1 := by
    intro l m
    rw [List.length_eq_one_iff, List.length_eq_one_iff]
    simp
  unfold SinglePorts
  simp only [single]
  exact NameMap.forall_get?_iff

instance : Decidable g.SinglePorts := decidable_of_iff _ singlePorts_iff.symm

/-- The switch `s` reads `x` and produces `r`. -/
def Relays (g : Graph α) (s x r : String) : Prop :=
  ∃ o, g.getOperation? s = some o ∧ o.isSwitch = true ∧ x ∈ o.inputs ∧ r ∈ o.outputs

/-- No switch produces the variable. -/
def Genuine (g : Graph α) (var : String) : Prop :=
  ∀ op o, g.getOperation? op = some o → var ∈ o.outputs → o.isSwitch = false

/-- Going back from a variable through switches leads to `root`. -/
inductive Origin (g : Graph α) : String → String → Prop where
  | here {var} : g.Genuine var → Origin g var var
  | back {s x var root} : g.Relays s x var → Origin g x root → Origin g var root

theorem Relays.produces {s x r : String} (hr : g.Relays s x r) : g.Produces s r := by
  obtain ⟨o, ho, -, -, hr⟩ := hr
  exact ⟨o, ho, hr⟩

theorem Relays.reads {s x r : String} (hr : g.Relays s x r) : g.Reads s x := by
  obtain ⟨o, ho, -, hx, -⟩ := hr
  exact ⟨o, ho, hx⟩

theorem Relays.not_genuine {s x r : String} (hr : g.Relays s x r) : ¬g.Genuine r := by
  obtain ⟨o, ho, switch, -, hr⟩ := hr
  intro genuine
  rw [genuine s o ho hr] at switch
  cases switch

theorem Origin.genuine {var root : String} (ho : g.Origin var root) : g.Genuine root := by
  induction ho with
  | here genuine => exact genuine
  | back _ _ ih => exact ih

theorem Origin.eq_of_genuine {var root : String} (ho : g.Origin var root) (hv : g.Genuine var) :
    var = root := by
  cases ho with
  | here => rfl
  | back relays _ => exact absurd hv relays.not_genuine

/-- A relay has one source. -/
theorem SinglePorts.relays_unique (ports : g.SinglePorts) (hg : g.Linked) {s t x y r : String}
    (hx : g.Relays s x r) (hy : g.Relays t y r) : s = t ∧ x = y := by
  have same := hg.produces_unique hx.produces hy.produces
  subst same
  obtain ⟨o, ho, switch, hxo, -⟩ := hx
  obtain ⟨o', ho', -, hyo, -⟩ := hy
  cases ho.symm.trans ho'
  obtain ⟨z, _, inputs, -⟩ := ports s o ho switch
  rw [inputs, List.mem_singleton] at hxo hyo
  exact ⟨rfl, hxo.trans hyo.symm⟩

theorem Origin.unique (hg : g.Linked) (ports : g.SinglePorts) {var a b : String}
    (ha : g.Origin var a) (hb : g.Origin var b) : a = b := by
  induction ha with
  | here genuine => exact hb.eq_of_genuine genuine
  | back relays _ ih =>
    cases hb with
    | here genuine => exact absurd genuine relays.not_genuine
    | back relays' hb =>
      obtain ⟨-, rfl⟩ := ports.relays_unique hg relays relays'
      exact ih hb

theorem SinglePorts.genuine_or_relays (ports : g.SinglePorts) (var : String) :
    g.Genuine var ∨ ∃ s x, g.Relays s x var := by
  by_cases h : g.Genuine var
  · exact Or.inl h
  · right
    unfold Genuine at h
    push Not at h
    obtain ⟨s, o, ho, hvar, switch⟩ := h
    have switch : o.isSwitch = true := by simpa using switch
    obtain ⟨x, r, inputs, outputs⟩ := ports s o ho switch
    exact ⟨s, x, o, ho, switch, by simp [inputs], hvar⟩

/-- Without cycles, going back comes to an end. -/
theorem SinglePorts.exists_origin (ports : g.SinglePorts) (hg : g.Linked) (acyclic : g.Acyclic)
    (var : String) : ∃ root, g.Origin var root := by
  obtain ⟨rank, ranked⟩ := hg.acyclic_iff_ranked.1 acyclic
  -- the induction is on the rank of the switch that produces the variable
  have descend : ∀ n s x r, g.Relays s x r → rank s = n → ∃ root, g.Origin r root := by
    intro n
    induction n using Nat.strong_induction_on with
    | _ n ih =>
      intro s x r relays hs
      rcases ports.genuine_or_relays x with genuine | ⟨t, y, upstream⟩
      · exact ⟨x, .back relays (.here genuine)⟩
      · have below := ranked t s (hg.feeds_iff.2 ⟨x, upstream.produces, relays.reads⟩)
        obtain ⟨root, origin⟩ := ih (rank t) (hs ▸ below) t y x upstream rfl
        exact ⟨root, .back relays origin⟩
  rcases ports.genuine_or_relays var with genuine | ⟨s, x, relays⟩
  · exact ⟨var, .here genuine⟩
  · exact descend _ s x var relays rfl

/-- A graph on which switches can be exchanged. -/
structure Sound (g : Graph α) : Prop where
  linked : g.Linked
  acyclic : g.Acyclic
  ports : g.SinglePorts

theorem Sound.exists_origin (hg : g.Sound) (var : String) : ∃ root, g.Origin var root :=
  hg.ports.exists_origin hg.linked hg.acyclic var

theorem Sound.relay_ne (hg : g.Sound) {s x r : String} (relays : g.Relays s x r) : x ≠ r := by
  rintro rfl
  exact hg.acyclic.not_reads hg.linked relays.produces relays.reads

/-- `var` in `g` and `var'` in `g'` come from one variable. -/
def SameOrigin (g g' : Graph α) (var var' : String) : Prop :=
  ∃ root, g.Origin var root ∧ g'.Origin var' root

theorem SameOrigin.trans (hg' : g'.Sound) {a b c : String} (hab : SameOrigin g g' a b)
    (hbc : SameOrigin g' h b c) : SameOrigin g h a c := by
  obtain ⟨root, ha, hb⟩ := hab
  obtain ⟨root', hb', hc⟩ := hbc
  cases Origin.unique hg'.linked hg'.ports hb hb'
  exact ⟨root, ha, hc⟩

/-- `o'` computes in `g'` what `o` computes in `g`. -/
structure SameWork (g g' : Graph α) (o o' : Operation α) : Prop where
  type : o'.type = o.type
  attributes : o'.attributes = o.attributes
  platform : o'.platform = o.platform
  outputs : o'.outputs = o.outputs
  inputs : List.Forall₂ (SameOrigin g g') o.inputs o'.inputs

/-- The graphs differ in their switches only. -/
structure SameFlow (g g' : Graph α) : Prop where
  kept : ∀ op o, g.getOperation? op = some o → o.isSwitch = false →
    ∃ o', g'.getOperation? op = some o' ∧ SameWork g g' o o'
  only : ∀ op o', g'.getOperation? op = some o' → o'.isSwitch = false →
    ∃ o, g.getOperation? op = some o ∧ o.isSwitch = false
  outputs : g'.outputs = g.outputs
  output_origins : ∀ var ∈ g.outputs, SameOrigin g g' var var

theorem SameWork.isSwitch {o o' : Operation α} (work : SameWork g g' o o') :
    o'.isSwitch = o.isSwitch := by
  rw [Operation.isSwitch, Operation.isSwitch, work.type]

theorem SameWork.trans (hg' : g'.Sound) {o o' o'' : Operation α} (first : SameWork g g' o o')
    (second : SameWork g' h o' o'') : SameWork g h o o'' where
  type := second.type.trans first.type
  attributes := second.attributes.trans first.attributes
  platform := second.platform.trans first.platform
  outputs := second.outputs.trans first.outputs
  inputs := by
    have compose : ∀ {l m n : List String}, List.Forall₂ (SameOrigin g g') l m →
        List.Forall₂ (SameOrigin g' h) m n → List.Forall₂ (SameOrigin g h) l n := by
      intro l m n hlm hmn
      induction hlm generalizing n with
      | nil => cases hmn; exact .nil
      | cons hab _ ih =>
        cases hmn with
        | cons hbc rest => exact .cons (hab.trans hg' hbc) (ih rest)
    exact compose first.inputs second.inputs

theorem SameFlow.trans (hg' : g'.Sound) (first : SameFlow g g') (second : SameFlow g' h) :
    SameFlow g h where
  kept op o ho switch := by
    obtain ⟨o', ho', work⟩ := first.kept op o ho switch
    obtain ⟨o'', ho'', work'⟩ := second.kept op o' ho' (work.isSwitch.trans switch)
    exact ⟨o'', ho'', work.trans hg' work'⟩
  only op o'' ho'' switch := by
    obtain ⟨o', ho', switch'⟩ := second.only op o'' ho'' switch
    exact first.only op o' ho' switch'
  outputs := second.outputs.trans first.outputs
  output_origins var hvar := by
    have hvar' : var ∈ g'.outputs := first.outputs ▸ hvar
    exact (first.output_origins var hvar).trans hg' (second.output_origins var hvar')

theorem SameFlow.refl (hg : g.Sound) : SameFlow g g where
  kept op o ho _ := by
    refine ⟨o, ho, rfl, rfl, rfl, rfl, ?_⟩
    apply List.forall₂_same.2
    intro var _
    obtain ⟨root, origin⟩ := hg.exists_origin var
    exact ⟨root, origin, origin⟩
  only op o ho switch := ⟨o, ho, switch⟩
  outputs := rfl
  output_origins var _ := by
    obtain ⟨root, origin⟩ := hg.exists_origin var
    exact ⟨root, origin, origin⟩

end Graph

end GraphDispatch
