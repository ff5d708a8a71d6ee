import GraphDispatch.Proofs.Links.Built
import GraphDispatch.Proofs.Switches.Completed
import GraphDispatch.Proofs.Switches.Extended

/-!
# What new switches bring

Relaying crossings declares relays and nothing else. A completed graph therefore extends the
graph that it was made from.
-/

namespace GraphDispatch.Graph

variable {α : Type} {g k k' : Graph α} {c : Dispatch.Crossing} {s r : String}

/-- `k` has the variables of `g`, unchanged, and activations beside. -/
structure Grown (g k : Graph α) : Prop where
  inputs : k.inputs = g.inputs
  declared : ∀ var ∈ g.vars, k.content.declarations.get? var = g.content.declarations.get? var
  genuine : ∀ var ∈ g.vars, g.Genuine var → k.Genuine var
  activations : ∀ var d, k.content.declarations.get? var = some d → var ∉ g.vars →
    d.isParameter = false

theorem Grown.refl (g : Graph α) : Grown g g where
  inputs := rfl
  declared _ _ := rfl
  genuine _ _ genuine := genuine
  activations _ _ hd unknown := absurd (mem_declarations.1 (NameMap.mem_of_get? hd)) unknown

theorem Grown.known (h : Grown g k) {var : String} (known : var ∈ g.vars) : var ∈ k.vars := by
  obtain ⟨d, hd⟩ := NameMap.mem_iff.1 (mem_declarations.2 known)
  rw [← h.declared var known] at hd
  exact mem_declarations.1 (NameMap.mem_of_get? hd)

theorem Grown.trans (first : Grown g k) (second : Grown k k') : Grown g k' where
  inputs := second.inputs.trans first.inputs
  declared var known :=
    (second.declared var (first.known known)).trans (first.declared var known)
  genuine var known genuine := second.genuine var (first.known known) (first.genuine var known genuine)
  activations var d hd unknown := by
    by_cases known : var ∈ k.vars
    · rw [second.declared var known] at hd
      exact first.activations var d hd unknown
    · exact second.activations var d hd known

theorem Relayed.grown (h : Relayed g k c s r) : Grown g k where
  inputs := h.inputs
  declared := h.declared
  genuine _ known genuine := h.genuine genuine known
  activations := h.relays_activations

theorem RelayedAll.grown {l : List Dispatch.Crossing} (h : RelayedAll l g k) : Grown g k := by
  induction h with
  | nil => exact .refl _
  | cons relayed _ ih => exact relayed.grown.trans ih

theorem carries_eq (g : Graph α) (var : String) :
    g.carries var = (g.content.declarations.get? var).any (!·.isParameter) := by
  rw [get?_declarations, carries]
  cases g.getVariable? var <;> rfl

theorem Live.carries (hg : g.Live) {op var : String} (produces : g.Produces op var) :
    g.carries var = true := by
  obtain ⟨d, hd⟩ := NameMap.mem_iff.1 (mem_declarations.2 (hg.linked.produces_known produces))
  obtain ⟨o, ho, hvar⟩ := produces
  rw [carries_eq, hd, Option.any_some, hg.active ho hvar hd]
  rfl

/-- A graph completed from a plain one extends it, whatever its platforms. -/
theorem Completed.extended {platforms : String → Platform} (live : g.Live) (plain : g.Plain)
    (done : Completed (g.assign platforms) k) (grown : Grown (g.assign platforms) k) :
    Extended g k where
  base := live.linked
  linked := done.sound.linked
  ports := done.sound.ports
  unswitched _ _ ho := plain ho
  kept op o ho := by
    obtain ⟨o', ho', -, type, -, outputs, inputs⟩ := done.kept (assign_eq_some.2 ⟨o, ho, rfl⟩)
    exact ⟨o', ho', type, outputs, inputs⟩
  only op o' ho' unswitched := by
    obtain ⟨o, ho, -⟩ := done.flow.only op o' ho' unswitched
    obtain ⟨p, hp, -⟩ := assign_eq_some.1 ho
    exact mem_operations_iff.2 ⟨p, hp⟩
  inputs := grown.inputs
  genuine var known := grown.genuine var known (done.plain.genuine var)
  carries var known := by
    rw [carries_eq, carries_eq, grown.declared var known]
    rfl
  relayed s x r relays := by
    obtain ⟨o, source, target, ho, fits⟩ := done.complete.fits_of_relays relays
    obtain ⟨op, ⟨p, hp, hx⟩, -⟩ := done.flow.madeOn_iff.1 fits.made
    obtain ⟨q, hq, rfl⟩ := assign_eq_some.1 hp
    have produces : g.Produces op x := ⟨q, hq, hx⟩
    have known := live.linked.produces_known produces
    have fresh : r ∉ g.vars := fun known =>
      relays.not_genuine (grown.genuine r known (done.plain.genuine r))
    have declared := done.sound.linked.produces_known relays.produces
    obtain ⟨d, hd⟩ := NameMap.mem_iff.1 (mem_declarations.2 declared)
    refine ⟨known, ?_, ?_⟩
    · rw [carries_eq, grown.declared x known, ← carries_eq]
      exact live.carries produces
    · rw [carries_eq, hd, Option.any_some, grown.activations r d hd fresh]
      rfl
  read s x r relays q o ho hr := by
    obtain ⟨o', source, target, -, fits⟩ := done.complete.fits_of_relays relays
    obtain ⟨p, hp, unswitched, -⟩ := fits.readers q ⟨o, ho, hr⟩
    rw [ho] at hp
    cases hp
    exact unswitched

end GraphDispatch.Graph

namespace GraphDispatch.Dispatch

open GraphDispatch.Graph

/-- From a plain graph no switch is removed. -/
theorem Reswitched.grown {α : Type} {a h k : Graph α} (way : Reswitched a h k) (plain : a.Plain) :
    Grown a k := by
  have same : h = a := by
    refine way.thinned.keeps (P := fun k => k = a) (fun spliced e => ?_) rfl
    subst e
    exact absurd spliced.relays plain.not_relays
  rw [← same]
  exact way.relayed.grown

end GraphDispatch.Dispatch
