import GraphDispatch.Proofs.Switches.Boundary

/-!
# One switch for each variable and platform

Where no switch reads a relay and no variable is handed to a platform twice, inserting
switches keeps it so: a crossing gets a new switch only if there is none to join.
-/

namespace GraphDispatch

variable {α : Type} {g g' : Graph α} {c d : Dispatch.Crossing} {s x r : String}

namespace Graph

/-- The switch `s` hands `var` to the platform. -/
def Hands (g : Graph α) (s var : String) (target : Platform) : Prop :=
  ∃ o source, g.getOperation? s = some o ∧ o.switchPlatforms? = some (source, target) ∧
    var ∈ o.inputs

/-- No variable is handed to a platform twice. -/
def Distinct (g : Graph α) : Prop :=
  ∀ ⦃s t var target⦄, g.Hands s var target → g.Hands t var target → s = t

/-- No switch reads a relay. -/
def Flat (g : Graph α) : Prop := ∀ ⦃s x r⦄, g.Relays s x r → g.Genuine x

/-- A crossing without a relay has no switch to join. -/
def Lone (g : Graph α) (c : Dispatch.Crossing) : Prop :=
  c.relay = none → ∀ s, ¬g.Hands s c.var c.target

section Assign

variable {platforms : String → Platform}

theorem genuine_assign {var : String} : (g.assign platforms).Genuine var ↔ g.Genuine var := by
  constructor
  · intro genuine op o ho hvar
    exact genuine op { o with platform := platforms op } (assign_eq_some.2 ⟨o, ho, rfl⟩) hvar
  · intro genuine op o ho hvar
    obtain ⟨p, hp, rfl⟩ := assign_eq_some.1 ho
    exact genuine op p hp hvar

theorem relays_assign : (g.assign platforms).Relays s x r ↔ g.Relays s x r := by
  constructor
  · rintro ⟨o, ho, switch, hx, hr⟩
    obtain ⟨p, hp, rfl⟩ := assign_eq_some.1 ho
    exact ⟨p, hp, switch, hx, hr⟩
  · rintro ⟨o, ho, switch, hx, hr⟩
    exact ⟨_, assign_eq_some.2 ⟨o, ho, rfl⟩, switch, hx, hr⟩

theorem hands_of_assign {var : String} {target : Platform}
    (hands : (g.assign platforms).Hands s var target) : g.Hands s var target := by
  obtain ⟨o, source, ho, leads, hvar⟩ := hands
  obtain ⟨p, hp, rfl⟩ := assign_eq_some.1 ho
  exact ⟨p, source, hp, leads, hvar⟩

theorem Flat.assign (flat : g.Flat) (platforms : String → Platform) :
    (g.assign platforms).Flat :=
  fun _ _ _ relays => genuine_assign.2 (flat (relays_assign.1 relays))

theorem Distinct.assign (distinct : g.Distinct) (platforms : String → Platform) :
    (g.assign platforms).Distinct :=
  fun _ _ _ _ first second => distinct (hands_of_assign first) (hands_of_assign second)

end Assign

namespace Spliced

variable (h : Spliced g g' s x r) (flat : g.Flat)
include h flat

/-- Other switches do not read the relay that goes. -/
theorem of_switch {n : String} {p : Operation α} (hp : g'.getOperation? n = some p)
    (switch : p.isSwitch = true) : g.getOperation? n = some p := by
  obtain ⟨-, q, hq, rfl⟩ := h.getOperation?_eq_some.1 hp
  obtain ⟨y, t, -, output⟩ := h.before.ports n q hq switch
  have unread : r ∉ q.inputs := by
    intro reads
    have relays : g.Relays n r t := ⟨q, hq, switch, reads, by simp [output]⟩
    exact h.relays.not_genuine (flat relays)
  rw [Operation.redirect_of_not_mem unread]
  exact hq

theorem keeps_flat : g'.Flat := by
  rintro n y t ⟨p, hp, switch, hy, ht⟩
  exact h.genuine (flat ⟨p, h.of_switch flat hp switch, switch, hy, ht⟩)

theorem distinct (distinct : g.Distinct) : g'.Distinct := by
  have hands : ∀ {n var target}, g'.Hands n var target → g.Hands n var target := by
    rintro n var target ⟨o, source, ho, leads, hvar⟩
    exact ⟨o, source, h.of_switch flat ho (isSwitch_of_platforms leads), leads, hvar⟩
  intro n m var target first second
  exact distinct (hands first) (hands second)

end Spliced

namespace Relayed

variable (h : Relayed g g' c s r)
include h

/-- The switch of the crossing is all that hands something on beside what did before. -/
theorem hands {n var : String} {target : Platform} (hands : g'.Hands n var target) :
    g.Hands n var target ∨ n = s ∧ s ∉ g.operations ∧ var = c.var ∧ target = c.target := by
  obtain ⟨p, source, hp, leads, hvar⟩ := hands
  by_cases hn : n = s
  · subst hn
    rcases h.origin with ⟨o, ho, same, -⟩ | ⟨unknown, -⟩
    · rw [hp] at same
      cases same
      exact Or.inl ⟨p, source, ho, leads, hvar⟩
    · right
      obtain ⟨o, ho, leads', input, -⟩ := h.switch
      rw [hp] at ho
      cases ho
      rw [leads] at leads'
      cases leads'
      rw [input, List.mem_singleton] at hvar
      exact ⟨rfl, unknown, hvar, rfl⟩
  · exact Or.inl ⟨p, source, h.of_switch hn hp (isSwitch_of_platforms leads), leads, hvar⟩

theorem distinct (lone : g.Lone c) (distinct : g.Distinct) : g'.Distinct := by
  intro n m var target first second
  rcases h.hands first with first | ⟨rfl, unknown, rfl, rfl⟩
  · rcases h.hands second with second | ⟨rfl, unknown, rfl, rfl⟩
    · exact distinct first second
    · exact absurd first (lone (h.unrelayed unknown) n)
  · rcases h.hands second with second | ⟨rfl, -⟩
    · exact absurd second (lone (h.unrelayed unknown) m)
    · rfl

theorem lone (lone : g.Lone d) (differ : (d.var, d.target) ≠ (c.var, c.target)) : g'.Lone d := by
  intro unrelayed n hands
  rcases h.hands hands with hands | ⟨-, -, var, target⟩
  · exact lone unrelayed n hands
  · exact differ (by rw [var, target])

end Relayed

theorem RelayedAll.distinct {l : List Dispatch.Crossing} (h : RelayedAll l g g')
    (differ : l.Pairwise fun c d => (c.var, c.target) ≠ (d.var, d.target))
    (lone : ∀ c ∈ l, g.Lone c) (distinct : g.Distinct) : g'.Distinct := by
  induction h with
  | nil => exact distinct
  | cons relayed _ ih =>
    refine ih differ.of_cons (fun d hd => ?_) ?_
    · have apart := (List.rel_of_pairwise_cons differ hd).symm
      exact relayed.lone (lone d (List.mem_cons_of_mem _ hd)) apart
    · exact relayed.distinct (lone _ List.mem_cons_self) distinct

theorem BoundaryComplete.flat (complete : g.BoundaryComplete) (hg : g.Linked) : g.Flat := by
  intro s x r relays
  obtain ⟨o, source, target, -, fits⟩ := complete.fits_of_relays relays
  exact fits.made.genuine hg

end Graph

namespace Dispatch

open GraphDispatch.Graph

/-- Where all switches are settled and none is returned, a crossing that finds no relay has
no switch. -/
theorem crossings_lone (hg : g.Sound) (sheltered : g.Sheltered)
    (settled : ∀ s o, g.getOperation? s = some o → o.isSwitch = true → g.Settled o)
    (hc : c ∈ crossings g) : g.Lone c := by
  rintro unrelayed s ⟨o, source, ho, leads, reads⟩
  have switch := isSwitch_of_platforms leads
  obtain ⟨var, v, hv, hc⟩ := mem_crossings.1 hc
  obtain ⟨rfl, -, -, -, -, relay⟩ := crossingsOf_spec hg.linked hv hc
  rcases settled s o ho switch with exposed | ⟨source', target, x, r, fits⟩
  · exact sheltered s o ho switch exposed
  · rw [fits.platforms] at leads
    cases leads
    rw [fits.input, List.mem_singleton] at reads
    subst reads
    exact relay?_eq_none hg.linked hv (relay.symm.trans unrelayed) ho fits

/-- Inserting switches leaves no variable handed to a platform twice. -/
theorem Reswitched.distinct {h : Graph α} (way : Reswitched g h g') (flat : g.Flat)
    (sheltered : g.Sheltered) (distinct : g.Distinct) : g'.Distinct := by
  have thinned : h.Flat ∧ h.Distinct := way.thinned.keeps (P := fun k => k.Flat ∧ k.Distinct)
    (fun spliced kept => ⟨spliced.keeps_flat kept.1, spliced.distinct kept.1 kept.2⟩) ⟨flat, distinct⟩
  have sheltered : h.Sheltered := way.thinned.keeps Spliced.sheltered sheltered
  exact way.relayed.distinct (crossings_pairwise way.sound.linked)
    (fun c => crossings_lone way.sound sheltered way.settled) thinned.2

end Dispatch

end GraphDispatch
