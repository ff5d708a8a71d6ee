import GraphDispatch.Proofs.Outcomes
import GraphDispatch.Proofs.Switches.Rest

/-!
# Relays that the graph returns

A switch whose relay the graph returns is never taken out, wherever the operations around it
sit. Only the switches in front of it and behind it go. So the operations that end up at its
two sides are those that were there before, past such switches, and whether they fit is decided
before the run.
-/

namespace GraphDispatch

variable {α : Type} {g g' : Graph α} {o p : Operation α} {s x y r t var root : String}
  {c : Dispatch.Crossing} {source target : Platform}

namespace Graph

/-- A switch that the graph does not return hands `x` on as `r`. -/
def Forwards (g : Graph α) (x r : String) : Prop :=
  ∃ s o, g.getOperation? s = some o ∧ o.isSwitch = true ∧ o.inputs.head? = some x ∧
    o.outputs.head? = some r ∧ ¬g.Exposed o

/-- `var` is `root`, or such switches make it of `root`. -/
def Behind (g : Graph α) : String → String → Prop := Relation.ReflTransGen g.Forwards

/-- What makes `x`, unless it is a switch, sits on `source`, and what reads `r` on `target`. -/
structure Consistent (g : Graph α) (x r : String) (source target : Platform) : Prop where
  maker : ∀ platform, g.MadeOn platform x → platform = source
  readers : ∀ platform q, g.SitsOn platform q → g.Reads q r → platform = target

/-- The same past all switches in front of `x` and behind `r` that the graph does not return. -/
structure InPlace (g : Graph α) (x r : String) (source target : Platform) : Prop where
  maker : ∀ root platform, g.Behind root x → g.MadeOn platform root → platform = source
  readers : ∀ var platform q, g.Behind r var → g.SitsOn platform q → g.Reads q var →
    platform = target

/-- The graph returns the relay `r` of the switch `o`, which reads `y` now. -/
structure Returned (g : Graph α) (s : String) (o : Operation α) (y r : String) : Prop where
  found : g.getOperation? s = some { o with inputs := [y] }
  switch : o.isSwitch = true
  output : o.outputs = [r]
  returned : r ∈ g.outputs

namespace Returned

variable (h : Returned g s o y r)
include h

theorem produces : g.Produces s r := ⟨_, h.found, by simp [h.output]⟩

theorem reads : g.Reads s y := ⟨_, h.found, by simp⟩

/-- No operation but the switch makes the relay. -/
theorem not_madeOn (hg : g.Linked) {platform : Platform} : ¬g.MadeOn platform r := by
  intro made
  exact made.ne_relay hg h.found h.switch (by simp [h.output]) rfl

theorem not_sitsOn {platform : Platform} : ¬g.SitsOn platform s := by
  intro sits
  exact sits.ne_switch h.found h.switch rfl

end Returned

namespace Dropped

variable (h : Dropped g g' p t x r)
include h

theorem forwards_self : g.Forwards x r := ⟨t, p, h.found, h.switch, h.input, h.output, h.hidden⟩

theorem forwards {y z : String} (forwards : g.Forwards y z) (other : z ≠ r) :
    g'.Forwards (if y = r then x else y) z := by
  obtain ⟨n, q, hq, switch, input, output, hidden⟩ := forwards
  have apart : n ≠ t := by
    rintro rfl
    cases hq.symm.trans h.found
    exact other (Option.some.inj (output.symm.trans h.output))
  refine ⟨n, q.redirect r x, h.getOperation?_eq_some.2 ⟨apart, q, hq, rfl⟩, switch, ?_, output, ?_⟩
  · simp [Operation.redirect, input]
  · rintro ⟨z, hz, returned⟩
    exact hidden ⟨z, hz, h.outputs ▸ returned⟩

theorem of_forwards {y' z : String} (forwards : g'.Forwards y' z) :
    z ≠ r ∧ ∃ y, (if y = r then x else y) = y' ∧ g.Forwards y z := by
  obtain ⟨n, q', hq', switch, input, output, hidden⟩ := forwards
  obtain ⟨apart, q, hq, rfl⟩ := h.getOperation?_eq_some.1 hq'
  constructor
  · rintro rfl
    exact apart (h.linked.produces_unique ⟨q, hq, List.mem_of_head? output⟩ h.produces)
  · obtain ⟨y, first, renamed⟩ : ∃ y, q.inputs.head? = some y ∧ (if y = r then x else y) = y' := by
      simpa [Operation.redirect] using input
    refine ⟨y, renamed, n, q, hq, switch, first, output, ?_⟩
    rintro ⟨z, hz, returned⟩
    exact hidden ⟨z, hz, h.outputs.symm ▸ returned⟩

/-- What a variable leads back to stays the same, up to the name that the variable gets. -/
theorem behind_iff (other : root ≠ r) :
    g'.Behind root (if var = r then x else var) ↔ g.Behind root var := by
  constructor
  · intro behind
    generalize renamed : (if var = r then x else var) = w at behind
    induction behind generalizing var with
    | refl =>
      by_cases relay : var = r
      · rw [if_pos relay] at renamed
        subst renamed relay
        exact .single h.forwards_self
      · rw [if_neg relay] at renamed
        exact renamed ▸ .refl
    | @tail y' z _ last ih =>
      obtain ⟨-, y, first, forwards⟩ := h.of_forwards last
      have before : g.Behind root z := (ih first).tail forwards
      by_cases relay : var = r
      · rw [if_pos relay] at renamed
        subst renamed relay
        exact before.tail h.forwards_self
      · rw [if_neg relay] at renamed
        exact renamed ▸ before
  · intro behind
    induction behind with
    | refl =>
      rw [if_neg other]
      exact .refl
    | @tail y z _ last ih =>
      by_cases relay : z = r
      · subst relay
        obtain ⟨n, q, hq, switch, input, output, -⟩ := last
        cases h.linked.produces_unique ⟨q, hq, List.mem_of_head? output⟩ h.produces
        cases hq.symm.trans h.found
        cases input.symm.trans h.input
        rw [if_pos rfl]
        rw [if_neg h.ne] at ih
        exact ih
      · rw [if_neg relay]
        exact ih.tail (h.forwards last relay)

theorem reads_iff_renamed {q w : String} :
    g'.Reads q w ↔ q ≠ t ∧ ∃ var, (if var = r then x else var) = w ∧ g.Reads q var := by
  rw [h.reads_iff]
  apply and_congr_right
  intro _
  constructor
  · rintro (⟨reads, other⟩ | ⟨rfl, reads⟩)
    · exact ⟨w, if_neg other, reads⟩
    · exact ⟨r, if_pos rfl, reads⟩
  · rintro ⟨var, rfl, reads⟩
    by_cases relay : var = r
    · subst relay
      exact Or.inr ⟨if_pos rfl, reads⟩
    · rw [if_neg relay]
      exact Or.inl ⟨reads, relay⟩

theorem ne_of_returned (kept : Returned g s o y var) : s ≠ t := by
  rintro rfl
  cases h.found.symm.trans kept.found
  exact h.hidden ⟨var, by simp [kept.output], kept.returned⟩

theorem keeps_returned (kept : Returned g s o y var) :
    Returned g' s o (if y = r then x else y) var where
  found := h.getOperation?_eq_some.2 ⟨h.ne_of_returned kept, _, kept.found, rfl⟩
  switch := kept.switch
  output := kept.output
  returned := h.outputs.symm ▸ kept.returned

theorem inPlace_iff (kept : Returned g s o y var) :
    g'.InPlace (if y = r then x else y) var source target ↔ g.InPlace y var source target := by
  have apart : var ≠ r := by
    rintro rfl
    exact h.ne_of_returned kept (h.linked.produces_unique kept.produces h.produces)
  have genuine : ∀ {root platform}, g.MadeOn platform root → root ≠ r := fun made =>
    made.ne_relay h.linked h.found h.switch (List.mem_of_head? h.output)
  constructor
  · intro fits
    constructor
    · intro root platform behind made
      exact fits.maker root platform ((h.behind_iff (genuine made)).2 behind)
        (h.seats.madeOn_iff.2 made)
    · intro w platform q behind sits reads
      have other : q ≠ t := sits.ne_switch h.found h.switch
      exact fits.readers _ platform q ((h.behind_iff apart).2 behind)
        (h.seats.sitsOn_iff.2 sits) (h.reads_iff_renamed.2 ⟨other, w, rfl, reads⟩)
  · intro fits
    constructor
    · intro root platform behind made
      have made := h.seats.madeOn_iff.1 made
      exact fits.maker root platform ((h.behind_iff (genuine made)).1 behind) made
    · intro w' platform q behind sits reads
      obtain ⟨-, w, rfl, read⟩ := h.reads_iff_renamed.1 reads
      exact fits.readers w platform q ((h.behind_iff apart).1 behind)
        (h.seats.sitsOn_iff.1 sits) read

end Dropped

section Tidy

variable (hg : g.Linked) (tidy : g.Tidy)
include tidy

/-- In a tidy graph a switch that forwards leads from one platform to another. -/
theorem Tidy.bridges_of_forwards (forwards : g.Forwards x r) :
    ∃ s o source target, g.getOperation? s = some o ∧ g.Bridges o source target x r := by
  obtain ⟨s, o, ho, switch, input, output, hidden⟩ := forwards
  cases tidy s o ho switch with
  | exposed exposed => exact absurd exposed hidden
  | portless ports => rcases ports with none | none <;> simp [none] at input output
  | bridging bridges =>
    cases bridges.input.symm.trans input
    cases bridges.output.symm.trans output
    exact ⟨s, o, _, _, ho, bridges⟩

theorem Tidy.eq_of_behind_read (kept : Returned g s o y r) (behind : g.Behind root y) :
    root = y := by
  cases Relation.ReflTransGen.cases_tail behind with
  | inl same => exact same.symm
  | inr last =>
    obtain ⟨z, -, forwards⟩ := last
    obtain ⟨n, q, source, target, -, bridges⟩ := tidy.bridges_of_forwards forwards
    exact absurd (bridges.readers s kept.reads) kept.not_sitsOn

include hg

theorem Tidy.eq_of_behind_relay (kept : Returned g s o y r) (behind : g.Behind r var) :
    var = r := by
  cases Relation.ReflTransGen.cases_head behind with
  | inl same => exact same.symm
  | inr first =>
    obtain ⟨z, forwards, -⟩ := first
    obtain ⟨n, q, source, target, -, bridges⟩ := tidy.bridges_of_forwards forwards
    exact absurd bridges.made (kept.not_madeOn hg)

/-- With the stale switches gone, nothing is left to look past. -/
theorem Tidy.inPlace_iff (kept : Returned g s o y r) :
    g.InPlace y r source target ↔ g.Consistent y r source target := by
  constructor
  · intro fits
    exact ⟨fun platform => fits.maker y platform .refl,
      fun platform q => fits.readers r platform q .refl⟩
  · intro consistent
    constructor
    · intro root platform behind made
      cases tidy.eq_of_behind_read kept behind
      exact consistent.maker platform made
    · intro w platform q behind sits reads
      cases tidy.eq_of_behind_relay hg kept behind
      exact consistent.readers platform q sits reads

end Tidy

namespace Handed

variable (h : Handed g g' c t)
include h

theorem keeps_returned (kept : Returned g s o y r) : Returned g' s o y r where
  found := h.keeps_switch kept.found kept.switch
  switch := kept.switch
  output := kept.output
  returned := h.outputs.symm ▸ kept.returned

/-- A crossing is relayed through the switch only to where the switch leads. -/
theorem consistent_iff (kept : Returned g s o y r)
    (leads : o.switchPlatforms? = some (source, target)) :
    g'.Consistent y r source target ↔ g.Consistent y r source target := by
  have old : ∀ {q}, g.Reads q r → g'.Reads q r := by
    intro q reads
    refine h.keeps_reads reads fun _ => ?_
    rintro rfl
    exact kept.not_madeOn h.before h.due.made
  constructor
  · intro consistent
    constructor
    · intro platform made
      exact consistent.maker platform (h.seats.madeOn_iff.2 made)
    · intro platform q sits reads
      exact consistent.readers platform q (h.seats.sitsOn_iff.2 sits) (old reads)
  · intro consistent
    constructor
    · intro platform made
      exact consistent.maker platform (h.seats.madeOn_iff.1 made)
    · intro platform q sits reads
      have sits := h.seats.sitsOn_iff.1 sits
      rcases h.reads_of reads with ⟨unknown, -⟩ | ⟨reads, -⟩ | ⟨consumes, rfl⟩
      · exact absurd sits.known unknown
      · exact consistent.readers platform q sits reads
      · rcases h.origin with ⟨n, p, source', x, hp, bridges⟩ | unknown
        · cases h.before.produces_unique kept.produces ⟨p, hp, List.mem_of_head? bridges.output⟩
          cases hp.symm.trans kept.found
          cases leads.symm.trans bridges.platforms
          exact sits.unique (h.due.consumers q consumes).2
        · exact absurd (h.before.produces_known kept.produces) unknown

end Handed

end Graph

namespace Dispatch

open GraphDispatch.Graph

variable [Scalar α]

/-- A switch whose relay the graph returns is kept, for every assignment of platforms, and what
is at its sides afterwards sits where the switch leads from and to exactly if this was so before,
past all switches that are not kept like it. -/
theorem insertSwitches_keeps_returned (reachable : Reachable g) (acyclic : g.Acyclic)
    (platforms : String → Platform) (ho : g.getOperation? s = some o)
    (leads : o.switchPlatforms? = some (source, target)) (input : o.inputs = [x])
    (output : o.outputs = [r]) (returned : r ∈ g.outputs) :
    Task.Leads insertSwitches (g.assign platforms) fun _ k => ∃ y,
      k.getOperation? s = some { o with platform := platforms s, inputs := [y] } ∧
      r ∈ k.outputs ∧ (k.Consistent y r source target ↔
        (g.assign platforms).InPlace x r source target) := by
  have linked := reachable.linked.assign platforms
  have succeeds := insertSwitches_succeeds linked (acyclic.assign platforms)
  let a := g.assign platforms
  let o' : Operation α := { o with platform := platforms s }
  have start : Returned a s o' x r := by
    refine ⟨assign_eq_some.2 ⟨o, ho, ?_⟩, isSwitch_of_platforms leads, output, returned⟩
    rw [← input]
  -- until the stale switches are gone it is the switches in between that are looked past
  have settled := insertSwitches_settle linked
    (P := fun k => ∃ y, Returned k s o' y r ∧
      (k.InPlace y r source target ↔ a.InPlace x r source target))
    (Q := fun k => ∃ y, Returned k s o' y r ∧
      (k.Consistent y r source target ↔ a.InPlace x r source target))
    (by
      intro k k' p t x' r' dropped state
      obtain ⟨y, kept, same⟩ := state
      exact ⟨_, dropped.keeps_returned kept, (dropped.inPlace_iff kept).trans same⟩)
    (by
      intro k linked tidy state
      obtain ⟨y, kept, same⟩ := state
      exact ⟨y, kept, (tidy.inPlace_iff linked kept).symm.trans same⟩)
    (by
      intro k k' c t handed state
      obtain ⟨y, kept, same⟩ := state
      exact ⟨y, handed.keeps_returned kept, (handed.consistent_iff kept leads).trans same⟩)
    ⟨x, start, Iff.rfl⟩
  refine succeeds.ensuring (settled.mono fun _ k left => ?_)
  obtain ⟨-, y, kept, same⟩ := left
  exact ⟨y, kept.found, kept.returned, same⟩

/-- The graph returns what its switch hands on, and `relu` reads it too. -/
def shown : Document Float32 where
  name := "net"
  inputs := []
  outputs := ["x.relay", "y"]
  vars := ["x", "x.relay", "y"].map fun var => ⟨var, none, false⟩
  operations :=
    [⟨"conv", "Conv", ∅, [], ["x"], .fp32⟩,
      ⟨"switch", switchType, switchAttributes .fp32 .shapeOrIndex, ["x"], ["x.relay"], .boundary⟩,
      ⟨"relu", "Relu", ∅, ["x.relay"], ["y"], .shapeOrIndex⟩]

theorem shown_reachable : Reachable shown.graph :=
  ⟨shown.graph, [], .built (show shown.build = .ok shown.graph from rfl), rfl⟩

theorem shown_acyclic : shown.graph.Acyclic := by
  have ranked : shown.graph.Ranked fun op => ["conv", "switch", "relu"].idxOf op := by decide
  exact ranked.acyclic

theorem shown_switch : ∃ o, shown.graph.getOperation? "switch" = some o ∧
    o.switchPlatforms? = some (.fp32, .shapeOrIndex) ∧ o.inputs = ["x"] ∧
    o.outputs = ["x.relay"] :=
  ⟨_, rfl, by decide +kernel, rfl, rfl⟩

theorem insertSwitches_keeps_returned_shown : ∃ o, shown.graph.getOperation? "switch" = some o ∧
    Task.Leads insertSwitches (shown.graph.assign fun _ => .fp32) fun _ k => ∃ y,
      k.getOperation? "switch" = some { o with platform := .fp32, inputs := [y] } ∧
      "x.relay" ∈ k.outputs ∧ (k.Consistent y "x.relay" .fp32 .shapeOrIndex ↔
        (shown.graph.assign fun _ => .fp32).InPlace "x" "x.relay" .fp32 .shapeOrIndex) := by
  obtain ⟨o, ho, leads, input, output⟩ := shown_switch
  exact ⟨o, ho, insertSwitches_keeps_returned shown_reachable shown_acyclic _ ho leads input output
    (by decide)⟩

/-- Where `relu` stays on the platform of `conv` it reads what was handed to another one. -/
theorem shown_inconsistent :
    Reachable shown.graph ∧ shown.graph.Acyclic ∧ "x.relay" ∈ shown.graph.outputs ∧
    ∃ n later, insertSwitches ⟨shown.graph.assign fun _ => .fp32, []⟩ = .ok n later ∧
      (later.state.getOperation? "switch").map (·.inputs) = some ["x"] ∧
      (later.state.getOperation? "switch").map (·.outputs) = some ["x.relay"] ∧
      (later.state.getOperation? "switch").bind (·.switchPlatforms?) =
        some (.fp32, .shapeOrIndex) ∧
      ¬later.state.Consistent "x" "x.relay" .fp32 .shapeOrIndex := by
  have left : ∃ n later, insertSwitches ⟨shown.graph.assign fun _ => .fp32, []⟩ = .ok n later ∧
      (later.state.getOperation? "switch").map (·.inputs) = some ["x"] ∧
      (later.state.getOperation? "switch").map (·.outputs) = some ["x.relay"] ∧
      (later.state.getOperation? "switch").bind (·.switchPlatforms?) =
        some (.fp32, .shapeOrIndex) ∧
      sitsOn later.state .fp32 "relu" = true ∧
      (later.state.getOperation? "relu").map (·.inputs) = some ["x.relay"] := by decide +kernel
  obtain ⟨n, later, run, input, output, leads, sits, inputs⟩ := left
  obtain ⟨p, hp, read⟩ := Option.map_eq_some_iff.1 inputs
  have reads : later.state.Reads "relu" "x.relay" := ⟨p, hp, by simp [read]⟩
  refine ⟨shown_reachable, shown_acyclic, by decide, n, later, run, input, output, leads, ?_⟩
  intro consistent
  cases consistent.readers .fp32 "relu" (sitsOn_iff.1 sits) reads

end Dispatch

end GraphDispatch
