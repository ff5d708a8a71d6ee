import GraphDispatch.Proofs.Rewrite.Formatted

/-!
# The form of formatted graphs

What dispatching may expect of a graph that has been formatted. Each command brings about a
part of it, and the commands behind keep that part (`format_rests`); the inputs of clips are
counted over the whole run, as a clip that reads nothing would not get all of its bounds.
-/

namespace GraphDispatch

open GraphDispatch.Graph

variable {α : Type} {g g' : Graph α}

/-- The form that `format` brings a graph into. -/
structure NormalForm (g : Graph α) : Prop where
  constants : ∀ op o, g.getOperation? op = some o → o.type ≠ "Constant"
  /-- A parameter that nothing produces is read by one operation at most. -/
  parameters : ∀ var v, g.getVariable? var = some v → v.isParameter = true → v.producer = none →
    ∀ p ∈ v.consumers, ∀ q ∈ v.consumers, p = q
  casts : ∀ op o, g.getOperation? op = some o → o.type = "Cast" →
    ∃ t : DataType, o.attributes.get? "to" = some (.string t.name)
  slices : ∀ op o, g.getOperation? op = some o → o.type = "Slice" →
    "starts" ∉ o.attributes ∧ "ends" ∉ o.attributes
  /-- Axes and steps are missing only where it is not known how many there are. -/
  sliceBounds : ∀ op o, g.getOperation? op = some o → o.type = "Slice" →
    o.inputs.length = 3 ∨ o.inputs.length = 4 →
      ∀ var v, o.inputs[1]? = some var → g.getVariable? var = some v → v.value = none
  clips : ∀ op o, g.getOperation? op = some o → o.type = "Clip" →
    3 ≤ o.inputs.length ∧ "min" ∉ o.attributes ∧ "max" ∉ o.attributes
  /-- Every operation leads to one that produces an output of the graph. -/
  contributing : g.outputs ≠ [] → ∀ op ∈ g.operations, ∃ last out,
    Relation.ReflTransGen g.Feeds op last ∧ g.Produces last out ∧ out ∈ g.outputs
  referenced : ∀ var ∈ g.vars, (∃ op, g.Reads op var ∨ g.Produces op var) ∨
    var ∈ g.inputs ∨ var ∈ g.outputs

namespace Rewrite

/-- The target of a cast is read from its attribute, which holds the name itself. -/
theorem Named.target {o : Operation α} (named : Named o) :
    ∃ t : DataType, o.attributes.get? "to" = some (.string t.name) := by
  obtain ⟨t, -, names⟩ := named
  exact ⟨t, name_of_namesType names⟩

theorem path_of_contributing (hg : g.Linked) {op : String} (contributes : op ∈ contributing g) :
    ∃ last out, Relation.ReflTransGen g.Feeds op last ∧ g.Produces last out ∧
      out ∈ g.outputs := by
  have reached := mem_reach.1 contributes
  induction reached with
  | @start n starts _ =>
    obtain ⟨out, returned, producer⟩ := List.mem_filterMap.1 starts
    exact ⟨n, out, .refl, hg.producer?_eq_some.1 producer, returned⟩
  | @step m n reached edge _ ih =>
    obtain ⟨last, out, path, rest⟩ := ih (mem_reach.2 reached)
    exact ⟨last, out, .head edge path, rest⟩

/-- Every clip has so many inputs. -/
def ClipsHave (k : Nat) (g : Graph α) : Prop :=
  ∀ op o, g.getOperation? op = some o → o.type = "Clip" → k ≤ o.inputs.length

theorem ClipsHave.of_stems {k : Nat} (h : ClipsHave k g)
    (stems : Stems g.operations g'.operations) : ClipsHave k g' := by
  intro op o' ho' type'
  obtain ⟨o, ho, type, inputs⟩ := stems op o' ho'
  exact (h op o ho (type ▸ type')).trans inputs

theorem clips_fill [Scalar α] (hg : g.Linked) (some : ClipsHave 1 g) :
    Task.Ensures clips g fun _ g' => ClipsHave 3 g' := by
  refine (clips_ensures hg).mono fun _ g' pass op o' ho' type => ?_
  obtain ⟨o, ho, clipped⟩ := pass.done op o' ho' type List.not_mem_nil
  obtain ⟨p, -, hp, isType, -⟩ := pass.supplied.operations op o' ho'
  cases ho.symm.trans hp
  exact clipped.filled (some op o ho (isType ▸ type))

end Rewrite

open Rewrite

variable [Scalar α]

theorem format_fills (hg : g.Linked) (some : ClipsHave 1 g) :
    Task.Ensures format g fun _ g' => ClipsHave 3 g' := by
  -- the clips are filled once the command for them is done
  refine (format_ensures (Q := ClipsHave 3) ?_).mono fun _ g' done => done.1
  refine (Task.Ensures.forM (fun rest h => h.Linked ∧ ClipsHave 1 h ∧
    (.clips ∈ rest ∨ ClipsHave 3 h)) (fun c rest h state => ?_)
    ⟨hg, some, Or.inl (Command.mem_all _)⟩).mono fun _ h state => ?_
  · obtain ⟨linked, some, filled⟩ := state
    have stems := process_ensures (rewrite_stems c linked)
    by_cases clip : c = .clips
    · subst clip
      have fills : Task.Ensures (process .clips) h fun _ h' => ClipsHave 3 h' :=
        process_ensures (clips_fill linked some)
      refine (stems.and fills).discard.mono fun _ h' done => ?_
      obtain ⟨_, ⟨linked', stems⟩, filled⟩ := done
      exact ⟨linked', some.of_stems stems, Or.inr filled⟩
    · refine stems.discard.mono fun _ h' done => ?_
      obtain ⟨_, linked', stems⟩ := done
      refine ⟨linked', some.of_stems stems, filled.imp (fun later => ?_) (·.of_stems stems)⟩
      exact (List.mem_cons.1 later).resolve_left (Ne.symm clip)
  · exact state.2.2.resolve_left List.not_mem_nil

theorem Formatted.normalForm (formatted : Formatted g) (filled : ClipsHave 3 g) :
    NormalForm g := by
  have linked := formatted.linked
  have rests := formatted.rests
  constructor
  case constants => exact rests .constants
  case parameters =>
    intro var v hv parameter unmade p hp q hq
    refine rests .sharedParameters var v.declaration (declared_iff.2 ⟨v, hv, rfl⟩) parameter
      (fun op hop => ?_) p q ((linked.mem_consumers hv).1 hp) ((linked.mem_consumers hv).1 hq)
    rw [(linked.producer_iff hv op).2 hop] at unmade
    cases unmade
  case casts => exact fun op o ho type => (rests .casts op o ho type).target
  case slices =>
    intro op o ho type
    have unbound := (rests .slices op o ho type).1
    rw [hasBoundAttributes, Bool.or_eq_false_iff] at unbound
    exact ⟨NameMap.contains_eq_false_iff.1 unbound.1, NameMap.contains_eq_false_iff.1 unbound.2⟩
  case sliceBounds =>
    intro op o ho type slots var v hvar hv
    have unranked := (rests .slices op o ho type).2 slots
    rw [sliceRank, List.getD_eq_getElem?_getD, hvar, Option.getD_some, hv] at unranked
    exact Option.map_eq_none_iff.1 unranked
  case clips =>
    intro op o ho type
    have unlimited := rests .clips op o ho type
    rw [hasLimitAttributes, Bool.or_eq_false_iff] at unlimited
    exact ⟨filled op o ho type, NameMap.contains_eq_false_iff.1 unlimited.1,
      NameMap.contains_eq_false_iff.1 unlimited.2⟩
  case contributing =>
    intro outputs op hop
    have alive := (rests .isolated).1.resolve_left outputs
    exact path_of_contributing linked (alive op hop)
  case referenced =>
    intro var hvar
    have referenced := (rests .isolated).2 var hvar
    refine Classical.byContradiction fun spare => referenced ?_
    simp only [not_or, not_exists] at spare
    exact ⟨spare.1, spare.2⟩

/-- A graph whose clips all read something is in normal form once it has been formatted. -/
theorem format_normalizes (reachable : Reachable g)
    (reading : ∀ op o, g.getOperation? op = some o → o.type = "Clip" → 1 ≤ o.inputs.length)
    {events : List Event} {after : Logged (Graph α)} (run : format ⟨g, events⟩ = .ok () after) :
    NormalForm after.state := by
  have linked := reachable.linked
  have formatted := format_rests linked events () after run
  exact formatted.normalForm (format_fills linked reading events () after run)

def castClip : Document Float32 where
  name := "net"
  inputs := ["x", "low", "high"]
  outputs := ["y"]
  vars := [⟨"x", none, false⟩, ⟨"low", none, false⟩, ⟨"high", none, false⟩, ⟨"z", none, false⟩,
    ⟨"y", none, false⟩]
  operations := [⟨"cast", "Cast", .ofList [("to", .int 1)], ["x"], ["z"], .unspecified⟩,
    ⟨"clip", "Clip", ∅, ["z", "low", "high"], ["y"], .unspecified⟩]

/-- The cast names its target. -/
def castClipFormatted : Document Float32 := { castClip with
  operations := [⟨"cast", "Cast", .ofList [("to", .string "float32")], ["x"], ["z"], .unspecified⟩,
    ⟨"clip", "Clip", ∅, ["z", "low", "high"], ["y"], .unspecified⟩] }

theorem format_castClip :
    Task.Leads format castClip.graph fun _ g' => g' = castClipFormatted.graph := by
  have first : castClipFormatted.graph.upstream "cast" = [] := rfl
  have second : castClipFormatted.graph.upstream "clip" = ["cast"] := rfl
  have alive : reach castClipFormatted.graph.upstream ["cast", "clip"] ["clip"] =
      ["clip", "cast"] := by
    simp [reach, first, second]
  have dead : Rewrite.deadOperations castClipFormatted.graph = [] :=
    Rewrite.deadOperations_eq rfl rfl alive
  exact format_leads_by (fun _ => ⟨_, castClipFormatted.graph, _, rfl, rfl⟩)
    (Rewrite.isolated_leads_of rfl dead ⟨_, rfl, rfl, rfl⟩) rfl

theorem format_normalizes_castClip : ∃ after, castClip.build = .ok castClip.graph ∧
    format ⟨castClip.graph, []⟩ = .ok () after ∧ NormalForm after.state := by
  have built : castClip.build = .ok castClip.graph := rfl
  have reading : ∀ op o, castClip.graph.getOperation? op = some o → o.type = "Clip" →
      1 ≤ o.inputs.length := NameMap.forall_get?_iff.2 (by decide)
  obtain ⟨_, _, events, run, rfl⟩ := format_castClip []
  exact ⟨_, built, run, format_normalizes ⟨_, [], .built built, rfl⟩ reading run⟩

end GraphDispatch
