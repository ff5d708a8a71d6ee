import GraphDispatch.Proofs.Rewrite.Folds
import GraphDispatch.Proofs.Rewrite.Formatted

/-!
# Chains of normalizations

Normalizations are folded in the order of their names. Where one takes its data from another
that comes later, it is visited while there is no linear operation in front of it yet, and left
to a second run. No other normalization is (`batchNorms_settles`).
-/

namespace GraphDispatch

open GraphDispatch.Graph

variable {α : Type} {g : Graph α}

namespace Rewrite

/-- The normalization `c` produces the data of `o`. -/
def Behind (g : Graph α) (o : Operation α) (c : String) : Prop :=
  ∃ p var, g.getOperation? c = some p ∧ p.type = "BatchNormalization" ∧
    o.inputs.head? = some var ∧ var ∈ p.outputs

/-- The normalization `n` stays, or it has had its data from one that has come later and is
gone. -/
def Left [Scalar α] (g h : Graph α) (n : String) (o : Operation α) : Prop :=
  Stays h n ∨ ∃ c, n < c ∧ Behind g o c ∧ c ∉ h.operations

theorem Left.fold [Scalar α] {h h' : Graph α} {s : Site α} {scaled : Tensor α}
    {data weight bias n : String} {l : List String} {o : Operation α} (hg : g.Linked)
    (u : Underway g (s.norm :: l) h) (f : s.Folds h h' scaled data weight bias)
    (ho : h.getOperation? n = some o) (ho' : h'.getOperation? n = some o)
    (type : o.type = "BatchNormalization") (visited : n ∉ s.norm :: l) (left : Left g h n o) :
    Left g h' n o := by
  rcases left with ⟨plan, planned, keep⟩ | ⟨c, later, behind, gone⟩
  · rcases planFusion_spec ho' with ⟨t, rfl, site, plan'⟩ | stays
    · cases ho'.symm.trans site.norm
      -- a new site reads what the fold has normalized, and its normalization had been visited
      by_cases behind : t.intermediate = s.output
      · obtain ⟨_, _, _, _, inputs, -⟩ := site.inputs
        refine Or.inr ⟨s.norm, u.lt_of_visited hg ho type visited, ?_, ?_⟩
        · have type := u.type List.mem_cons_self f.site
          refine ⟨_, s.output, u.norms _ _ f.site.norm type, type, ?_, ?_⟩
          · rw [inputs, ← behind]
            rfl
          · rw [f.site.outputs]
            exact List.mem_singleton_self _
        · rw [mem_operations_iff, f.norm_gone]
          rintro ⟨_, none⟩
          cases none
      · have same : planFusion h' t.norm = planFusion h t.norm :=
          plan'.trans (f.stems type site behind).planFusion_eq.symm
        exact Or.inl ⟨plan, same.trans planned, keep⟩
    · exact Or.inl stays
  · refine Or.inr ⟨c, later, behind, fun present => gone ?_⟩
    rw [mem_operations_iff, f.getOperation?_eq] at present
    split at present
    · rename_i same
      exact same ▸ mem_operations_iff.2 ⟨_, f.site.parent⟩
    · split at present
      · obtain ⟨_, none⟩ := present
        cases none
      · exact mem_operations_iff.2 present

/-- What a run leaves unfolded. -/
theorem batchNorms_settles [Scalar α] (hg : g.Linked) :
    Task.Ensures batchNorms g fun _ g' => Underway g [] g' ∧ ∀ n o, g'.getOperation? n = some o →
      o.type = "BatchNormalization" → n ∉ [] → Left g g' n o := by
  refine (batchNorms_meets hg (fun l h => ∀ n o, h.getOperation? n = some o →
    o.type = "BatchNormalization" → n ∉ l → Left g h n o) (fun _ => True) ?_ ?_ ?_ ?_).ensures
  · intro n o ho type visited
    exact absurd (hg.mem_operationsOfType.2 ⟨o, ho, type⟩) visited
  · intro n l h u left stays m o ho type visited
    by_cases same : m = n
    · exact Or.inl (same ▸ stays)
    · exact left m o ho type (by simp [same, visited])
  · intro s l h h' scaled data weight bias u left f n o ho type visited
    have norm : n ≠ s.norm := by
      rintro rfl
      rw [f.norm_gone] at ho
      cases ho
    have parent : n ≠ s.parent := by
      rintro rfl
      cases f.parent_after.symm.trans ho
      exact (type_of_channelAxis f.site.channel).2 type
    have before := (f.getOperation?_other parent norm).symm.trans ho
    have visited : n ∉ s.norm :: l := by simp [norm, visited]
    exact (left n o before type visited).fold hg u f before ho type visited
  · intro s l h e _ _ _ _
    trivial

end Rewrite

variable [Scalar α]

/-- A run leaves a normalization that can be folded only where it had its data from one with a
later name. Where no normalization has, a second run finds nothing to fold. -/
theorem batchNorms_again {d : Document α} (built : d.build = .ok g) {events : List Event}
    {n : Nat} {once : Logged (Graph α)} (run : process .batchNorms ⟨g, events⟩ = .ok n once) :
    (∀ b o, once.state.getOperation? b = some o → o.type = "BatchNormalization" →
      Rewrite.Left g once.state b o) ∧
    ((∀ b o c, g.getOperation? b = some o → o.type = "BatchNormalization" →
      Rewrite.Behind g o c → ¬b < c) → Command.batchNorms.Idle once.state ∧
        ∃ later, process .batchNorms once = .ok 0 ⟨once.state, later⟩) := by
  have settled := process_ensures (c := .batchNorms)
    (Rewrite.batchNorms_settles (linked_of_build built)) events n once run
  obtain ⟨u, left⟩ := settled
  have left := fun b o ho type => left b o ho type List.not_mem_nil
  refine ⟨left, fun ordered => ?_⟩
  have idle : Command.batchNorms.Idle once.state := by
    intro b o ho type
    refine (left b o ho type).resolve_right ?_
    rintro ⟨c, later, behind, -⟩
    exact ordered b o c (u.norms b o ho type) type behind later
  obtain ⟨_, _, later, again, rfl, rfl⟩ := process_leads u.linked idle once.events
  exact ⟨idle, later, again⟩

/-- Two normalizations behind a linear operation. -/
def twoNorms (first second : String) : Document Float32 where
  name := "net"
  inputs := ["x"]
  outputs := ["y"]
  vars := [⟨"x", none, false⟩, ⟨"w", some ⟨[1, 1], .floats [2]⟩, true⟩, ⟨"u", none, false⟩,
    ⟨"v", none, false⟩, ⟨"ones", some ⟨[1], .floats [1]⟩, true⟩, ⟨"y", none, false⟩]
  operations := [⟨"fc", "Gemm", ∅, ["x", "w"], ["u"], .unspecified⟩,
    ⟨first, "BatchNormalization", ∅, ["u", "ones", "ones", "ones", "ones"], ["v"], .unspecified⟩,
    ⟨second, "BatchNormalization", ∅, ["v", "ones", "ones", "ones", "ones"], ["y"], .unspecified⟩]

theorem batchNorms_again_a_b : ∃ n once,
    (twoNorms "a" "b").build = .ok (twoNorms "a" "b").graph ∧
    process .batchNorms ⟨(twoNorms "a" "b").graph, []⟩ = .ok n once ∧ n = 2 ∧
    Command.batchNorms.Idle once.state ∧
    ∃ later, process .batchNorms once = .ok 0 ⟨once.state, later⟩ := by
  have built : (twoNorms "a" "b").build = .ok (twoNorms "a" "b").graph := rfl
  have first : ∃ n once, process .batchNorms ⟨(twoNorms "a" "b").graph, []⟩ = .ok n once ∧
      n = 2 := by
    decide +kernel
  obtain ⟨n, once, run, count⟩ := first
  refine ⟨n, once, built, run, count, (batchNorms_again built run).2 ?_⟩
  rintro b o c ho type ⟨p, var, hp, type', data, made⟩
  have ordered : ∀ b o, (twoNorms "a" "b").graph.getOperation? b = some o →
      ∀ c p, (twoNorms "a" "b").graph.getOperation? c = some p →
        o.type = "BatchNormalization" → p.type = "BatchNormalization" →
        ∀ var ∈ p.outputs, o.inputs.head? = some var → ¬b < c := by
    simp only [getOperation?, NameMap.forall_get?_iff]
    decide +kernel
  exact ordered b o ho c p hp type type' var made data

/-- The normalization in front has the later name, so the other one waits for a second run. -/
theorem batchNorms_leave_a : (twoNorms "b" "a").build = .ok (twoNorms "b" "a").graph ∧
    ∃ counts twice, (do return (← process .batchNorms, ← process .batchNorms) :
      Formatting Float32 (Nat × Nat)) ⟨(twoNorms "b" "a").graph, []⟩ = .ok counts twice ∧
      counts = (1, 1) :=
  ⟨rfl, by decide +kernel⟩

end GraphDispatch
