import GraphDispatch.Dispatch.Shape
import GraphDispatch.Proofs.Order

/-!
# Shape computations follow their rule

One pass in order of execution finds all variables that carry shapes, since what an
operation reads is settled before its turn.
-/

namespace GraphDispatch.Dispatch

variable {α : Type} {g : Graph α} {op var : String} {o : Operation α}

theorem ShapeDerived.produced (h : ShapeDerived g var) : ∃ op, g.Produces op var := by
  cases h with
  | source ho _ hvar => exact ⟨_, _, ho, hvar⟩
  | activations ho _ _ hvar => exact ⟨_, _, ho, hvar⟩

/-- The rule for one operation. -/
def MakesShapes (g : Graph α) (o : Operation α) : Prop :=
  o.type ∈ shapeSourceTypes ∨ activations g o ≠ [] ∧ ∀ a ∈ activations g o, ShapeDerived g a

theorem shapeDerived_output (hg : g.Linked) (ho : g.getOperation? op = some o)
    (hvar : var ∈ o.outputs) : ShapeDerived g var ↔ MakesShapes g o := by
  constructor
  · intro h
    cases h with
    | source ho' type hvar' =>
      cases hg.produces_unique ⟨o, ho, hvar⟩ ⟨_, ho', hvar'⟩
      cases ho.symm.trans ho'
      exact Or.inl type
    | activations ho' some all hvar' =>
      cases hg.produces_unique ⟨o, ho, hvar⟩ ⟨_, ho', hvar'⟩
      cases ho.symm.trans ho'
      exact Or.inr ⟨some, all⟩
  · rintro (type | ⟨some, all⟩)
    · exact .source ho type hvar
    · exact .activations ho some all hvar

theorem yieldsShapes_iff {derived : List String}
    (settled : ∀ a ∈ activations g o, a ∈ derived ↔ ShapeDerived g a) :
    yieldsShapes g derived o = true ↔ MakesShapes g o := by
  have all : (∀ a ∈ activations g o, a ∈ derived) ↔ ∀ a ∈ activations g o, ShapeDerived g a :=
    forall₂_congr settled
  unfold yieldsShapes MakesShapes
  simp [all]

/-- After the operations `done`, the shapes among their outputs are known. -/
theorem extendShapes_spec (hg : g.Linked) {order : List String} (inOrder : g.ListsInOrder order)
    (done rest : List String) (split : order = done ++ rest) :
    var ∈ done.foldl (extendShapes g) [] ↔
      ShapeDerived g var ∧ ∃ op ∈ done, g.Produces op var := by
  induction done using List.reverseRecOn generalizing rest var with
  | nil => simp
  | append_singleton done op ih =>
    have split' : order = done ++ op :: rest := by rw [split, List.append_assoc]; rfl
    have known : op ∈ g.operations := (inOrder.mem_iff op).1 (by rw [split']; simp)
    obtain ⟨o, ho⟩ := Graph.mem_operations_iff.1 known
    have before : ∀ a, a ∈ done.foldl (extendShapes g) [] ↔
        ShapeDerived g a ∧ ∃ op ∈ done, g.Produces op a := fun a => ih (op :: rest) split'
    -- what the operation reads comes from operations that are done
    have settled : ∀ a ∈ activations g o,
        a ∈ done.foldl (extendShapes g) [] ↔ ShapeDerived g a := by
      intro a ha
      rw [before]
      refine ⟨fun h => h.1, fun h => ⟨h, ?_⟩⟩
      obtain ⟨p, produces⟩ := h.produced
      have edge := hg.feeds_iff.2 ⟨a, produces, o, ho, (List.mem_filter.1 ha).1⟩
      exact ⟨p, inOrder.producers_first done op rest split' p edge, produces⟩
    rw [List.foldl_append, List.foldl_cons, List.foldl_nil]
    have outputs : (∃ p ∈ done ++ [op], g.Produces p var) ↔
        (∃ p ∈ done, g.Produces p var) ∨ var ∈ o.outputs := by
      simp only [List.mem_append, List.mem_singleton]
      constructor
      · rintro ⟨p, hp | rfl, produces⟩
        · exact Or.inl ⟨p, hp, produces⟩
        · obtain ⟨o', ho', hvar⟩ := produces
          rw [ho] at ho'
          cases ho'
          exact Or.inr hvar
      · rintro (⟨p, hp, produces⟩ | hvar)
        · exact ⟨p, Or.inl hp, produces⟩
        · exact ⟨op, Or.inr rfl, o, ho, hvar⟩
    have step : ∀ derived, extendShapes g derived op =
        if yieldsShapes g derived o then derived ++ o.outputs else derived := fun derived => by
      rw [extendShapes, ho]
    rw [outputs, and_or_left, ← before, step]
    by_cases yields : yieldsShapes g (done.foldl (extendShapes g) []) o = true
    · rw [if_pos yields, List.mem_append]
      refine or_congr Iff.rfl ⟨fun hvar => ⟨?_, hvar⟩, fun h => h.2⟩
      exact (shapeDerived_output hg ho hvar).2 ((yieldsShapes_iff settled).1 yields)
    · rw [if_neg yields]
      refine ⟨Or.inl, fun h => h.elim id fun ⟨derived, hvar⟩ => ?_⟩
      exact absurd ((yieldsShapes_iff settled).2 ((shapeDerived_output hg ho hvar).1 derived)) yields

/-- The pass succeeds on a graph without cycles and finds what the rule says. -/
theorem shapeDerived_ok (hg : g.Linked) (acyclic : g.Acyclic) :
    ∃ shapes, shapeDerived g = .ok shapes ∧ ∀ var, var ∈ shapes ↔ ShapeDerived g var := by
  obtain ⟨order, run, inOrder⟩ := hg.executionOrder_ok acyclic
  refine ⟨order.foldl (extendShapes g) [], ?_, fun var => ?_⟩
  · unfold shapeDerived
    rw [run]
    rfl
  · rw [extendShapes_spec hg inOrder order [] (List.append_nil order).symm]
    refine ⟨fun h => h.1, fun h => ⟨h, ?_⟩⟩
    obtain ⟨op, produces⟩ := h.produced
    obtain ⟨o, ho, -⟩ := id produces
    exact ⟨op, (inOrder.mem_iff op).2 (Graph.mem_operations_iff.2 ⟨o, ho⟩), produces⟩

/-- The pass needs an order of execution. -/
theorem acyclic_of_shapeDerived (hg : g.Linked) {shapes : List String}
    (h : shapeDerived g = .ok shapes) : g.Acyclic := by
  cases run : g.executionOrder with
  | ok order => exact (hg.listsInOrder run).acyclic
  | error e =>
    unfold shapeDerived at h
    rw [run] at h
    cases h

end GraphDispatch.Dispatch
