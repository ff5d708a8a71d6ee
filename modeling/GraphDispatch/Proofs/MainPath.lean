import GraphDispatch.Dispatch.MainPath
import GraphDispatch.Proofs.Order
import GraphDispatch.Proofs.Reach

/-!
# The main path follows its rule
-/

namespace GraphDispatch

namespace Dispatch

variable {α : Type} {g : Graph α} {shapes : List String} {op var : String}

/-- Numbers arrive at a variable. -/
def Fed (g : Graph α) (shapes : List String) (var : String) : Prop :=
  var ∈ g.inputs ∨ ∃ op, OnMainPath g shapes op ∧ var ∈ outputsOf g op

theorem mem_outputsOf : var ∈ outputsOf g op ↔ g.Produces op var := by
  unfold outputsOf Graph.Produces
  cases g.getOperation? op <;> simp

theorem mem_readers (hg : g.Linked) :
    op ∈ readers g shapes var ↔ carriesNumbers g shapes var = true ∧ g.Reads op var := by
  unfold readers
  split
  · rename_i carries
    rw [hg.mem_consumersOf]
    exact ⟨fun reads => ⟨carries, reads⟩, fun h => h.2⟩
  · rename_i carries
    exact ⟨fun h => (by cases h), fun h => absurd h.1 carries⟩

theorem onMainPath_iff : OnMainPath g shapes op ↔ ∃ var, Fed g shapes var ∧
    op ∈ readers g shapes var := by
  constructor
  · intro h
    cases h with
    | input hvar reads => exact ⟨_, Or.inl hvar, reads⟩
    | step before made reads => exact ⟨_, Or.inr ⟨_, before, made⟩, reads⟩
  · rintro ⟨var, hvar | ⟨op', before, made⟩, reads⟩
    · exact .input hvar reads
    · exact .step before made reads

/-- The search finds the main path. -/
theorem mem_mainPath (hg : g.Linked) : op ∈ mainPath g shapes ↔ OnMainPath g shapes op := by
  have known : ∀ {n}, n ∈ g.vars → n ∈ g.vars.names := NameMap.mem_names.2
  unfold mainPath
  simp only [List.mem_flatMap, mem_reach]
  constructor
  · rintro ⟨var, reached, reads⟩
    have fed : Fed g shapes var := by
      clear reads
      induction reached with
      | start queued => exact Or.inl queued
      | step _ edge _ ih =>
        obtain ⟨p, reads, made⟩ := List.mem_flatMap.1 edge
        exact Or.inr ⟨p, onMainPath_iff.2 ⟨_, ih, reads⟩, made⟩
    exact onMainPath_iff.2 ⟨var, fed, reads⟩
  · intro h
    induction h with
    | input hvar reads => exact ⟨_, .start hvar (known (hg.inputs_known _ hvar)), reads⟩
    | @step op var next _ made reads ih =>
      obtain ⟨before, reached, reads'⟩ := ih
      have declared := hg.produces_known (mem_outputsOf.1 made)
      exact ⟨var, .step reached (List.mem_flatMap.2 ⟨op, reads', made⟩) (known declared), reads⟩

end Dispatch

end GraphDispatch
