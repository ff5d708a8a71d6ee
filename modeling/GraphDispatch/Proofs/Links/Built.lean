import GraphDispatch.Proofs.Links.Runs

/-!
# Graphs of documents

In the graph of a document, what an operation produces is no parameter. Later edits may
move an output to a parameter, so this holds of new graphs only.
-/

namespace GraphDispatch

variable {α β : Type} {g : Graph α}

/-- What operations produce is no parameter. -/
def Content.Active (c : Content α) : Prop :=
  ∀ {op o var d}, c.operations.get? op = some o → var ∈ o.outputs →
    c.declarations.get? var = some d → d.isParameter = false

/-- Operations that keep their outputs produce what they produced. -/
theorem Content.Active.modify {c : Content α} (h : c.Active) {op : String}
    {f : Operation α → Operation α} (outputs : ∀ o, (f o).outputs = o.outputs) :
    { c with operations := c.operations.modify op f }.Active := by
  intro n o var d ho hvar hd
  rw [NameMap.get?_modify] at ho
  split at ho
  · obtain ⟨p, hp, rfl⟩ := Option.map_eq_some_iff.1 ho
    exact h hp (outputs p ▸ hvar) hd
  · exact h ho hvar hd

namespace Graph

/-- Linked, and what operations produce is no parameter. -/
structure Live (g : Graph α) : Prop where
  linked : g.Linked
  active : g.content.Active

end Graph

open GraphDispatch.Graph

namespace Edit

variable {m : Edit α β} {E : Graph α → Content α → Prop}

theorem Effects.keeps_live (h : Effects m E)
    (active : ∀ g c, g.Live → E g c → c.Active) : Keeps Live m :=
  h.keeps (fun _ hg => hg.linked) fun g _ hg linked effect => ⟨linked, active g _ hg effect⟩

/-- An operation may be changed in everything but in what it produces. -/
theorem Modifies.keeps_live {op : String} {f : Operation α → Operation α} (h : Modifies m op f)
    (outputs : ∀ o, (f o).outputs = o.outputs) : Keeps Live m := by
  refine Effects.keeps_live h ?_
  rintro g _ hg rfl
  exact Content.Active.modify (f := f) hg.active outputs

theorem createOperation_live {op type : String} {attributes : NameMap (Attribute α)}
    {inputs outputs : List String} :
    Keeps Live (createOperation op type attributes inputs outputs) := by
  refine (createOperation_effects _ _ _ _ _).keeps_live ?_
  rintro g _ hg ⟨creatable, rfl⟩ n o var d ho hvar hd
  rw [NameMap.get?_insert] at ho
  split at ho
  · cases ho
    obtain ⟨v, hv, -, parameter⟩ := creatable.outputs_free var hvar
    rw [get?_declarations, hv] at hd
    cases hd
    exact parameter
  · exact hg.active ho hvar hd

theorem setPlatform_live {op : String} {platform : Platform} :
    Keeps Live (setPlatform (α := α) op platform) :=
  (setPlatform_modifies _ _).keeps_live fun _ => rfl

theorem markInput_live {var : String} : Keeps Live (markInput (α := α) var) := by
  refine (markInput_effects _).keeps_live ?_
  rintro g _ hg rfl
  exact hg.active

theorem markOutput_live {var : String} : Keeps Live (markOutput (α := α) var) := by
  refine (markOutput_effects _).keeps_live ?_
  rintro g _ hg rfl
  exact hg.active

end Edit

namespace Graph

theorem live_empty (name : String) : (empty name : Graph α).Live :=
  ⟨linked_empty name, fun ho _ _ => by cases ho⟩

theorem live_declare (d : Declaration α) : Keeps Live (Document.declare d) := by
  intro g hg
  simp only [Document.declare, run_bind, run_get]
  split
  · exact hg
  · rename_i fresh
    rw [run_modify, finalState_ok]
    refine ⟨hg.linked.putVariable fresh ⟨rfl, rfl⟩ fun h => by simp [h], ?_⟩
    intro op o var e ho hvar he
    have known : var ∈ g.vars := hg.linked.output_known ho hvar
    have old : var ≠ d.name := fun same => fresh (same ▸ known)
    rw [get?_declarations, getVariable?_putVariable, if_neg old, ← get?_declarations] at he
    exact hg.active ho hvar he

theorem live_construct (d : Document α) : Keeps Live d.construct := by
  refine (Keeps.forM fun d _ => live_declare d).bind fun _ => ?_
  refine (Keeps.forM fun o _ => Keeps.adaptExcept ?_).bind fun _ => Keeps.adaptExcept ?_
  · exact Edit.createOperation_live.discard.bind fun _ => Edit.setPlatform_live
  · exact (Keeps.forM fun _ _ => Edit.markInput_live).bind fun _ =>
      Keeps.forM fun _ _ => Edit.markOutput_live

theorem live_of_build {d : Document α} (h : d.build = .ok g) : g.Live :=
  keeps_build (live_construct d) (live_empty d.name) h

end Graph

end GraphDispatch
