import GraphDispatch.Proofs.Links.Built
import GraphDispatch.Proofs.Rewrite.BatchNorms

/-!
# Work on live graphs

Passes and dispatches leave a live graph live. Only one edit could do harm: an operation
that comes to produce another variable may come to produce a parameter. Folding a batch
normalization lets the operation in front of it produce what the normalization produced,
which is no parameter as long as nothing but new variables are made (`LiveWith`).
-/

namespace GraphDispatch

variable {α β γ ε σ : Type} {g : Graph α}

namespace Content

/-- The variable is declared and no parameter. -/
def Plain (c : Content α) (var : String) : Prop :=
  ∃ d, c.declarations.get? var = some d ∧ d.isParameter = false

variable {c : Content α}

theorem Active.erase (h : c.Active) (op : String) :
    { c with operations := c.operations.erase op }.Active := by
  intro n o var d ho hvar hd
  rw [NameMap.get?_erase] at ho
  split at ho
  · cases ho
  · exact h ho hvar hd

/-- Variables that nothing produces may be declared anew. -/
theorem Active.redeclare (h : c.Active) {declarations : NameMap (Declaration α)}
    (same : ∀ op o var, c.operations.get? op = some o → var ∈ o.outputs →
      ∀ d, declarations.get? var = some d → c.declarations.get? var = some d) :
    { c with declarations := declarations }.Active :=
  fun ho hvar hd => h ho hvar (same _ _ _ ho hvar _ hd)

end Content

namespace Graph

/-- Live, and the spare variables are no parameters either. -/
structure LiveWith (spare : List String) (g : Graph α) : Prop extends g.Live where
  plain : ∀ var ∈ spare, g.content.Plain var

theorem Live.with_nil (h : g.Live) : g.LiveWith [] := ⟨h, fun _ h => absurd h List.not_mem_nil⟩

end Graph

open GraphDispatch.Graph

namespace Edit

variable {spare : List String} {op new var : String} {m : Edit α β}

/-- An operation may be changed in everything but in what it produces. -/
theorem Modifies.keeps_liveWith {f : Operation α → Operation α} (h : Modifies m op f)
    (outputs : ∀ o, (f o).outputs = o.outputs) : Keeps (LiveWith spare) m := by
  refine h.keeps (fun _ hg => hg.linked) fun g g' hg linked content => ⟨⟨linked, ?_⟩, ?_⟩
  · rw [content]
    exact Content.Active.modify hg.active outputs
  · rw [content]
    exact hg.plain

theorem keeps_live_of_with (h : Keeps (LiveWith []) m) : Keeps Live m :=
  fun g hg => (h g hg.with_nil).toLive

theorem createVariable_liveWith {value : Option (Tensor α)} :
    Keeps (LiveWith spare) (createVariable var value) := by
  refine (createVariable_effects _ _).keeps (fun _ hg => hg.linked) ?_
  rintro g g' hg linked ⟨unknown, content⟩
  have old : ∀ n, n ∈ g.vars → (g.content.declarations.insert var
      ⟨var, value, value.isSome⟩).get? n = g.content.declarations.get? n := by
    intro n hn
    have other : n ≠ var := fun same => unknown (same ▸ hn)
    rw [NameMap.get?_insert, if_neg other]
  refine ⟨⟨linked, ?_⟩, ?_⟩
  · rw [content]
    refine Content.Active.redeclare hg.active fun op o n ho hn d hd => ?_
    rwa [old n (hg.linked.output_known ho hn)] at hd
  · rw [content]
    intro n hn
    obtain ⟨d, hd, plain⟩ := hg.plain n hn
    exact ⟨d, (old n (mem_declarations.1 (NameMap.mem_of_get? hd))).trans hd, plain⟩

theorem removeOperation_live : Keeps Live (removeOperation (α := α) op) := by
  refine (removeOperation_effects _).keeps_live ?_
  rintro g _ hg ⟨-, rfl⟩
  exact Content.Active.erase hg.active op

theorem removeVariable_live : Keeps Live (removeVariable (α := α) var) := by
  refine (removeVariable_effects _).keeps_live ?_
  rintro g _ hg rfl op o n d ho hn hd
  rw [NameMap.get?_erase] at hd
  split at hd
  · cases hd
  · exact hg.active ho hn hd

theorem setValue_live {value : Tensor α} : Keeps Live (setValue var value) := by
  refine (setValue_effects _ _).keeps_live ?_
  rintro g _ hg ⟨unmade, rfl⟩
  refine Content.Active.redeclare hg.active fun op o n ho hn d hd => ?_
  have other : n ≠ var := fun same => unmade op ⟨o, ho, same ▸ hn⟩
  rwa [NameMap.get?_modify, if_neg other] at hd

theorem dispatchStable_live : DispatchStable (Live (α := α)) where
  createVariable _ _ := keeps_live_of_with createVariable_liveWith
  removeOperation _ := removeOperation_live
  removeVariable _ := removeVariable_live
  replaceInput _ _ _ := (replaceInput_modifies _ _ _).keeps_live fun _ => rfl
  appendInput _ _ := (appendInput_modifies _ _).keeps_live fun _ => rfl
  setAttribute _ _ _ := (setAttribute_modifies _ _ _).keeps_live fun _ => rfl
  removeAttribute _ _ := (removeAttribute_modifies _ _).keeps_live fun _ => rfl
  setValue _ _ := setValue_live
  createOperation _ _ _ _ _ := createOperation_live
  setPlatform _ _ := setPlatform_live

theorem inputStable_liveWith : InputStable (LiveWith (α := α) spare) where
  replaceByNew _ _ _ _ := createVariable_liveWith.discard.bind fun _ =>
    (replaceInput_modifies _ _ _).keeps_liveWith fun _ => rfl
  appendNew _ _ _ _ _ := createVariable_liveWith.discard.bind fun _ =>
    (appendInput_modifies _ _).keeps_liveWith fun _ => rfl

theorem workStable_live : WorkStable (Live (α := α)) :=
  dispatchStable_live.workStable fun _ h => h.linked

/-- The new output is no parameter, so the operation may come to produce it. -/
theorem replaceOutput_leaves_live (hg : g.LiveWith [new]) (op old : String) :
    (finalState (replaceOutput op old new g)).Live := by
  refine (replaceOutput_effects op old new).leaves hg.linked hg.toLive ?_
  rintro k linked ⟨made, -, -, content⟩
  refine ⟨linked, ?_⟩
  rw [content]
  intro n o' var d ho' hvar hd
  obtain ⟨o, ho, -, -, -, outputs⟩ := operation_of_replaceOutput hg.linked made ho'
  rcases outputs var hvar with hvar | ⟨-, rfl⟩
  · exact hg.active ho hvar hd
  · obtain ⟨d', hd', plain⟩ := hg.plain var List.mem_cons_self
    cases hd.symm.trans hd'
    exact plain

end Edit

namespace Rewrite

open Edit

variable {norm : String} {f : Fusion α}

/-- The normalization goes first; what comes then starts from a graph without it. -/
theorem applyFusion_leaves [Scalar α] {P : Graph α → Prop} (hg : g.Linked)
    (plan : planFusion g norm = .ok (.fold f)) (rest : ∀ g' statistics, g'.Linked →
      g'.content = { g.content with operations := g.operations.erase norm } →
      P (finalState (absorb f statistics g'))) : P (finalState (applyFusion f g)) := by
  obtain ⟨rfl, o, _, _, _, _, _, _, _, planned⟩ := planFusion_eq_fold plan
  obtain ⟨g', run, linked, content⟩ := removeOperation_yields hg planned.norm
  simp only [applyFusion_eq, run_bind, run_get, discard_of_ok run]
  exact rest g' _ linked content

theorem applyFusion_leaves_live [Scalar α] (hg : g.Live)
    (plan : planFusion g norm = .ok (.fold f)) :
    (finalState (applyFusion f g)).Live := by
  obtain ⟨rfl, o, p, _, _, _, _, _, _, planned⟩ := planFusion_eq_fold plan
  have made : f.output ∈ o.outputs := by simp [planned.outputs]
  obtain ⟨v, hv⟩ := mem_vars_iff.1 (hg.linked.output_known planned.norm made)
  have declared : g.content.declarations.get? f.output = some v.declaration := by
    rw [get?_declarations, hv, Option.map_some]
  have plain : ∀ n ∈ [f.output], g.content.Plain n := by
    intro n hn
    cases List.mem_singleton.1 hn
    exact ⟨v.declaration, declared, hg.active planned.norm made declared⟩
  refine applyFusion_leaves hg.linked plan fun g' statistics linked content => ?_
  have left : g'.LiveWith [f.output] :=
    ⟨⟨linked, content ▸ Content.Active.erase hg.active f.norm⟩, content ▸ plain⟩
  have parent : f.parent ∈ g.operationsOfType p.type :=
    hg.linked.mem_operationsOfType.2 ⟨p, planned.parent, rfl⟩
  exact workStable_live.absorb_leaves inputStable_liveWith (fun _ h => h.toLive) ⟨hg, plain⟩ parent
    (type_of_channelAxis planned.channel).1 (fun k hk => replaceOutput_leaves_live hk _ _)
    removeVariable_live statistics left

theorem batchNorms_live [Scalar α] : Task.Keeps Live (batchNorms : Rewrite α Nat) :=
  keeps_countChanges fun _ _ _ _ => keeps_foldBatchNorm fun _ _ => applyFusion_leaves_live

end Rewrite

end GraphDispatch
