import GraphDispatch.Proofs.Links.Operations
import GraphDispatch.Proofs.Success

/-!
# Effects of edits

An edit of a linked graph has one effect or none. What `Effects m E` says of an edit decides
which properties outlast it, whether it succeeds or not, and what holds where it succeeds.
-/

namespace GraphDispatch

variable {α β γ : Type} {g : Graph α}

namespace Edit

theorem Yields.ensures {m : Edit α β} {b : β} {c : Content α} (h : Yields m g b c) :
    Ensures m g fun _ g' => g'.Linked ∧ g'.content = c := by
  obtain ⟨g', run, linked, content⟩ := h
  intro _ _ run'
  rw [run] at run'
  cases run'
  exact ⟨linked, content⟩

/-- On a linked graph the edit succeeds and leaves a linked graph whose content `E` allows, or
it is refused. -/
def Effects (m : Edit α β) (E : Graph α → Content α → Prop) : Prop :=
  ∀ g : Graph α, g.Linked → (∃ b c, Yields m g b c ∧ E g c) ∨ Refuses m g

/-- The edit changes one operation. -/
abbrev Modifies (m : Edit α β) (op : String) (f : Operation α → Operation α) : Prop :=
  Effects m fun g c => c = { g.content with operations := g.operations.modify op f }

namespace Effects

variable {m : Edit α β} {E : Graph α → Content α → Prop} {P : Graph α → Prop}

theorem mono {F : Graph α → Content α → Prop} (h : Effects m E)
    (weaken : ∀ g c, E g c → F g c) : Effects m F := by
  intro g hg
  rcases h g hg with ⟨b, c, yields, effect⟩ | refuses
  · exact Or.inl ⟨b, c, yields, weaken g c effect⟩
  · exact Or.inr refuses

theorem discard (h : Effects m E) : Effects (discard m) E := by
  intro g hg
  rcases h g hg with ⟨b, c, ⟨g', run, left⟩, effect⟩ | ⟨e, run⟩
  · exact Or.inl ⟨(), c, ⟨g', discard_of_ok run, left⟩, effect⟩
  · exact Or.inr ⟨e, discard_of_error run⟩

theorem bind_leaves {f : β → Edit α γ} (h : Effects m E) (hg : g.Linked) (same : P g)
    (changed : ∀ b g', g'.Linked → E g g'.content → P (finalState (f b g'))) :
    P (finalState ((m >>= f) g)) := by
  rcases h g hg with ⟨b, c, ⟨g', run, linked, rfl⟩, effect⟩ | ⟨e, run⟩
  · rw [bind_of_ok run]
    exact changed b g' linked effect
  · rw [bind_of_error run]
    exact same

theorem leaves (h : Effects m E) (hg : g.Linked) (same : P g)
    (changed : ∀ g', g'.Linked → E g g'.content → P g') : P (finalState (m g)) := by
  rcases h g hg with ⟨b, c, ⟨g', run, linked, rfl⟩, effect⟩ | ⟨e, run⟩
  · rw [run]
    exact changed g' linked effect
  · rw [run]
    exact same

theorem keeps (h : Effects m E) (linked : ∀ g, P g → g.Linked)
    (step : ∀ g g', P g → g'.Linked → E g g'.content → P g') : Keeps P m :=
  fun g hg => h.leaves (linked g hg) hg fun g' => step g g' hg

theorem keeps_linked (h : Effects m E) : Keeps Graph.Linked m :=
  h.keeps (fun _ hg => hg) fun _ _ _ linked _ => linked

theorem ensures (h : Effects m E) (hg : g.Linked) :
    Ensures m g fun _ g' => g'.Linked ∧ E g g'.content := by
  rcases h g hg with ⟨b, c, yields, effect⟩ | ⟨e, refused⟩
  · refine yields.ensures.mono fun _ g' done => ⟨done.1, ?_⟩
    rw [done.2]
    exact effect
  · intro _ _ run
    rw [refused] at run
    cases run

end Effects

theorem createVariable_effects (var : String) (value : Option (Tensor α)) :
    Effects (createVariable var value) fun g c => var ∉ g.vars ∧ c = { g.content with
      declarations := g.content.declarations.insert var ⟨var, value, value.isSome⟩ } := by
  intro g hg
  by_cases known : var ∈ g.vars
  · exact Or.inr (createVariable_refuses known)
  · exact Or.inl ⟨_, _, createVariable_yields hg known, known, rfl⟩

theorem removeVariable_effects (var : String) :
    Effects (α := α) (removeVariable var) fun g c => c = { g.content with
      inputs := g.inputs.filter (· ≠ var)
      outputs := g.outputs.filter (· ≠ var)
      declarations := g.content.declarations.erase var } := by
  intro g hg
  by_cases h : var ∈ g.vars ∧ Unlinked g var
  · obtain ⟨v, yields⟩ := removeVariable_yields hg h.1 h.2
    exact Or.inl ⟨_, _, yields, rfl⟩
  · exact Or.inr (removeVariable_refuses hg h)

theorem setValue_effects (var : String) (value : Tensor α) :
    Effects (setValue var value) fun g c => (∀ op, ¬g.Produces op var) ∧ c = { g.content with
      declarations := g.content.declarations.modify var
        fun d => { d with value := some value, isParameter := true } } := by
  intro g hg
  by_cases h : var ∈ g.vars ∧ ∀ op, ¬g.Produces op var
  · exact Or.inl ⟨_, _, setValue_yields hg h.1 h.2, h.2, rfl⟩
  · exact Or.inr (setValue_refuses hg h)

theorem createOperation_effects (op type : String) (attributes : NameMap (Attribute α))
    (inputs outputs : List String) :
    Effects (createOperation op type attributes inputs outputs) fun g c =>
      Creatable g op inputs outputs ∧ c = { g.content with
        operations := g.operations.insert op
          ⟨op, type, attributes, inputs, outputs, .unspecified⟩ } := by
  intro g hg
  by_cases h : Creatable g op inputs outputs
  · exact Or.inl ⟨_, _, createOperation_yields hg h, h, rfl⟩
  · exact Or.inr (createOperation_refuses h)

theorem removeOperation_effects (op : String) :
    Effects (α := α) (removeOperation op) fun g c => op ∈ g.operations ∧
      c = { g.content with operations := g.operations.erase op } := by
  intro g hg
  by_cases h : op ∈ g.operations
  · obtain ⟨o, ho⟩ := Graph.mem_operations_iff.1 h
    exact Or.inl ⟨_, _, removeOperation_yields hg ho, h, rfl⟩
  · exact Or.inr (removeOperation_refuses h)

theorem replaceOutput_effects (op old new : String) :
    Effects (α := α) (replaceOutput op old new) fun g c => g.Produces op old ∧ new ∈ g.vars ∧
      (∀ p, ¬g.Produces p new) ∧ c = { g.content with
        operations := g.operations.modify op
          fun o => { o with outputs := o.outputs.replace old new } } := by
  intro g hg
  by_cases h : g.Produces op old ∧ new ∈ g.vars ∧ ∀ p, ¬g.Produces p new
  · exact Or.inl ⟨_, _, replaceOutput_yields hg h.1 h.2.1 h.2.2, h.1, h.2.1, h.2.2, rfl⟩
  · exact Or.inr (replaceOutput_refuses hg h)

/-- Where an output is replaced, every operation stays what it is but for that output. -/
theorem operation_of_replaceOutput {op old new n : String} {o' : Operation α} (hg : g.Linked)
    (made : g.Produces op old) (ho' : (g.operations.modify op
      fun o => { o with outputs := o.outputs.replace old new }).get? n = some o') :
    ∃ o, g.getOperation? n = some o ∧ o'.type = o.type ∧ o'.inputs = o.inputs ∧
      o'.outputs.length = o.outputs.length ∧
      ∀ var ∈ o'.outputs, var ∈ o.outputs ∨ n = op ∧ var = new := by
  rw [NameMap.get?_modify] at ho'
  split at ho'
  · obtain ⟨o, ho, rfl⟩ := Option.map_eq_some_iff.1 ho'
    subst n
    obtain ⟨p, hp, hold⟩ := made
    cases hp.symm.trans ho
    refine ⟨o, ho, rfl, rfl, List.length_replace, fun var hvar => ?_⟩
    rcases (mem_replace (hg.outputs_nodup ho) hold).1 hvar with rfl | ⟨hvar, -⟩
    · exact Or.inr ⟨rfl, rfl⟩
    · exact Or.inl hvar
  · exact ⟨o', ho', rfl, rfl, rfl, fun _ => Or.inl⟩

theorem replaceInput_effects (op old new : String) :
    Effects (α := α) (replaceInput op old new) fun g c => g.Reads op old ∧
      c = { g.content with operations := g.operations.modify op (Operation.redirect old new) } := by
  intro g hg
  by_cases h : g.Reads op old ∧ new ∈ g.vars
  · exact Or.inl ⟨_, _, replaceInput_yields hg h.1 h.2, h.1, rfl⟩
  · exact Or.inr (replaceInput_refuses h)

theorem replaceInput_modifies (op old new : String) :
    Modifies (α := α) (replaceInput op old new) op (Operation.redirect old new) :=
  (replaceInput_effects op old new).mono fun _ _ effect => effect.2

theorem appendInput_modifies (op var : String) :
    Modifies (α := α) (appendInput op var) op fun o => { o with inputs := o.inputs ++ [var] } := by
  intro g hg
  by_cases h : op ∈ g.operations ∧ var ∈ g.vars
  · exact Or.inl ⟨_, _, appendInput_yields hg h.1 h.2, rfl⟩
  · exact Or.inr (appendInput_refuses h)

theorem truncateInputs_modifies (op : String) (keep : Nat) :
    Modifies (α := α) (truncateInputs op keep) op
      fun o => { o with inputs := o.inputs.take keep } := by
  intro g hg
  by_cases h : op ∈ g.operations
  · exact Or.inl ⟨_, _, truncateInputs_yields hg h keep, rfl⟩
  · exact Or.inr (truncateInputs_refuses h keep)

theorem setAttribute_modifies (op key : String) (value : Attribute α) :
    Modifies (setAttribute op key value) op
      fun o => { o with attributes := o.attributes.insert key value } := by
  intro g hg
  by_cases h : op ∈ g.operations
  · exact Or.inl ⟨_, _, setAttribute_yields hg h key value, rfl⟩
  · exact Or.inr (setAttribute_refuses h key value)

theorem removeAttribute_modifies (op key : String) :
    Modifies (α := α) (removeAttribute op key) op
      fun o => { o with attributes := o.attributes.erase key } := by
  intro g hg
  by_cases h : op ∈ g.operations
  · obtain ⟨o, ho⟩ := Graph.mem_operations_iff.1 h
    exact Or.inl ⟨_, _, removeAttribute_yields hg ho key, rfl⟩
  · exact Or.inr (removeAttribute_refuses h key)

theorem setPlatform_modifies (op : String) (platform : Platform) :
    Modifies (α := α) (setPlatform op platform) op fun o => { o with platform := platform } := by
  intro g hg
  by_cases h : op ∈ g.operations
  · exact Or.inl ⟨_, _, setPlatform_yields hg h platform, rfl⟩
  · exact Or.inr (setPlatform_refuses h platform)

theorem markInput_effects (var : String) : Effects (α := α) (markInput var) fun g c =>
    c = { g.content with inputs := addOnce var g.inputs } := by
  intro g hg
  by_cases known : var ∈ g.vars
  · exact Or.inl ⟨_, _, markInput_yields hg known, rfl⟩
  · exact Or.inr (markInput_refuses known)

theorem markOutput_effects (var : String) : Effects (α := α) (markOutput var) fun g c =>
    c = { g.content with outputs := addOnce var g.outputs } := by
  intro g hg
  by_cases known : var ∈ g.vars
  · exact Or.inl ⟨_, _, markOutput_yields hg known, rfl⟩
  · exact Or.inr (markOutput_refuses known)

end Edit

end GraphDispatch
