import GraphDispatch.Proofs.Links.Runs

/-!
# Operations under rewrites

No rewrite adds an operation, changes the type of one or takes an input away.
-/

namespace GraphDispatch

variable {α β : Type}

/-- Every operation of `m'` stems from one of `m`: it has its type and at least as many inputs. -/
def Stems (m m' : NameMap (Operation α)) : Prop :=
  ∀ n o', m'.get? n = some o' →
    ∃ o, m.get? n = some o ∧ o'.type = o.type ∧ o.inputs.length ≤ o'.inputs.length

namespace Stems

variable {m m' m'' : NameMap (Operation α)}

theorem refl (m : NameMap (Operation α)) : Stems m m :=
  fun _ o ho => ⟨o, ho, rfl, Nat.le_refl _⟩

theorem trans (first : Stems m m') (second : Stems m' m'') : Stems m m'' := by
  intro n o'' ho''
  obtain ⟨o', ho', type', inputs'⟩ := second n o'' ho''
  obtain ⟨o, ho, type, inputs⟩ := first n o' ho'
  exact ⟨o, ho, type'.trans type, Nat.le_trans inputs inputs'⟩

theorem erase (m : NameMap (Operation α)) (op : String) : Stems m (m.erase op) := by
  intro n o ho
  rw [NameMap.get?_erase] at ho
  split at ho
  · cases ho
  · exact ⟨o, ho, rfl, Nat.le_refl _⟩

theorem modify (m : NameMap (Operation α)) (op : String) {f : Operation α → Operation α}
    (hf : ∀ o, (f o).type = o.type ∧ o.inputs.length ≤ (f o).inputs.length) :
    Stems m (m.modify op f) := by
  intro n o' ho'
  rw [NameMap.get?_modify] at ho'
  split at ho'
  · obtain ⟨o, ho, rfl⟩ := Option.map_eq_some_iff.1 ho'
    exact ⟨o, ho, hf o⟩
  · exact ⟨o', ho', rfl, Nat.le_refl _⟩

end Stems

namespace Edit

variable {e : Edit α β} {E : Graph α → Content α → Prop} {m : NameMap (Operation α)}

theorem Effects.keeps_stems (h : Effects e E)
    (step : ∀ g c, E g c → Stems g.operations c.operations) :
    Keeps (fun g => g.Linked ∧ Stems m g.operations) e := by
  refine h.keeps (fun _ hg => hg.1) ?_
  rintro g g' ⟨-, stems⟩ linked effect
  exact ⟨linked, stems.trans (step g _ effect)⟩

theorem Modifies.keeps_stems {op : String} {f : Operation α → Operation α} (h : Modifies e op f)
    (hf : ∀ o, (f o).type = o.type ∧ o.inputs.length ≤ (f o).inputs.length) :
    Keeps (fun g => g.Linked ∧ Stems m g.operations) e := by
  refine Effects.keeps_stems h ?_
  rintro g _ rfl
  exact .modify _ _ hf

theorem rewriteStable_stems (m : NameMap (Operation α)) :
    RewriteStable fun g : Graph α => g.Linked ∧ Stems m g.operations where
  createVariable _ _ := (createVariable_effects _ _).keeps_stems (by
    rintro g _ ⟨-, rfl⟩
    exact .refl _)
  removeOperation _ := (removeOperation_effects _).keeps_stems (by
    rintro g _ ⟨-, rfl⟩
    exact .erase _ _)
  removeVariable _ := (removeVariable_effects _).keeps_stems (by rintro g _ rfl; exact .refl _)
  replaceInput _ _ _ := (replaceInput_modifies _ _ _).keeps_stems fun o =>
    ⟨rfl, Nat.le_of_eq (List.length_map _).symm⟩
  replaceOutput _ _ _ := (replaceOutput_effects _ _ _).keeps_stems (by
    rintro g _ ⟨-, -, -, rfl⟩
    exact .modify _ _ fun o => ⟨rfl, Nat.le_refl _⟩)
  appendInput _ _ := (appendInput_modifies _ _).keeps_stems fun o => ⟨rfl, by simp⟩
  setAttribute _ _ _ := (setAttribute_modifies _ _ _).keeps_stems fun o => ⟨rfl, Nat.le_refl _⟩
  removeAttribute _ _ := (removeAttribute_modifies _ _).keeps_stems fun o => ⟨rfl, Nat.le_refl _⟩
  setValue _ _ := (setValue_effects _ _).keeps_stems (by rintro g _ ⟨-, rfl⟩; exact .refl _)

end Edit

end GraphDispatch
