import GraphDispatch.NameMap

/-!
# Look-ups in changed maps
-/

namespace GraphDispatch.NameMap

universe u v w
variable {α : Type u} {β : Type v} {γ : Type w}

theorem get?_eq_none_iff {m : NameMap α} {k : String} : m.get? k = none ↔ k ∉ m := by
  rw [mem_iff]
  cases m.get? k <;> simp

theorem mem_of_get? {m : NameMap α} {k : String} {a : α} (h : m.get? k = some a) : k ∈ m :=
  mem_iff.2 ⟨a, h⟩

@[simp] theorem contains_eq_false_iff {m : NameMap α} {k : String} :
    m.contains k = false ↔ k ∉ m := Bool.eq_false_iff

theorem mem_insert {m : NameMap α} {k j : String} {a : α} :
    j ∈ m.insert k a ↔ j = k ∨ j ∈ m := by
  simp only [mem_iff, get?_insert]
  by_cases h : j = k <;> simp [h]

theorem mem_erase {m : NameMap α} {k j : String} : j ∈ m.erase k ↔ j ≠ k ∧ j ∈ m := by
  simp only [mem_iff, get?_erase]
  by_cases h : j = k <;> simp [h]

@[simp] theorem mem_mapEntries {f : String → α → β} {m : NameMap α} {j : String} :
    j ∈ m.mapEntries f ↔ j ∈ m := by
  change (Option.isSome _ = true) ↔ (Option.isSome _ = true)
  rw [get?_mapEntries, Option.isSome_map]

@[simp] theorem mem_modify {m : NameMap α} {k j : String} {f : α → α} :
    j ∈ m.modify k f ↔ j ∈ m := mem_mapEntries

theorem get?_mapEntries_eq_some {f : String → α → β} {m : NameMap α} {k : String} {b : β} :
    (m.mapEntries f).get? k = some b ↔ ∃ a, m.get? k = some a ∧ f k a = b := by
  rw [get?_mapEntries, Option.map_eq_some_iff]

@[simp] theorem mapEntries_mapEntries (f : String → α → β) (g : String → β → γ) (m : NameMap α) :
    (m.mapEntries f).mapEntries g = m.mapEntries fun k a => g k (f k a) :=
  ext_get? fun k => by simp [get?_mapEntries, Function.comp_def]

theorem mapEntries_congr {f g : String → α → β} {m : NameMap α}
    (h : ∀ k a, m.get? k = some a → f k a = g k a) : m.mapEntries f = m.mapEntries g :=
  ext_get? fun k => by
    rw [get?_mapEntries, get?_mapEntries]
    exact Option.map_congr fun a ha => h k a ha

theorem names_mapEntries (f : String → α → β) (m : NameMap α) :
    (m.mapEntries f).names = m.names := by
  simp [names, mapEntries]

theorem length_names (m : NameMap α) : m.names.length = m.size := by
  simp [names, size]

theorem values_mapEntries (f : α → β) (m : NameMap α) :
    (m.mapEntries fun _ a => f a).values = m.values.map f := by
  simp [values, mapEntries]

theorem mapEntries_eq_self {f : String → α → α} {m : NameMap α}
    (h : ∀ k a, m.get? k = some a → f k a = a) : m.mapEntries f = m :=
  ext_get? fun k => by
    rw [get?_mapEntries]
    cases hk : m.get? k with
    | none => rfl
    | some a => simp [h k a hk]

theorem modify_eq_self {m : NameMap α} {k : String} {f : α → α} {a : α} (h : m.get? k = some a)
    (hf : f a = a) : m.modify k f = m :=
  mapEntries_eq_self fun j b hb => by
    split
    · cases (‹j = k› ▸ hb).symm.trans h
      exact hf
    · rfl

theorem insert_eq_self {m : NameMap α} {k : String} {a : α} (h : m.get? k = some a) :
    m.insert k a = m :=
  ext_get? fun j => by
    rw [get?_insert]
    split
    · exact ‹j = k› ▸ h.symm
    · rfl

theorem erase_eq_self {m : NameMap α} {k : String} (h : k ∉ m) : m.erase k = m :=
  ext_get? fun j => by
    rw [get?_erase]
    split
    · rename_i same
      rw [same, get?_eq_none_iff.2 h]
    · rfl

theorem modify_insert (m : NameMap α) (k : String) (a : α) (f : α → α) :
    (m.insert k a).modify k f = m.insert k (f a) :=
  ext_get? fun j => by
    rw [get?_modify, get?_insert, get?_insert]
    split <;> rfl

theorem erase_insert {m : NameMap α} {k : String} (h : k ∉ m) (a : α) :
    (m.insert k a).erase k = m :=
  ext_get? fun j => by
    rw [get?_erase, get?_insert]
    split
    · rename_i same
      rw [same, get?_eq_none_iff.2 h]
    · rfl

theorem insert_erase {m : NameMap α} {k : String} {a : α} (h : m.get? k = some a) (f : α → α) :
    (m.erase k).insert k (f a) = m.modify k f :=
  ext_get? fun j => by
    rw [get?_insert, get?_erase, get?_modify]
    split
    · rename_i same
      rw [same, h, Option.map_some]
    · rfl

theorem modify_modify (m : NameMap α) (k : String) (f h : α → α) :
    (m.modify k f).modify k h = m.modify k (h ∘ f) :=
  ext_get? fun j => by
    rw [get?_modify, get?_modify, get?_modify]
    split
    · rw [Option.map_map]
    · rfl

theorem mapEntries_modify {f : α → β} {h : α → α} {k : β → β} (same : ∀ a, f (h a) = k (f a))
    (m : NameMap α) (n : String) :
    (m.modify n h).mapEntries (fun _ a => f a) = (m.mapEntries fun _ a => f a).modify n k :=
  ext_get? fun j => by
    rw [get?_mapEntries, get?_modify, get?_modify, get?_mapEntries]
    split
    · simp [Function.comp_def, same]
    · rfl

theorem mapEntries_insert (f : String → α → β) (m : NameMap α) (k : String) (a : α) :
    (m.insert k a).mapEntries f = (m.mapEntries f).insert k (f k a) :=
  ext_get? fun j => by
    rw [get?_mapEntries, get?_insert, get?_insert, get?_mapEntries]
    by_cases h : j = k <;> simp [h]

theorem mapEntries_erase (f : String → α → β) (m : NameMap α) (k : String) :
    (m.erase k).mapEntries f = (m.mapEntries f).erase k :=
  ext_get? fun j => by
    rw [get?_mapEntries, get?_erase, get?_erase, get?_mapEntries]
    by_cases h : j = k <;> simp [h]

theorem forall_get?_iff {m : NameMap α} {P : String → α → Prop} :
    (∀ k a, m.get? k = some a → P k a) ↔ ∀ e ∈ m.entries, P e.1 e.2 := by
  simp only [get?_eq_some_iff]
  exact ⟨fun h e he => h e.1 e.2 he, fun h k a hka => h (k, a) hka⟩

theorem find_eq_none_iff {k : String} {l : List (String × α)} :
    find k l = none ↔ k ∉ l.map (·.1) := by
  induction l with
  | nil => simp [find]
  | cons e l ih =>
    by_cases h : e.1 = k
    · simp [find, h]
    · simp [find, h, ih, Ne.symm h]

/-- Of entries with different names all are found after they are put into a map. -/
theorem get?_foldl_insert {l : List (String × α)} (nodup : (l.map (·.1)).Nodup)
    (m : NameMap α) (n : String) :
    (l.foldl (fun m e => m.insert e.1 e.2) m).get? n = (find n l).or (m.get? n) := by
  induction l generalizing m with
  | nil => rfl
  | cons e l ih =>
    obtain ⟨fresh, nodup⟩ := List.nodup_cons.1 nodup
    rw [List.foldl_cons, ih nodup, get?_insert, find]
    by_cases hn : n = e.1
    · subst hn
      simp [find_eq_none_iff.2 fresh]
    · simp [hn, Ne.symm hn]

theorem find_eq_some_iff_of_nodup {k : String} {a : α} {l : List (String × α)}
    (nodup : (l.map (·.1)).Nodup) : find k l = some a ↔ (k, a) ∈ l := by
  induction l with
  | nil => simp [find]
  | cons e l ih =>
    obtain ⟨fresh, nodup⟩ := List.nodup_cons.1 nodup
    by_cases h : e.1 = k
    · subst h
      have absent : (e.1, a) ∉ l := fun ha => fresh (List.mem_map.2 ⟨_, ha, rfl⟩)
      rw [find, if_pos rfl, Option.some.injEq, List.mem_cons, or_iff_left absent, Prod.ext_iff]
      exact ⟨fun h => ⟨rfl, h.symm⟩, fun h => h.2.symm⟩
    · have other : (k, a) ≠ e := fun same => h (congrArg Prod.fst same).symm
      rw [find, if_neg h, ih nodup, List.mem_cons, or_iff_right other]

theorem get?_ofList_eq_some {l : List (String × α)} (nodup : (l.map (·.1)).Nodup) {k : String}
    {a : α} : (ofList l).get? k = some a ↔ (k, a) ∈ l := by
  rw [ofList, get?_foldl_insert nodup, get?_empty, Option.or_none,
    find_eq_some_iff_of_nodup nodup]

/-- The order of entries with different names does not matter. -/
theorem ofList_perm {l r : List (String × α)} (nodup : (l.map (·.1)).Nodup) (h : l.Perm r) :
    ofList l = ofList r :=
  ext_get? fun k => Option.ext fun a => by
    rw [get?_ofList_eq_some nodup, get?_ofList_eq_some ((h.map _).nodup_iff.1 nodup), h.mem_iff]

end GraphDispatch.NameMap
