/-!
# Finite maps from names

A map keeps its entries strictly ascending by name, in code point order, so
two maps are equal exactly when every look-up agrees (`NameMap.ext_get?`).
-/

namespace GraphDispatch

universe u v

/-- A finite map whose entries are listed in the order of their names. -/
structure NameMap (α : Type u) where
  entries : List (String × α)
  ascending : entries.Pairwise (·.1 < ·.1) := by decide

namespace NameMap

variable {α : Type u} {β : Type v}

def empty : NameMap α := ⟨[], .nil⟩

instance : EmptyCollection (NameMap α) := ⟨empty⟩
instance : Inhabited (NameMap α) := ⟨empty⟩

instance [BEq α] : BEq (NameMap α) := ⟨fun m n => m.entries == n.entries⟩

theorem eq_of_entries {m n : NameMap α} (h : m.entries = n.entries) : m = n := by
  cases m; cases n; cases h; rfl

instance [DecidableEq α] : DecidableEq (NameMap α) := fun m n =>
  decidable_of_iff (m.entries = n.entries) ⟨eq_of_entries, fun h => h ▸ rfl⟩

def find (k : String) : List (String × α) → Option α
  | [] => none
  | e :: rest => if e.1 = k then some e.2 else find k rest

def get? (m : NameMap α) (k : String) : Option α := find k m.entries

def contains (m : NameMap α) (k : String) : Bool := (m.get? k).isSome

instance : Membership String (NameMap α) := ⟨fun m k => m.contains k = true⟩

instance (m : NameMap α) (k : String) : Decidable (k ∈ m) :=
  inferInstanceAs (Decidable (m.contains k = true))

def names (m : NameMap α) : List String := m.entries.map (·.1)
def values (m : NameMap α) : List α := m.entries.map (·.2)
def size (m : NameMap α) : Nat := m.entries.length
def isEmpty (m : NameMap α) : Bool := m.entries.isEmpty

def insertEntry (k : String) (a : α) : List (String × α) → List (String × α)
  | [] => [(k, a)]
  | e :: rest =>
    if k < e.1 then (k, a) :: e :: rest
    else if e.1 = k then (k, a) :: rest
    else e :: insertEntry k a rest

theorem mem_insertEntry {k : String} {a : α} {l : List (String × α)} {e : String × α}
    (h : e ∈ insertEntry k a l) : e = (k, a) ∨ e ∈ l := by
  fun_induction insertEntry k a l with
  | case1 => simpa using h
  | case2 => simpa using h
  | case3 e rest _ _ => grind
  | case4 e rest _ _ ih => grind

theorem insertEntry_ascending {k : String} {a : α} {l : List (String × α)}
    (h : l.Pairwise (·.1 < ·.1)) : (insertEntry k a l).Pairwise (·.1 < ·.1) := by
  fun_induction insertEntry k a l with
  | case1 => simp
  | case2 e rest hlt =>
    refine List.pairwise_cons.2 ⟨fun x hx => ?_, h⟩
    rcases List.mem_cons.1 hx with rfl | hx
    · exact hlt
    · exact String.lt_trans hlt (List.rel_of_pairwise_cons h hx)
  | case3 e rest _ heq =>
    exact List.pairwise_cons.2 ⟨fun x hx => heq ▸ List.rel_of_pairwise_cons h hx, h.of_cons⟩
  | case4 e rest hlt hne ih =>
    refine List.pairwise_cons.2 ⟨fun x hx => ?_, ih h.of_cons⟩
    rcases mem_insertEntry hx with rfl | hx
    · exact Std.lt_of_le_of_ne (Std.not_lt.1 hlt) hne
    · exact List.rel_of_pairwise_cons h hx

def insert (m : NameMap α) (k : String) (a : α) : NameMap α :=
  ⟨insertEntry k a m.entries, insertEntry_ascending m.ascending⟩

def erase (m : NameMap α) (k : String) : NameMap α :=
  ⟨m.entries.filter (·.1 ≠ k), m.ascending.filter _⟩

def mapEntries (f : String → α → β) (m : NameMap α) : NameMap β :=
  ⟨m.entries.map fun e => (e.1, f e.1 e.2), m.ascending.map _ fun _ _ h => h⟩

/-- Replaces the value under `k`, if there is one. -/
def modify (m : NameMap α) (k : String) (f : α → α) : NameMap α :=
  m.mapEntries fun n a => if n = k then f a else a

def filter (p : String → α → Bool) (m : NameMap α) : NameMap α :=
  ⟨m.entries.filter fun e => p e.1 e.2, m.ascending.filter _⟩

/-- Of two entries with one name the later wins. -/
def ofList (l : List (String × α)) : NameMap α :=
  l.foldl (fun m e => m.insert e.1 e.2) ∅

theorem find_eq_none_of_lt {k : String} {l : List (String × α)} (h : ∀ e ∈ l, k < e.1) :
    find k l = none := by
  induction l with
  | nil => rfl
  | cons e rest ih =>
    have : e.1 ≠ k := fun he => String.lt_irrefl k (he ▸ h e List.mem_cons_self)
    simp [find, this, ih fun x hx => h x (List.mem_cons_of_mem _ hx)]

theorem find_insertEntry (k j : String) (a : α) (l : List (String × α)) :
    find j (insertEntry k a l) = if j = k then some a else find j l := by
  fun_induction insertEntry k a l <;> grind [find]

@[simp] theorem get?_empty (k : String) : (∅ : NameMap α).get? k = none := rfl

theorem get?_insert (m : NameMap α) (k j : String) (a : α) :
    (m.insert k a).get? j = if j = k then some a else m.get? j :=
  find_insertEntry k j a m.entries

@[simp] theorem get?_insert_self (m : NameMap α) (k : String) (a : α) :
    (m.insert k a).get? k = some a := by simp [get?_insert]

theorem find_filter_ne (k j : String) (l : List (String × α)) :
    find j (l.filter (·.1 ≠ k)) = if j = k then none else find j l := by
  induction l with
  | nil => simp [find]
  | cons e rest ih => grind [find]

theorem get?_erase (m : NameMap α) (k j : String) :
    (m.erase k).get? j = if j = k then none else m.get? j :=
  find_filter_ne k j m.entries

theorem find_map (f : String → α → β) (j : String) (l : List (String × α)) :
    find j (l.map fun e => (e.1, f e.1 e.2)) = (find j l).map (f j) := by
  induction l with
  | nil => rfl
  | cons e rest ih => by_cases h : e.1 = j <;> simp_all [find]

theorem get?_mapEntries (f : String → α → β) (m : NameMap α) (j : String) :
    (m.mapEntries f).get? j = (m.get? j).map (f j) := find_map f j m.entries

theorem get?_modify (m : NameMap α) (k j : String) (f : α → α) :
    (m.modify k f).get? j = if j = k then (m.get? j).map f else m.get? j := by
  by_cases h : j = k <;> simp [modify, get?_mapEntries, h]

theorem find_eq_some_iff {k : String} {a : α} {l : List (String × α)}
    (h : l.Pairwise (·.1 < ·.1)) : find k l = some a ↔ (k, a) ∈ l := by
  induction l with
  | nil => simp [find]
  | cons e rest ih =>
    have hrest := find_eq_none_of_lt (k := e.1) fun x hx => List.rel_of_pairwise_cons h hx
    by_cases hk : e.1 = k
    · subst hk
      have : ∀ b, (e.1, b) ∉ rest := fun b hb => String.lt_irrefl e.1 <| by
        simpa using List.rel_of_pairwise_cons h hb
      grind [find]
    · grind [find]

theorem get?_eq_some_iff {m : NameMap α} {k : String} {a : α} :
    m.get? k = some a ↔ (k, a) ∈ m.entries := find_eq_some_iff m.ascending

theorem mem_iff {m : NameMap α} {k : String} : k ∈ m ↔ ∃ a, m.get? k = some a :=
  Option.isSome_iff_exists

theorem mem_names {m : NameMap α} {k : String} : k ∈ m.names ↔ k ∈ m := by
  simp [names, mem_iff, get?_eq_some_iff]

theorem mem_values {m : NameMap α} {a : α} : a ∈ m.values ↔ ∃ k, m.get? k = some a := by
  simp [values, get?_eq_some_iff]

theorem names_ascending (m : NameMap α) : m.names.Pairwise (· < ·) :=
  m.ascending.map _ fun _ _ h => h

theorem names_nodup (m : NameMap α) : m.names.Nodup :=
  m.names_ascending.imp Std.ne_of_lt

theorem entries_ext {l r : List (String × α)} (hl : l.Pairwise (·.1 < ·.1))
    (hr : r.Pairwise (·.1 < ·.1)) (h : ∀ k, find k l = find k r) : l = r := by
  have hmem : ∀ x, x ∈ l ↔ x ∈ r := fun x => by
    rw [← find_eq_some_iff (k := x.1) (a := x.2) hl, h, find_eq_some_iff hr]
  have nodup {l : List (String × α)} (hl : l.Pairwise (·.1 < ·.1)) : l.Nodup := by
    refine List.nodup_iff_pairwise_ne.2 (hl.imp ?_)
    rintro a b hlt rfl
    exact String.lt_irrefl _ hlt
  refine List.Perm.eq_of_pairwise (fun a b _ _ hab hba => ?_) hl hr
    ((List.perm_ext_iff_of_nodup (nodup hl) (nodup hr)).2 hmem)
  exact absurd hab (String.lt_asymm hba)

theorem ext_get? {m n : NameMap α} (h : ∀ k, m.get? k = n.get? k) : m = n :=
  eq_of_entries (entries_ext m.ascending n.ascending h)

end NameMap

end GraphDispatch
