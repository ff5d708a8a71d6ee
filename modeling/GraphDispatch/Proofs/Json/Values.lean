import GraphDispatch.Json.Reading
import GraphDispatch.Proofs.Json.Numbers

/-!
# Values part by part

What holds of a value if it holds of its items or fields holds of every value. The functions on
values treat all items alike, so on lists they are maps.
-/

namespace GraphDispatch.Json

namespace Value

@[elab_as_elim]
theorem induction {motive : Value → Prop} (null : motive .null) (bool : ∀ b, motive (.bool b))
    (number : ∀ n, motive (.number n)) (string : ∀ s, motive (.string s))
    (array : ∀ items, (∀ v ∈ items, motive v) → motive (.array items))
    (object : ∀ fields, (∀ e ∈ fields, motive e.2) → motive (.object fields)) (v : Value) :
    motive v :=
  @Value.rec motive (fun items => ∀ v ∈ items, motive v) (fun fields => ∀ e ∈ fields, motive e.2)
    (fun e => motive e.2) null bool number string array object (by simp)
    (fun _ _ first rest => List.forall_mem_cons.2 ⟨first, rest⟩) (by simp)
    (fun _ _ first rest => List.forall_mem_cons.2 ⟨first, rest⟩) (fun _ _ h => h) v

theorem normalItems_eq (items : List Value) : normalItems items = items.map normal := by
  induction items with
  | nil => rfl
  | cons v rest ih => rw [normalItems, ih, List.map_cons]

theorem normalFields_eq (fields : List (String × Value)) :
    normalFields fields = fields.map fun e => (e.1, e.2.normal) := by
  induction fields with
  | nil => rfl
  | cons e rest ih => rw [normalFields, ih, List.map_cons]

theorem itemOutlines_eq (items : List Value) : itemOutlines items = items.map outline := by
  induction items with
  | nil => rfl
  | cons v rest ih => rw [itemOutlines, ih, List.map_cons]

theorem fieldOutlines_eq (fields : List (String × Value)) :
    fieldOutlines fields = fields.map fun e => (.name e.1, e.2.outline) := by
  induction fields with
  | nil => rfl
  | cons e rest ih => rw [fieldOutlines, ih, List.map_cons]

mutual
/-- The value that a reader takes the text of a value for. -/
def reread : Value → Value
  | .array items => .array (rereadItems items)
  | .object fields => .object (rereadFields fields)
  | .number n => .number n.reread
  | .null => .null
  | .bool b => .bool b
  | .string s => .string s

def rereadItems : List Value → List Value
  | [] => []
  | v :: rest => reread v :: rereadItems rest

def rereadFields : List (String × Value) → List (String × Value)
  | [] => []
  | (k, v) :: rest => (k, reread v) :: rereadFields rest
end

theorem rereadItems_eq (items : List Value) : rereadItems items = items.map reread := by
  induction items with
  | nil => rfl
  | cons v rest ih => rw [rereadItems, ih, List.map_cons]

theorem rereadFields_eq (fields : List (String × Value)) :
    rereadFields fields = fields.map fun e => (e.1, e.2.reread) := by
  induction fields with
  | nil => rfl
  | cons e rest ih => rw [rereadFields, ih, List.map_cons]

mutual
/-- How many arrays and objects stand inside each other. -/
def depth : Value → Nat
  | .array items => itemsDepth items + 1
  | .object fields => fieldsDepth fields + 1
  | .null | .bool _ | .number _ | .string _ => 0

def itemsDepth : List Value → Nat
  | [] => 0
  | v :: rest => max (depth v) (itemsDepth rest)

def fieldsDepth : List (String × Value) → Nat
  | [] => 0
  | (_, v) :: rest => max (depth v) (fieldsDepth rest)
end

theorem itemsDepth_le {items : List Value} {n : Nat} :
    itemsDepth items ≤ n ↔ ∀ v ∈ items, v.depth ≤ n := by
  induction items with
  | nil => simp [itemsDepth]
  | cons v rest ih => rw [itemsDepth, Nat.max_le, ih, List.forall_mem_cons]

theorem fieldsDepth_le {fields : List (String × Value)} {n : Nat} :
    fieldsDepth fields ≤ n ↔ ∀ e ∈ fields, e.2.depth ≤ n := by
  induction fields with
  | nil => simp [fieldsDepth]
  | cons e rest ih => rw [fieldsDepth, Nat.max_le, ih, List.forall_mem_cons]

theorem depth_array_le {items : List Value} {n : Nat} :
    (array items).depth ≤ n + 1 ↔ ∀ v ∈ items, v.depth ≤ n := by
  rw [depth, Nat.add_le_add_iff_right, itemsDepth_le]

theorem depth_object_le {fields : List (String × Value)} {n : Nat} :
    (object fields).depth ≤ n + 1 ↔ ∀ e ∈ fields, e.2.depth ≤ n := by
  rw [depth, Nat.add_le_add_iff_right, fieldsDepth_le]

end Value

namespace Outline

theorem itemValues_outlines {items : List Value} (h : ∀ v ∈ items, v.outline.value = .ok v) :
    itemValues (items.map Value.outline) = .ok items := by
  induction items with
  | nil => rfl
  | cons v rest ih =>
    obtain ⟨first, rest⟩ := List.forall_mem_cons.1 h
    rw [List.map_cons, itemValues, first, ih rest]
    rfl

theorem fieldValues_outlines {fields : List (String × Value)}
    (h : ∀ e ∈ fields, e.2.outline.value = .ok e.2) :
    fieldValues (fields.map fun e => (.name e.1, e.2.outline)) = .ok fields := by
  induction fields with
  | nil => rfl
  | cons e rest ih =>
    obtain ⟨first, rest⟩ := List.forall_mem_cons.1 h
    rw [List.map_cons, fieldValues, first, ih rest]
    rfl

theorem value_outline (v : Value) : v.outline.value = .ok v := by
  induction v using Value.induction with
  | null | bool | number | string => rfl
  | array items ih =>
    rw [Value.outline, Value.itemOutlines_eq, value, itemValues_outlines ih]
    rfl
  | object fields ih =>
    rw [Value.outline, Value.fieldOutlines_eq, value, fieldValues_outlines ih]
    rfl

/-- Nothing in a value stands open, so a reader can skip it. -/
theorem skip_outline (v : Value) : v.outline.skip = .ok () := by
  cases v <;> rfl

end Outline

end GraphDispatch.Json
