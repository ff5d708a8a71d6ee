import GraphDispatch.Graph.Tensor
import Mathlib.Algebra.BigOperators.Group.List.Basic
import Mathlib.Tactic.Ring

/-!
# Row-major order

The elements of a tensor belong to the indices of its shape in the order in which
`indices` lists them. From the place of an element follows its index on each axis
(`indices_entry`), which is what `Tensor.scaleSlices` computes.
-/

namespace GraphDispatch

/-- All indices below the dimensions, the last entry running fastest. -/
def indices : List Nat → List (List Nat)
  | [] => [[]]
  | d :: ds => (List.range d).flatMap fun i => (indices ds).map (i :: ·)

theorem length_indices (ds : List Nat) : (indices ds).length = ds.prod := by
  induction ds with
  | nil => rfl
  | cons d ds ih => simp [indices, ih]

/-- The row of a place. -/
theorem row_of_place {row width column : Nat} (h : column < width) :
    (row * width + column) / width = row := by
  rw [Nat.mul_comm, Nat.mul_add_div (by omega), Nat.div_eq_of_lt h, Nat.add_zero]

theorem getElem?_blocks {β : Type} (f : Nat → β → β) (l : List β) (d : Nat) {k : Nat}
    (hk : k < d * l.length) :
    ((List.range d).flatMap fun i => l.map (f i))[k]? =
      l[k % l.length]?.map (f (k / l.length)) := by
  induction d with
  | zero => simp at hk
  | succ d ih =>
    have length : ((List.range d).flatMap fun i => l.map (f i)).length = d * l.length := by simp
    rw [List.range_succ, List.flatMap_append, List.getElem?_append, length]
    split
    · exact ih ‹_›
    · rename_i behind
      obtain ⟨j, rfl⟩ := Nat.exists_eq_add_of_le (Nat.le_of_not_lt behind)
      have inside : j < l.length := by
        rw [Nat.succ_mul] at hk
        omega
      simp [Nat.mul_add_mod_of_lt inside, row_of_place inside]

/-- The index on an axis, from the place in row-major order. -/
theorem indices_entry {ds : List Nat} {k axis : Nat} {index : List Nat} {dim : Nat}
    (h : (indices ds)[k]? = some index) (hdim : ds[axis]? = some dim) :
    index[axis]? = some (k / (ds.drop (axis + 1)).prod % dim) := by
  induction ds generalizing k axis index with
  | nil => cases hdim
  | cons d ds ih =>
    have bound : k < d * (indices ds).length := by
      have := (List.getElem?_eq_some_iff.1 h).1
      rw [length_indices, List.prod_cons] at this
      rw [length_indices]
      exact this
    rw [indices, getElem?_blocks (fun i index => i :: index) _ _ bound] at h
    obtain ⟨rest, hrest, rfl⟩ := Option.map_eq_some_iff.1 h
    rw [length_indices] at hrest bound ⊢
    cases axis with
    | zero =>
      obtain rfl : d = dim := Option.some.inj hdim
      have small : k / ds.prod < d := Nat.div_lt_of_lt_mul (Nat.mul_comm d _ ▸ bound)
      simp [Nat.mod_eq_of_lt small]
    | succ axis =>
      rw [List.getElem?_cons_succ] at hdim
      have entry := ih hrest hdim
      have split : ds.prod = (ds.drop (axis + 1)).prod * (dim * (ds.take axis).prod) := by
        obtain ⟨inside, rfl⟩ := List.getElem?_eq_some_iff.1 hdim
        rw [← List.prod_take_mul_prod_drop ds axis, List.drop_eq_getElem_cons inside,
          List.prod_cons]
        ring
      rw [List.getElem?_cons_succ, entry, split, Nat.mod_mul_right_div_self, Nat.mod_mul_right_mod,
        List.drop_succ_cons]

/-- The place of an index in row-major order. -/
def offset : List Nat → List Nat → Nat
  | _ :: ds, i :: index => i * ds.prod + offset ds index
  | _, _ => 0

/-- The index has an entry below each dimension. -/
def Inside (ds index : List Nat) : Prop := List.Forall₂ (fun i d => i < d) index ds

theorem getElem?_indices_offset {ds index : List Nat} (h : Inside ds index) :
    (indices ds)[offset ds index]? = some index := by
  induction h with
  | nil => rfl
  | @cons i d index ds below inside ih =>
    have rest : offset ds index < (indices ds).length := (List.getElem?_eq_some_iff.1 ih).1
    have bound : i * ds.prod + offset ds index < d * (indices ds).length := by
      have rows : (i + 1) * ds.prod ≤ d * ds.prod := Nat.mul_le_mul_right _ below
      rw [Nat.succ_mul] at rows
      rw [length_indices] at rest ⊢
      omega
    rw [offset, indices, getElem?_blocks (fun i index => i :: index) _ _ bound, length_indices]
    rw [length_indices] at rest
    rw [Nat.mul_add_mod_of_lt rest, row_of_place rest, ih]
    rfl

variable {α : Type}

namespace Tensor

/-- The dimensions. -/
def dims (t : Tensor α) : List Nat := t.shape.map (·.toNat)

variable [Scalar α]

/-- The elements as scalars, each with its index. -/
def cells (t : Tensor α) : List (List Nat × α) := (indices t.dims).zip t.scalars

/-- The element at an index. -/
def entry (t : Tensor α) (index : List Nat) : α := t.scalars.getD (offset t.dims index) 0

end Tensor

end GraphDispatch
