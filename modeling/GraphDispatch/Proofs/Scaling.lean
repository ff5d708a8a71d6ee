import GraphDispatch.Proofs.Tensors
import Mathlib.Algebra.BigOperators.Ring.List

/-!
# Scaling along an axis

Products of dimensions that do not fit a word end the program, and so do the divisions of
`Tensor.scaleAlong` where a tensor has elements that its shape leaves no room for. `Faults` says
when exactly that happens, `Fits` what keeps a tensor from it.
-/

namespace GraphDispatch

/-- Some product on the way from the first dimension on does not fit a word. -/
def Overflows (ds : List Nat) : Prop := ∃ run, run <+: ds ∧ UInt64.size ≤ run.prod

section Products

variable {shape : List UInt64} {n : Nat}

theorem product_ok {m n : Nat} (h : m * n < UInt64.size) : product m n = .ok (m * n) := if_pos h

theorem product_overflow {m n : Nat} (h : UInt64.size ≤ m * n) :
    product m n = .error (.fault .product) := if_neg (Nat.not_lt.2 h)

/-- The dimensions multiply `m`, as long as no product on the way overflows. -/
theorem foldlM_product (shape : List UInt64) {m : Nat} (hm : m < UInt64.size) :
    ((∀ run, run <+: shape.map (·.toNat) → m * run.prod < UInt64.size) ∧
      shape.foldlM (fun n d => product n d.toNat) m = .ok (m * (shape.map (·.toNat)).prod)) ∨
    ((∃ run, run <+: shape.map (·.toNat) ∧ UInt64.size ≤ m * run.prod) ∧
      shape.foldlM (fun n d => product n d.toNat) m = .error (.fault .product)) := by
  induction shape generalizing m with
  | nil =>
    refine Or.inl ⟨fun run hrun => ?_, ?_⟩
    · simpa [List.prefix_nil.1 hrun] using hm
    · simp [pure, Except.pure]
  | cons d shape ih =>
    rw [List.foldlM_cons]
    by_cases small : m * d.toNat < UInt64.size
    · rw [product_ok small]
      rcases ih small with ⟨all, count⟩ | ⟨⟨front, hfront, large⟩, count⟩
      · refine Or.inl ⟨fun front hfront => ?_, ?_⟩
        · cases front with
          | nil => simpa using hm
          | cons e rest =>
            obtain ⟨rfl, hrest⟩ := List.cons_prefix_cons.1 hfront
            simpa [Nat.mul_assoc] using all rest hrest
        · simpa [Nat.mul_assoc, bind, Except.bind] using count
      · refine Or.inr ⟨⟨d.toNat :: front, ?_, ?_⟩, count⟩
        · exact List.cons_prefix_cons.2 ⟨rfl, hfront⟩
        · simpa [Nat.mul_assoc] using large
    · rw [product_overflow (Nat.not_lt.1 small)]
      refine Or.inr ⟨⟨[d.toNat], ?_, ?_⟩, rfl⟩
      · simp
      · simpa using small

theorem elementCount_spec (shape : List UInt64) :
    (¬Overflows (shape.map (·.toNat)) ∧ elementCount shape = .ok (shape.map (·.toNat)).prod) ∨
      (Overflows (shape.map (·.toNat)) ∧ elementCount shape = .error (.fault .product)) := by
  have one : 1 < UInt64.size := by decide
  simpa [Overflows, elementCount] using foldlM_product shape one

theorem elementCount_ok (h : ¬Overflows (shape.map (·.toNat))) :
    elementCount shape = .ok (shape.map (·.toNat)).prod :=
  (elementCount_spec shape).elim (·.2) fun excess => absurd excess.1 h

theorem elementCount_overflow (h : Overflows (shape.map (·.toNat))) :
    elementCount shape = .error (.fault .product) :=
  (elementCount_spec shape).elim (fun fine => absurd h fine.1) (·.2)

end Products

namespace Tensor

variable {α : Type} {t t' : Tensor α} {shape : List UInt64} {elements : Elements α}

/-- A tensor gets the elements that its shape asks for, unless that number overflows. -/
theorem ofElements_ok (h : ¬Overflows (shape.map (·.toNat))) :
    ofElements shape elements = if (shape.map (·.toNat)).prod = elements.size
      then .ok ⟨shape, elements⟩ else .error (.shapeMismatch shape elements.size) := by
  rw [ofElements, elementCount_ok h]
  rfl

theorem ofElements_overflow (h : Overflows (shape.map (·.toNat))) :
    ofElements shape elements = .error (.fault .product) := by
  rw [ofElements, elementCount_overflow h]
  rfl

theorem ofElements_eq_ok (h : ofElements shape elements = .ok t) :
    t = ⟨shape, elements⟩ ∧ elements.size = (shape.map (·.toNat)).prod := by
  by_cases excess : Overflows (shape.map (·.toNat))
  · rw [ofElements_overflow excess] at h
    cases h
  · rw [ofElements_ok excess] at h
    split at h
    · rename_i fits
      cases h
      exact ⟨rfl, fits.symm⟩
    · cases h

/-- How the tensor ends the program when it is scaled along the axis. -/
inductive Faults (t : Tensor α) (axis : Nat) : SizeFault → Prop where
  | inner : Overflows (t.dims.drop (axis + 1)) → Faults t axis .product
  | quotient : ¬Overflows (t.dims.drop (axis + 1)) → t.size ≠ 0 →
    (t.dims.drop (axis + 1)).prod = 0 → Faults t axis .quotient
  | remainder : ¬Overflows (t.dims.drop (axis + 1)) → t.size ≠ 0 →
    (t.dims.drop (axis + 1)).prod ≠ 0 → t.dims[axis]? = some 0 → Faults t axis .remainder
  | shape : ¬Overflows (t.dims.drop (axis + 1)) →
    (t.size ≠ 0 → (t.dims.drop (axis + 1)).prod ≠ 0 ∧ t.dims[axis]? ≠ some 0) →
    Overflows t.dims → Faults t axis .product

/-- The elements are as many as the shape says, and every product of neighbouring dimensions
fits a word. -/
structure Fits (t : Tensor α) : Prop where
  size : t.size = t.dims.prod
  bounded : ∀ run, run <:+: t.dims → run.prod < UInt64.size

/-- Only shape and number of elements count. -/
theorem Faults.congr {axis : Nat} {e : SizeFault} (h : t.Faults axis e) (dims : t'.dims = t.dims)
    (size : t'.size = t.size) : t'.Faults axis e := by
  cases h with
  | inner excess => exact .inner (dims ▸ excess)
  | quotient fine some zero => exact .quotient (dims ▸ fine) (size ▸ some) (dims ▸ zero)
  | remainder fine some other dim =>
    exact .remainder (dims ▸ fine) (size ▸ some) (dims ▸ other) (dims ▸ dim)
  | shape fine other excess => exact .shape (dims ▸ fine) (dims ▸ size ▸ other) (dims ▸ excess)

theorem Fits.not_overflows (h : t.Fits) {ds : List Nat} (suffix : ds <:+ t.dims) :
    ¬Overflows ds := by
  rintro ⟨run, hrun, large⟩
  have small := h.bounded run (hrun.isInfix.trans suffix.isInfix)
  omega

/-- Without a dimension zero the products in between are no greater than the size. -/
theorem fits_of_size (size : t.size = t.dims.prod) (some : t.size ≠ 0)
    (small : t.size < UInt64.size) : t.Fits where
  size := size
  bounded run hrun := by
    have divides : run.prod ∣ t.dims.prod := by
      obtain ⟨front, back, dims⟩ := hrun
      rw [← dims, List.prod_append, List.prod_append]
      exact (Dvd.intro_left _ rfl).mul_right _
    rw [← size] at divides
    exact Nat.lt_of_le_of_lt (Nat.le_of_dvd (Nat.pos_of_ne_zero some) divides) small

/-- A list of elements has a shape of its own. -/
theorem fits_list {d : UInt64} (h : elements.size = d.toNat) :
    (⟨[d], elements⟩ : Tensor α).Fits where
  size := by simpa [dims, size] using h
  bounded run hrun := by
    have small : d.toNat < UInt64.size := d.toNat_lt
    rcases List.sublist_singleton.1 hrun.sublist with rfl | rfl
    · decide
    · simpa using small

theorem ofElements_list {d : UInt64} (h : elements.size = d.toNat) :
    ofElements [d] elements = .ok ⟨[d], elements⟩ := by
  rw [ofElements_ok ((fits_list h).not_overflows (List.suffix_refl _)),
    if_pos (by simpa using h.symm)]

/-- What an element's place is divided by: a tensor that fits leaves no room for elements only where
it has none. -/
theorem Fits.divisors (h : t.Fits) (filled : t.size ≠ 0) (axis : Nat) :
    (t.dims.drop (axis + 1)).prod ≠ 0 ∧ t.dims[axis]? ≠ some 0 := by
  have split : t.dims.prod = (t.dims.take (axis + 1)).prod * (t.dims.drop (axis + 1)).prod :=
    (List.prod_take_mul_prod_drop _ _).symm
  refine ⟨fun zero => filled (by rw [h.size, split, zero, Nat.mul_zero]), fun dim => ?_⟩
  have zero : t.dims.prod = 0 := List.prod_eq_zero_iff.2 (List.mem_of_getElem? dim)
  exact filled (h.size.trans zero)

theorem Fits.not_faults (h : t.Fits) {axis : Nat} {e : SizeFault} : ¬t.Faults axis e := by
  intro faults
  cases faults with
  | inner excess => exact h.not_overflows (List.drop_suffix _ _) excess
  | quotient _ filled zero => exact (h.divisors filled axis).1 zero
  | remainder _ filled _ dim => exact (h.divisors filled axis).2 dim
  | shape _ _ excess => exact h.not_overflows (List.suffix_refl _) excess

variable [Scalar α] {axis : Nat} {factors : List α}

theorem length_scalars (t : Tensor α) : t.scalars.length = t.size := by
  unfold scalars size Elements.size
  cases t.elements <;> simp

theorem scalars_eq_nil_iff : t.scalars = [] ↔ t.size = 0 := by
  rw [← length_scalars, List.length_eq_zero_iff]

/-- Scaling with one factor for each slice. -/
theorem scaleAlong_eq (h : t.dims[axis]? = some factors.length) :
    t.scaleAlong axis factors = (do
      let inner ← elementCount (t.shape.drop (axis + 1))
      if t.size ≠ 0 ∧ inner = 0 then .error (.fault .quotient)
      else if t.size ≠ 0 ∧ t.dims[axis]? = some 0 then .error (.fault .remainder)
      else ofElements t.shape (.floats (scaleSlices inner factors.length factors t.scalars))) := by
  obtain ⟨dim, found, length⟩ : ∃ dim, t.shape[axis]? = some dim ∧ dim.toNat = factors.length := by
    simpa [dims] using h
  have zero : factors.length = 0 ↔ dim = 0 := by
    rw [← length, ← UInt64.toNat_inj, UInt64.toNat_zero]
  unfold scaleAlong
  rw [found]
  dsimp only
  rw [if_neg (not_not.2 length), h, length]
  cases elementCount (t.shape.drop (axis + 1)) with
  | error e => rfl
  | ok inner =>
    simp only [bind, Except.bind, Option.some.injEq, zero, ne_eq, scalars_eq_nil_iff]
    by_cases some : t.size = 0
    · simp [some]
    · by_cases none : inner = 0
      · simp [some, none, throw, throwThe, MonadExceptOf.throw]
      · by_cases empty : dim = 0 <;> simp [some, none, empty, throw, throwThe, MonadExceptOf.throw]

/-- Scaling with one factor for each slice: either a fault, or the elements are as many as the
shape says or they are not. -/
theorem scaleAlong_spec (h : t.dims[axis]? = some factors.length) :
    (∃ e, t.Faults axis e ∧ t.scaleAlong axis factors = .error (.fault e)) ∨
      t.scaleAlong axis factors = if t.dims.prod = t.size
        then .ok ⟨t.shape, .floats (scaleSlices (t.dims.drop (axis + 1)).prod factors.length
          factors t.scalars)⟩
        else .error (.shapeMismatch t.shape t.size) := by
  have inner : (t.shape.drop (axis + 1)).map (·.toNat) = t.dims.drop (axis + 1) := List.map_drop
  rw [scaleAlong_eq h]
  by_cases excess : Overflows (t.dims.drop (axis + 1))
  · rw [elementCount_overflow (inner ▸ excess)]
    exact Or.inl ⟨.product, .inner excess, rfl⟩
  rw [elementCount_ok (inner ▸ excess), inner]
  simp only [bind, Except.bind]
  split
  · rename_i quotient
    exact Or.inl ⟨.quotient, .quotient excess quotient.1 quotient.2, rfl⟩
  rename_i room
  split
  · rename_i remainder
    have filled : (t.dims.drop (axis + 1)).prod ≠ 0 := fun none => room ⟨remainder.1, none⟩
    exact Or.inl ⟨.remainder, .remainder excess remainder.1 filled remainder.2, rfl⟩
  rename_i slices
  have size : (Elements.floats (scaleSlices (t.dims.drop (axis + 1)).prod factors.length factors
      t.scalars)).size = t.size := by
    simp [Elements.size, scaleSlices, length_scalars]
  by_cases large : Overflows t.dims
  · rw [ofElements_overflow large]
    refine Or.inl ⟨.product, .shape excess (fun some => ⟨?_, ?_⟩) large, rfl⟩
    · exact fun none => room ⟨some, none⟩
    · exact fun none => slices ⟨some, none⟩
  · right
    rw [ofElements_ok large, size]
    rfl

theorem dims_of_scaleAlong (h : t.scaleAlong axis factors = .ok t') :
    t.dims[axis]? = some factors.length := by
  unfold scaleAlong at h
  cases found : t.shape[axis]? with
  | none =>
    rw [found] at h
    cases h
  | some dim =>
    rw [found] at h
    dsimp only at h
    split at h
    · cases h
    · rename_i same
      rw [dims, List.getElem?_map, found, Option.map_some, not_not.1 same]

/-- What a scaling that succeeds has met and made. -/
theorem scaleAlong_eq_ok (h : t.scaleAlong axis factors = .ok t') :
    t'.shape = t.shape ∧ t.dims[axis]? = some factors.length ∧ t.size = t.dims.prod ∧
      t'.scalars = scaleSlices (t.dims.drop (axis + 1)).prod factors.length factors t.scalars := by
  have dim := dims_of_scaleAlong h
  rcases scaleAlong_spec dim with ⟨e, -, fault⟩ | outcome
  · rw [fault] at h
    cases h
  · rw [outcome] at h
    split at h
    · cases h
      exact ⟨rfl, dim, Eq.symm ‹_›, rfl⟩
    · cases h

theorem dims_scaled (h : t.scaleAlong axis factors = .ok t') : t'.dims = t.dims := by
  rw [dims, dims, (scaleAlong_eq_ok h).1]

theorem size_of_scaleAlong (h : t.scaleAlong axis factors = .ok t') : t'.size = t.size := by
  obtain ⟨-, -, -, scalars⟩ := scaleAlong_eq_ok h
  rw [← length_scalars, scalars, scaleSlices, List.length_mapIdx, length_scalars]

theorem faults_of_scaleAlong (h : t.dims[axis]? = some factors.length) {e : SizeFault}
    (fault : t.scaleAlong axis factors = .error (.fault e)) : t.Faults axis e := by
  rcases scaleAlong_spec h with ⟨e', faults, outcome⟩ | outcome
  · rw [fault] at outcome
    cases outcome
    exact faults
  · rw [fault] at outcome
    split at outcome <;> cases outcome

theorem Fits.scaleAlong_ok (fits : t.Fits) (h : t.dims[axis]? = some factors.length) :
    ∃ t', t.scaleAlong axis factors = .ok t' := by
  rcases scaleAlong_spec h with ⟨e, faults, -⟩ | outcome
  · exact absurd faults fits.not_faults
  · exact ⟨_, outcome.trans (if_pos fits.size.symm)⟩

/-- A scaled tensor fits as the tensor did. -/
theorem Fits.scaled (fits : t.Fits) (h : t.scaleAlong axis factors = .ok t') : t'.Fits where
  size := by rw [size_of_scaleAlong h, dims_scaled h, fits.size]
  bounded := dims_scaled h ▸ fits.bounded

theorem scaleAlong_outside (h : t.shape.length ≤ axis) :
    t.scaleAlong axis factors = .error (.axisOutOfRange axis t.shape) := by
  unfold scaleAlong
  rw [List.getElem?_eq_none h]
  rfl

theorem scaleAlong_miscounted {d : Nat} (found : t.dims[axis]? = some d)
    (other : d ≠ factors.length) :
    t.scaleAlong axis factors = .error (.factorCount axis t.shape factors.length) := by
  obtain ⟨dim, listed, rfl⟩ : ∃ dim, t.shape[axis]? = some dim ∧ dim.toNat = d := by
    simpa [dims] using found
  unfold scaleAlong
  rw [listed]
  dsimp only
  rw [if_pos other]
  rfl

/-- `t'` is `t`, the element at every index multiplied by the factor of the index on the axis. -/
structure Scales (t : Tensor α) (axis : Nat) (factors : List α) (t' : Tensor α) : Prop where
  shape : t'.shape = t.shape
  floats : ∃ values, t'.elements = .floats values ∧ values.length = t.size
  element : ∀ index, Inside t.dims index → ∃ x i m, t.scalars[offset t.dims index]? = some x ∧
    index[axis]? = some i ∧ factors[i]? = some m ∧
    t'.scalars[offset t'.dims index]? = some (x * m)

theorem Fits.scales (fits : t.Fits) (h : t.scaleAlong axis factors = .ok t') :
    t.Scales axis factors t' where
  shape := (scaleAlong_eq_ok h).1
  floats := by
    refine (scaleAlong_spec (dims_of_scaleAlong h)).elim (fun fault => ?_) fun outcome => ?_
    · obtain ⟨e, faults, -⟩ := fault
      exact absurd faults fits.not_faults
    · rw [if_pos fits.size.symm, h] at outcome
      cases outcome
      exact ⟨_, rfl, by rw [scaleSlices, List.length_mapIdx, length_scalars]⟩
  element index inside := by
    obtain ⟨-, dim, -, scalars⟩ := scaleAlong_eq_ok h
    have place := getElem?_indices_offset inside
    have below : offset t.dims index < t.scalars.length := by
      rw [length_scalars, fits.size, ← length_indices]
      exact (List.getElem?_eq_some_iff.1 place).1
    -- so there are elements, and the divisors are not zero
    have filled : t.size ≠ 0 := by
      rw [← length_scalars]
      omega
    have slices : 0 < factors.length :=
      Nat.pos_of_ne_zero fun zero => (fits.divisors filled axis).2 (zero ▸ dim)
    have listed : offset t.dims index / (t.dims.drop (axis + 1)).prod % factors.length <
      factors.length := Nat.mod_lt _ slices
    refine ⟨_, _, _, List.getElem?_eq_getElem below, indices_entry place dim,
      List.getElem?_eq_getElem listed, ?_⟩
    rw [dims_scaled h, scalars, scaleSlices, List.getElem?_mapIdx, List.getElem?_eq_getElem below,
      Option.map_some, List.getD_eq_getElem?_getD, List.getElem?_eq_getElem listed,
      Option.getD_some]

/-- A tensor that fits its shape is scaled along every axis with one factor for each slice, by
divisions that all have a divisor; any other axis or number of factors is refused. -/
theorem scaleAlong_by_index (fits : t.Fits) (axis : Nat) (factors : List α) :
    (t.dims[axis]? = some factors.length →
      (t.size ≠ 0 → (t.dims.drop (axis + 1)).prod ≠ 0 ∧ factors.length ≠ 0) ∧
      ∃ t', t.scaleAlong axis factors = .ok t' ∧ t.Scales axis factors t') ∧
    (t.shape.length ≤ axis →
      t.scaleAlong axis factors = .error (.axisOutOfRange axis t.shape)) ∧
    ∀ d, t.dims[axis]? = some d → d ≠ factors.length →
      t.scaleAlong axis factors = .error (.factorCount axis t.shape factors.length) := by
  refine ⟨fun dim => ⟨fun filled => ?_, ?_⟩, scaleAlong_outside, fun _ => scaleAlong_miscounted⟩
  · obtain ⟨inner, slices⟩ := fits.divisors filled axis
    exact ⟨inner, fun none => slices (none ▸ dim)⟩
  · obtain ⟨t', scaled⟩ := fits.scaleAlong_ok dim
    exact ⟨t', scaled, fits.scales scaled⟩

/-- Two rows of three columns of two integers. -/
def stacked : Tensor Float32 := ⟨[2, 3, 2], .ints [0, 1, 2, 3, 4, 5, 6, 7, 8, 9, 10, 11]⟩

theorem scaleAlong_by_index_stacked : stacked.Fits ∧
    (∃ t', stacked.scaleAlong 1 [1, 10, -100] = .ok t' ∧ t'.shape = [2, 3, 2] ∧
      t'.scalars[offset [2, 3, 2] [1, 2, 0]]? = some (Scalar.ofInt 10 * -100)) ∧
    stacked.scaleAlong 3 [1, 10] = .error (.axisOutOfRange 3 [2, 3, 2]) ∧
    stacked.scaleAlong 1 [1, 10] = .error (.factorCount 1 [2, 3, 2] 2) := by
  have fits : stacked.Fits := fits_of_size rfl (by decide) (by decide)
  obtain ⟨scaled, -, -⟩ := scaleAlong_by_index fits 1 [1, 10, -100]
  obtain ⟨-, outside, -⟩ := scaleAlong_by_index fits 3 [1, 10]
  obtain ⟨-, -, miscounted⟩ := scaleAlong_by_index fits 1 [1, 10]
  obtain ⟨-, t', done, scales⟩ := scaled rfl
  refine ⟨fits, ⟨t', done, scales.shape, ?_⟩, outside (by decide), miscounted 3 rfl (by decide)⟩
  have inside : Inside stacked.dims [1, 2, 0] := .cons (by decide) (.cons (by decide)
    (.cons (by decide) .nil))
  obtain ⟨x, i, m, old, entry, factor, new⟩ := scales.element _ inside
  cases old
  cases entry
  cases factor
  rw [dims, scales.shape] at new
  exact new

end Tensor

end GraphDispatch
