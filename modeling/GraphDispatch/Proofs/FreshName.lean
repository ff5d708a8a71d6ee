import GraphDispatch.Graph.FreshName
import GraphDispatch.Proofs.NameMap
import Mathlib.Order.Bounds.Defs

/-!
# Fresh names are fresh

Different numbers give different names, so a search from zero on passes a number only at the cost
of a used name. It stops one trial after the last of them at the latest, at the least number whose
name is free.
-/

namespace GraphDispatch

theorem numbered_injective {base : String} {k j : Nat} (h : numbered base k = numbered base j) :
    k = j := by
  unfold numbered at h
  rw [String.append_right_inj] at h
  have digits : Nat.toDigits 10 k = Nat.toDigits 10 j := by
    rw [← Nat.toList_repr, ← Nat.toList_repr]
    exact congrArg String.toList h
  rw [← Nat.ofDigitChars_ten_toDigits (n := k), digits, Nat.ofDigitChars_ten_toDigits]

/-- The search never goes back, so it does not meet a name it has crossed out. What it passes is
used, and crossed out. -/
theorem firstFree_spec (base : String) (k : Nat) (used : List String) :
    ∃ j, k ≤ j ∧ j ≤ k + used.length ∧ firstFree base k used = numbered base j ∧
      numbered base j ∉ used ∧ ∀ i, k ≤ i → i < j → numbered base i ∈ used := by
  fun_induction firstFree base k used with
  | case1 k used taken ih =>
    obtain ⟨j, later, bound, found, free, passed⟩ := ih
    refine ⟨j, by omega, ?_, found, ?_, ?_⟩
    · have occupied := List.length_pos_of_mem taken
      rw [List.length_erase_of_mem taken] at bound
      omega
    · have other : numbered base j ≠ numbered base k := fun same => by
        have := numbered_injective same
        omega
      exact fun mem => free ((List.mem_erase_of_ne other).2 mem)
    · intro i low high
      rcases Nat.eq_or_lt_of_le low with rfl | low
      · exact taken
      · exact List.mem_of_mem_erase (passed i low high)
  | case2 k used free =>
    refine ⟨k, Nat.le_refl k, Nat.le_add_right k _, rfl, free, fun i low high => ?_⟩
    exact absurd high (Nat.not_lt.2 low)

example : firstFree "x" 0 ["x", "x_0", "x_2"] = "x_1" := by cbv

variable {α : Type} {g : Graph α} {base : String}

namespace Graph

theorem mem_usedNames {n : String} : n ∈ g.usedNames ↔ n ∈ g.vars ∨ n ∈ g.operations := by
  simp [usedNames, NameMap.mem_names]

theorem length_usedNames (g : Graph α) :
    g.usedNames.length = g.vars.size + g.operations.size := by
  rw [usedNames, List.length_append, NameMap.length_names, NameMap.length_names]

theorem freshName_spec (g : Graph α) (base : String) :
    ∃ k, g.freshName base = numbered base k ∧ k ≤ g.vars.size + g.operations.size ∧
      numbered base k ∉ g.usedNames ∧ ∀ i < k, numbered base i ∈ g.usedNames := by
  obtain ⟨k, -, bound, found, free, passed⟩ := firstFree_spec base 0 g.usedNames
  rw [Nat.zero_add, length_usedNames] at bound
  exact ⟨k, found, bound, free, fun i => passed i (Nat.zero_le i)⟩

theorem freshName_not_mem (g : Graph α) (base : String) :
    g.freshName base ∉ g.vars ∧ g.freshName base ∉ g.operations := by
  obtain ⟨k, found, -, free, -⟩ := g.freshName_spec base
  rw [found, ← not_or, ← mem_usedNames]
  exact free

/-- Looks up one name after another in the graph, from the number `k` on, and gives up after the
given trials. -/
def tryNames (g : Graph α) (base : String) (k : Nat) : Nat → Option String
  | 0 => none
  | trials + 1 =>
    if numbered base k ∈ g.vars ∨ numbered base k ∈ g.operations then
      g.tryNames base (k + 1) trials
    else some (numbered base k)

/-- The trials up to the first free name are needed, and they are enough. -/
theorem tryNames_eq {j k : Nat} (free : numbered base j ∉ g.usedNames)
    (passed : ∀ i, k ≤ i → i < j → numbered base i ∈ g.usedNames) (le : k ≤ j) (trials : Nat) :
    g.tryNames base k trials = if j < k + trials then some (numbered base j) else none := by
  induction trials generalizing k with
  | zero => rw [tryNames, Nat.add_zero, if_neg (Nat.not_lt.2 le)]
  | succ trials ih =>
    rcases Nat.eq_or_lt_of_le le with rfl | lt
    · rw [tryNames, if_neg (mt mem_usedNames.2 free), if_pos (by omega)]
    · have used := mem_usedNames.1 (passed k (Nat.le_refl k) lt)
      have rest : ∀ i, k + 1 ≤ i → i < j → numbered base i ∈ g.usedNames :=
        fun i low => passed i (Nat.le_of_succ_le low)
      rw [tryNames, if_pos used, ih rest lt, Nat.add_right_comm, Nat.add_assoc]

/-- The fresh name has the least number whose name is free. Looking up one name after another finds
it at the trial of that number, with at most one trial more than there are names in the graph. -/
theorem freshName_first (g : Graph α) (base : String) :
    ∃ k, IsLeast {k | numbered base k ∉ g.vars ∧ numbered base k ∉ g.operations} k ∧
      g.freshName base = numbered base k ∧
      k + 1 ≤ g.vars.size + g.operations.size + 1 ∧
      ∀ trials, g.tryNames base 0 trials =
        if k + 1 ≤ trials then some (g.freshName base) else none := by
  obtain ⟨k, found, bound, free, passed⟩ := g.freshName_spec base
  refine ⟨k, ⟨?_, ?_⟩, found, Nat.succ_le_succ bound, fun trials => ?_⟩
  · exact not_or.1 (mt mem_usedNames.2 free)
  · intro i unused
    refine Nat.not_lt.1 fun before => ?_
    exact not_or.2 unused (mem_usedNames.1 (passed i before))
  · rw [tryNames_eq free (fun i _ => passed i) (Nat.zero_le k), Nat.zero_add, found]
    rfl

end Graph

end GraphDispatch
