import GraphDispatch.Graph.Basic

/-!
# Lists of consumers

A list of consumers is sorted, so it is determined by how often it names each
operation.
-/

namespace GraphDispatch

theorem mem_insertName {n m : String} {l : List String} :
    m ∈ insertName n l ↔ m = n ∨ m ∈ l := by
  induction l with
  | nil => simp [insertName]
  | cons a l ih =>
    rw [insertName]
    split
    · simp only [List.mem_cons, ih]
      exact or_left_comm
    · simp [List.mem_cons]

theorem count_insertName (n m : String) (l : List String) :
    (insertName n l).count m = l.count m + if m = n then 1 else 0 := by
  induction l with
  | nil => grind [insertName]
  | cons a l ih => grind [insertName]

theorem insertName_sorted {n : String} {l : List String} (h : l.Pairwise (· ≤ ·)) :
    (insertName n l).Pairwise (· ≤ ·) := by
  induction l with
  | nil => exact List.pairwise_singleton _ _
  | cons a l ih =>
    have ha : ∀ b ∈ l, a ≤ b := fun b hb => List.rel_of_pairwise_cons h hb
    rw [insertName]
    split
    · refine List.pairwise_cons.2 ⟨fun b hb => ?_, ih h.of_cons⟩
      rcases mem_insertName.1 hb with rfl | hb
      · assumption
      · exact ha b hb
    · have hn : n ≤ a := (String.le_total n a).resolve_right ‹_›
      refine List.pairwise_cons.2 ⟨fun b hb => ?_, h⟩
      rcases List.mem_cons.1 hb with rfl | hb
      · exact hn
      · exact String.le_trans hn (ha b hb)

/-- Sorted lists that name everything equally often are equal. -/
theorem eq_of_count_eq {l r : List String} (hl : l.Pairwise (· ≤ ·)) (hr : r.Pairwise (· ≤ ·))
    (h : ∀ n, l.count n = r.count n) : l = r :=
  List.Perm.eq_of_pairwise (fun _ _ _ _ => String.le_antisymm) hl hr
    (List.perm_iff_count.2 h)

theorem eraseDups_nodup (l : List String) : l.eraseDups.Nodup := by
  -- erasing shortens what the recursion goes on with
  induction h : l.length using Nat.strongRecOn generalizing l with
  | ind n ih =>
    cases l with
    | nil => exact List.nodup_nil
    | cons a l =>
      rw [List.eraseDups_cons, List.nodup_cons]
      have shorter := List.length_filter_le (fun b => !b == a) l
      have shorter : (l.filter fun b => !b == a).length < n := by
        rw [← h, List.length_cons]
        omega
      refine ⟨fun ha => ?_, ih _ shorter _ rfl⟩
      rw [List.mem_eraseDups] at ha
      simpa using (List.mem_filter.1 ha).2

variable {α : Type}

namespace Variable

theorem consumerNames_nodup (v : Variable α) : v.consumerNames.Nodup := eraseDups_nodup _

theorem repeat_addConsumer (op : String) (k : Nat) (v : Variable α) :
    ∃ l, Nat.repeat (addConsumer op) k v = { v with consumers := l } ∧
      (v.consumers.Pairwise (· ≤ ·) → l.Pairwise (· ≤ ·)) ∧
      ∀ n, l.count n = v.consumers.count n + if n = op then k else 0 := by
  induction k with
  | zero => exact ⟨v.consumers, rfl, id, fun n => by simp⟩
  | succ k ih =>
    obtain ⟨l, hl, sorted, count⟩ := ih
    refine ⟨insertName op l, by rw [Nat.repeat, hl, addConsumer],
      fun h => insertName_sorted (sorted h), fun n => ?_⟩
    rw [count_insertName, count]
    split <;> omega

end Variable

end GraphDispatch
