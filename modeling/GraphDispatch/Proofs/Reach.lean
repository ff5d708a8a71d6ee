import GraphDispatch.Graph.Reach

/-!
# What a search reaches
-/

namespace GraphDispatch

/-- A name that can be reached from the queue through fresh names. -/
inductive Reached (next : String → List String) (fresh queue : List String) : String → Prop where
  | start {n} : n ∈ queue → n ∈ fresh → Reached next fresh queue n
  | step {m n} : Reached next fresh queue m → n ∈ next m → n ∈ fresh → Reached next fresh queue n

theorem Reached.visit {next : String → List String} {fresh queue : List String} {n m : String}
    (hn : n ∈ fresh) : Reached next fresh (n :: queue) m ↔
      m = n ∨ Reached next (fresh.erase n) (queue ++ next n) m := by
  have remains : ∀ {k}, k ∈ fresh → k ≠ n → k ∈ fresh.erase n :=
    fun hk hne => (List.mem_erase_of_ne hne).2 hk
  constructor
  · intro h
    induction h with
    | @start k queued unvisited =>
      by_cases hk : k = n
      · exact Or.inl hk
      · refine Or.inr (.start (List.mem_append_left _ ?_) (remains unvisited hk))
        exact (List.mem_cons.1 queued).resolve_left hk
    | @step k l _ edge unvisited ih =>
      by_cases hl : l = n
      · exact Or.inl hl
      · refine Or.inr ?_
        rcases ih with rfl | reached
        · exact .start (List.mem_append_right _ edge) (remains unvisited hl)
        · exact .step reached edge (remains unvisited hl)
  · rintro (rfl | h)
    · exact .start List.mem_cons_self hn
    · induction h with
      | start queued unvisited =>
        have unvisited := List.mem_of_mem_erase unvisited
        rcases List.mem_append.1 queued with queued | edge
        · exact .start (List.mem_cons_of_mem _ queued) unvisited
        · exact .step (.start List.mem_cons_self hn) edge unvisited
      | step _ edge unvisited ih => exact .step ih edge (List.mem_of_mem_erase unvisited)

theorem Reached.skip {next : String → List String} {fresh queue : List String} {n m : String}
    (hn : n ∉ fresh) : Reached next fresh (n :: queue) m ↔ Reached next fresh queue m := by
  constructor
  · intro h
    induction h with
    | start queued unvisited =>
      refine .start ((List.mem_cons.1 queued).resolve_left ?_) unvisited
      rintro rfl
      exact hn unvisited
    | step _ edge unvisited ih => exact .step ih edge unvisited
  · intro h
    induction h with
    | start queued unvisited => exact .start (List.mem_cons_of_mem _ queued) unvisited
    | step _ edge unvisited ih => exact .step ih edge unvisited

theorem mem_reach {next : String → List String} {fresh queue : List String} {m : String} :
    m ∈ reach next fresh queue ↔ Reached next fresh queue m := by
  fun_induction reach next fresh queue with
  | case1 fresh =>
    refine ⟨fun h => (by cases h), fun h => ?_⟩
    induction h with
    | start queued => cases queued
    | step _ _ _ ih => cases ih
  | case2 fresh n queue hn ih => rw [List.mem_cons, ih, Reached.visit hn]
  | case3 fresh n queue hn ih => rw [ih, Reached.skip hn]

end GraphDispatch
