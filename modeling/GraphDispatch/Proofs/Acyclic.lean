import GraphDispatch.Proofs.Links.Content
import Mathlib.Data.Finset.Card
import Mathlib.Logic.Relation

/-!
# Graphs without cycles

A graph has no cycle exactly if its operations can be ranked so that each ranks
above all that feed it (`Graph.acyclic_iff_ranked`). Edits change the rank where
they change the graph, which is easier to follow than paths.
-/

namespace GraphDispatch.Graph

variable {α : Type} {g g' : Graph α} {rank : String → Nat}

/-- No operation depends on itself. -/
def Acyclic (g : Graph α) : Prop := ∀ op, ¬Relation.TransGen g.Feeds op op

/-- Every operation ranks above all that feed it. -/
def Ranked (g : Graph α) (rank : String → Nat) : Prop := ∀ p q, g.Feeds p q → rank p < rank q

theorem Ranked.acyclic (h : g.Ranked rank) : g.Acyclic := by
  have grows : ∀ p q, Relation.TransGen g.Feeds p q → rank p < rank q := by
    intro p q path
    induction path with
    | single edge => exact h _ _ edge
    | tail _ edge ih => exact ih.trans (h _ _ edge)
  intro op loop
  exact Nat.lt_irrefl _ (grows op op loop)

/-- Only the operations of the graph have to be looked at. -/
theorem ranked_iff : g.Ranked rank ↔
    ∀ q ∈ g.operations.names, ∀ p ∈ g.upstream q, rank p < rank q := by
  constructor
  · exact fun h q _ p edge => h p q edge
  · intro h p q edge
    refine h q ?_ p edge
    by_contra unknown
    have absent : g.getOperation? q = none :=
      NameMap.get?_eq_none_iff.2 fun known => unknown (NameMap.mem_names.2 known)
    unfold Feeds upstream at edge
    rw [absent] at edge
    cases edge

instance : Decidable (g.Ranked rank) := decidable_of_iff _ ranked_iff.symm

theorem Linked.acyclic_iff_ranked (hg : g.Linked) : g.Acyclic ↔ ∃ rank, g.Ranked rank := by
  constructor
  · intro acyclic
    classical
    -- the number of operations that an operation depends on
    let below (n : String) := g.operations.names.toFinset.filter (Relation.TransGen g.Feeds · n)
    refine ⟨fun n => (below n).card, fun p q edge => Finset.card_lt_card ⟨?_, fun contains => ?_⟩⟩
    · intro n hn
      obtain ⟨known, path⟩ := Finset.mem_filter.1 hn
      exact Finset.mem_filter.2 ⟨known, path.tail edge⟩
    · obtain ⟨var, ⟨o, ho, -⟩, -⟩ := hg.feeds_iff.1 edge
      have known : p ∈ g.operations.names.toFinset :=
        List.mem_toFinset.2 (NameMap.mem_names.2 (mem_operations_iff.2 ⟨o, ho⟩))
      have self := contains (Finset.mem_filter.2 ⟨known, .single edge⟩)
      exact acyclic p (Finset.mem_filter.1 self).2
  · rintro ⟨rank, h⟩
    exact h.acyclic

/-- No operation reads what it produces. -/
theorem Acyclic.not_reads (acyclic : g.Acyclic) (hg : g.Linked) {op var : String}
    (produces : g.Produces op var) : ¬g.Reads op var := by
  intro reads
  have loop : g.Feeds op op := hg.feeds_iff.2 ⟨var, produces, reads⟩
  exact acyclic op (.single loop)

/-- A path of two edges may become one. -/
theorem Ranked.shorten (h : g.Ranked rank)
    (edges : ∀ p q, g'.Feeds p q → g.Feeds p q ∨ ∃ m, g.Feeds p m ∧ g.Feeds m q) :
    g'.Ranked rank := by
  intro p q edge
  rcases edges p q edge with edge | ⟨m, first, second⟩
  · exact h p q edge
  · exact (h p m first).trans (h m q second)

/-- An operation fed by `p` alone may feed what ranks above `p`. -/
theorem Ranked.relay (h : g.Ranked rank) {p s : String} (hne : p ≠ s)
    (into : ∀ n, g'.Feeds n s → n = p) (out : ∀ n, g'.Feeds s n → rank p < rank n)
    (beside : ∀ m n, m ≠ s → n ≠ s → g'.Feeds m n → g.Feeds m n) :
    g'.Ranked fun n => if n = s then 2 * rank p + 1 else 2 * rank n := by
  intro m n edge
  dsimp only
  by_cases hm : m = s
  · subst hm
    have hn : n ≠ m := by
      rintro rfl
      exact hne (into n edge).symm
    have below := out n edge
    rw [if_pos rfl, if_neg hn]
    omega
  · rw [if_neg hm]
    by_cases hn : n = s
    · subst hn
      rw [if_pos rfl, into m edge]
      omega
    · rw [if_neg hn]
      have below := h m n (beside m n hm hn edge)
      omega

end GraphDispatch.Graph
