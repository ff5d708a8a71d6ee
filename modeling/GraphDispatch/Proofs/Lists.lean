import Mathlib.Data.List.Forall2
import Mathlib.Data.List.Induction

/-!
# Lists

A list without an element, the first element that lacks a property or is repeated, and lists
related element by element.
-/

namespace GraphDispatch

theorem filter_ne_of_not_mem {a : String} {l : List String} (h : a ∉ l) :
    l.filter (· ≠ a) = l :=
  List.filter_eq_self.2 fun _ hb => decide_eq_true (ne_of_mem_of_not_mem hb h)

theorem exists_first_not {β : Type} {p : β → Prop} {l : List β} (h : ¬∀ b ∈ l, p b) :
    ∃ before b rest, l = before ++ b :: rest ∧ (∀ c ∈ before, p c) ∧ ¬p b := by
  induction l with
  | nil => exact absurd (by simp) h
  | cons b l ih =>
    by_cases hb : p b
    · have tail : ¬∀ c ∈ l, p c := fun tail => h (List.forall_mem_cons.2 ⟨hb, tail⟩)
      obtain ⟨before, c, rest, rfl, holds, hc⟩ := ih tail
      exact ⟨b :: before, c, rest, rfl, List.forall_mem_cons.2 ⟨hb, holds⟩, hc⟩
    · exact ⟨[], b, l, rfl, by simp, hb⟩

theorem exists_first_repeated {β : Type} {l : List β} (h : ¬l.Nodup) :
    ∃ before b rest, l = before ++ b :: rest ∧ before.Nodup ∧ b ∈ before := by
  induction l using List.reverseRecOn with
  | nil => exact absurd List.nodup_nil h
  | append_singleton l a ih =>
    by_cases nodup : l.Nodup
    · refine ⟨l, a, [], rfl, nodup, ?_⟩
      by_contra fresh
      exact h (List.nodup_append.2 ⟨nodup, by simp, by grind⟩)
    · obtain ⟨before, b, rest, rfl, repeated⟩ := ih nodup
      exact ⟨before, b, rest ++ [a], by simp, repeated⟩

theorem exists_of_forall₂ {β γ : Type} {R : β → γ → Prop} {l : List β} {m : List γ}
    (h : List.Forall₂ R l m) {b : β} (hb : b ∈ l) : ∃ c ∈ m, R b c := by
  induction h with
  | nil => cases hb
  | cons first _ ih =>
    rcases List.mem_cons.1 hb with rfl | hb
    · exact ⟨_, List.mem_cons_self, first⟩
    · obtain ⟨c, hc, related⟩ := ih hb
      exact ⟨c, List.mem_cons_of_mem _ hc, related⟩

theorem getElem?_of_forall₂ {β γ : Type} {R : β → γ → Prop} {l : List β} {m : List γ}
    (h : List.Forall₂ R l m) {i : Nat} {b : β} (hb : l[i]? = some b) :
    ∃ c, m[i]? = some c ∧ R b c := by
  induction h generalizing i with
  | nil => cases hb
  | @cons b' c' _ _ first _ ih =>
    cases i with
    | zero =>
      cases hb
      exact ⟨c', rfl, first⟩
    | succ i => exact ih hb

end GraphDispatch
