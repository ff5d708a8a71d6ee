import GraphDispatch.Proofs.Links.Runs
import GraphDispatch.Proofs.Order

/-!
# The sorting of operations

A count goes down once for each consumer that is told, and a consumer is told once by each
operation it waits for. So no count falls below zero, no consumer is missing, and the sorting
fails for cycles only.
-/

namespace GraphDispatch

variable {α : Type} {g : Graph α}

namespace Sorting

/-- The states between two rounds. -/
inductive Between (g : Graph α) : Sorting → Prop where
  | start : Between g (start g)
  | round {s t : Sorting} : Between g s → s.round g = .ok t → Between g t

/-- The states that the sorting passes through: those between two rounds, and within a round
those in which some of the consumers have been told. -/
inductive Passes (g : Graph α) : Sorting → Prop where
  | between {s : Sorting} : Between g s → Passes g s
  | within {s t : Sorting} {op : String} {ready told rest : List String} : Between g s →
    s.ready = op :: ready → g.downstream op = told ++ rest →
    told.foldlM (settle op) { s with ready, order := op :: s.order } = .ok t → Passes g t

theorem Between.sound (hg : g.Linked) {s : Sorting} (h : Between g s) : Sound g s := by
  induction h with
  | start => exact sound_start g
  | @round s t _ run ih =>
    cases hr : s.ready with
    | nil =>
      rw [round_idle hr] at run
      cases run
      exact ih
    | cons op ready =>
      obtain ⟨u, run', sound, -⟩ := round_ok hg ih hr
      cases run.symm.trans run'
      exact sound

/-- After the consumers `told` the others are still to be told. -/
theorem Sound.told (hg : g.Linked) {s t : Sorting} {op : String} {ready told rest : List String}
    (h : Sound g s) (hr : s.ready = op :: ready) (split : g.downstream op = told ++ rest)
    (run : told.foldlM (settle op) { s with ready, order := op :: s.order } = .ok t) :
    Settling g op s.order rest t := by
  have hop : op ∈ s.ready := by simp [hr]
  obtain ⟨-, fresh, -⟩ := (h.ready_iff op).1 hop
  have start : Settling g op s.order (told ++ rest) { s with ready, order := op :: s.order } :=
    split ▸ h.settling hg hr
  obtain ⟨u, run', settling⟩ := foldlM_ok (fun l => Settling g op s.order (l ++ rest))
    (fun n l s hs => settle_ok hg fresh (h.closed_cons hop) hs) start
  cases run.symm.trans run'
  exact settling

/-- A count is a number of operations that are not listed yet. -/
theorem Passes.pending_nonneg (hg : g.Linked) {s : Sorting} (h : Passes g s) {op : String} {n : Int}
    (found : s.pending.get? op = some n) : 0 ≤ n := by
  cases h with
  | between h =>
    rw [(h.sound hg).pending] at found
    split at found
    · simp only [Option.some.injEq] at found
      omega
    · cases found
  | within h hr split run =>
    rw [((h.sound hg).told hg hr split run).pending] at found
    split at found
    · simp only [Option.some.injEq] at found
      split at found <;> omega
    · cases found

end Sorting

namespace Graph

/-- Where the sorting fails, it is for a cycle. -/
theorem Linked.eq_cycle_of_error (hg : g.Linked) {e : OrderError} (h : g.executionOrder = .error e) :
    e = .cycle g.name := by
  obtain ⟨s, run, -⟩ := Sorting.rounds_ok hg g.operations.names (Sorting.sound_start g)
  rw [executionOrder_eq run] at h
  split at h
  · cases h
  · cases h
    rfl

theorem Linked.executionOrder_ok_iff (hg : g.Linked) :
    (∃ order, g.executionOrder = .ok order) ↔ g.Acyclic := by
  constructor
  · rintro ⟨order, run⟩
    exact (hg.listsInOrder run).acyclic
  · intro acyclic
    obtain ⟨order, run, -⟩ := hg.executionOrder_ok acyclic
    exact ⟨order, run⟩

end Graph

variable [Scalar α]

/-- Sorting succeeds exactly if no operation depends on itself, and lists the operations in
order then. On the way no count is negative, and no consumer is missing. -/
theorem executionOrder_spec (reachable : Reachable g) :
    (∀ p q, g.Feeds p q ↔ ∃ var, g.Produces p var ∧ g.Reads q var) ∧
    ((∃ order, g.executionOrder = .ok order) ↔ g.Acyclic) ∧
    (∀ order, g.executionOrder = .ok order → g.ListsInOrder order) ∧
    (∀ s, Sorting.Passes g s → ∀ op n, s.pending.get? op = some n → 0 ≤ n) ∧
    ∀ e, g.executionOrder = .error e → e = .cycle g.name := by
  have linked := reachable.linked
  refine ⟨fun p q => linked.feeds_iff, linked.executionOrder_ok_iff, ?_, ?_, ?_⟩
  · intro order run
    exact linked.listsInOrder run
  · intro s passes op n found
    exact passes.pending_nonneg linked found
  · intro e failed
    exact linked.eq_cycle_of_error failed

/-- `join` reads both variables of `split`, one of them twice, and what it produces itself. -/
def loop : List (Action Float32) :=
  [.createVariable "x" none, .createVariable "y" none, .createVariable "z" none,
    .createOperation "split" "Split" ∅ [] ["x", "y"],
    .createOperation "join" "Concat" ∅ ["x", "y", "x"] ["z"], .appendInput "join" "z"]

def looped : Graph Float32 := performAll (.empty "net") loop

theorem executionOrder_spec_looped :
    looped.executionOrder = .error (.cycle "net") ∧ ¬looped.Acyclic ∧
      ∀ s, Sorting.Passes looped s → ∀ op n, s.pending.get? op = some n → 0 ≤ n := by
  obtain ⟨-, ok_iff, -, counts, -⟩ := executionOrder_spec (g := looped) ⟨_, loop, .empty "net", rfl⟩
  have failed : looped.executionOrder = .error (.cycle "net") := rfl
  refine ⟨failed, ?_, counts⟩
  intro acyclic
  obtain ⟨order, run⟩ := ok_iff.2 acyclic
  rw [failed] at run
  cases run

end GraphDispatch
