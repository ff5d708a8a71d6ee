import GraphDispatch.Graph.Order
import GraphDispatch.Proofs.Acyclic

/-!
# Orders of execution exist

A graph without cycles has an order of execution, and what the sorting finds is one.
Between rounds an operation waits for those of its producers that are not listed yet.
-/

namespace GraphDispatch

variable {α : Type} {g : Graph α}

/-- A loop that can always go on comes to its end. -/
theorem foldlM_ok {β σ ε : Type} {l : List β} {f : σ → β → Except ε σ} {s : σ}
    (I : List β → σ → Prop) (step : ∀ b l s, I (b :: l) s → ∃ t, f s b = .ok t ∧ I l t)
    (h : I l s) : ∃ t, l.foldlM f s = .ok t ∧ I [] t := by
  induction l generalizing s with
  | nil => exact ⟨s, rfl, h⟩
  | cons b l ih =>
    obtain ⟨t, first, ht⟩ := step b l s h
    obtain ⟨u, rest, hu⟩ := ih ht
    refine ⟨u, ?_, hu⟩
    rw [List.foldlM_cons, first]
    exact rest

namespace Graph

theorem upstream_nodup (g : Graph α) (op : String) : (g.upstream op).Nodup := by
  unfold upstream
  split
  · exact eraseDups_nodup _
  · exact List.nodup_nil

theorem downstream_nodup (g : Graph α) (op : String) : (g.downstream op).Nodup := by
  unfold downstream
  split
  · exact eraseDups_nodup _
  · exact List.nodup_nil

theorem Linked.mem_consumersOf (hg : g.Linked) {var op : String} :
    op ∈ g.consumersOf var ↔ g.Reads op var := by
  rw [← List.count_pos_iff, hg.count_consumersOf, Reads]
  cases g.getOperation? op <;> simp [List.count_pos_iff]

theorem Linked.mem_downstream (hg : g.Linked) {p q : String} :
    q ∈ g.downstream p ↔ g.Feeds p q := by
  rw [hg.feeds_iff, downstream]
  constructor
  · intro hq
    split at hq
    · rename_i o ho
      rw [List.mem_eraseDups, List.mem_flatMap] at hq
      obtain ⟨var, made, reads⟩ := hq
      exact ⟨var, ⟨o, ho, made⟩, hg.mem_consumersOf.1 reads⟩
    · cases hq
  · rintro ⟨var, ⟨o, ho, made⟩, reads⟩
    rw [ho, List.mem_eraseDups, List.mem_flatMap]
    exact ⟨var, made, hg.mem_consumersOf.2 reads⟩

theorem Linked.feeds_known (hg : g.Linked) {p q : String} (edge : g.Feeds p q) :
    p ∈ g.operations ∧ q ∈ g.operations := by
  obtain ⟨var, ⟨o, ho, -⟩, o', ho', -⟩ := hg.feeds_iff.1 edge
  exact ⟨mem_operations_iff.2 ⟨o, ho⟩, mem_operations_iff.2 ⟨o', ho'⟩⟩

/-- How many operations that `op` waits for are not listed. -/
def waits (g : Graph α) (listed : List String) (op : String) : Nat :=
  ((g.upstream op).filter (· ∉ listed)).length

theorem waits_eq_zero {listed : List String} {op : String} :
    g.waits listed op = 0 ↔ ∀ p, g.Feeds p op → p ∈ listed := by
  unfold waits
  rw [List.length_eq_zero_iff, List.filter_eq_nil_iff]
  simp [Feeds]

theorem waits_cons {listed : List String} {op n : String} (edge : g.Feeds op n)
    (fresh : op ∉ listed) : g.waits listed n = g.waits (op :: listed) n + 1 := by
  have mem : op ∈ (g.upstream n).filter (· ∉ listed) :=
    List.mem_filter.2 ⟨edge, decide_eq_true fresh⟩
  have rest : (g.upstream n).filter (· ∉ op :: listed) =
      ((g.upstream n).filter (· ∉ listed)).erase op := by
    rw [((g.upstream_nodup n).filter _).erase_eq_filter, List.filter_filter]
    apply List.filter_congr
    intro m _
    rw [Bool.eq_iff_iff]
    simp [List.mem_cons, not_or]
  unfold waits
  rw [rest, List.length_erase_of_mem mem]
  have := List.length_pos_of_mem mem
  omega

theorem waits_cons_of_not_feeds {listed : List String} {op n : String} (none : ¬g.Feeds op n) :
    g.waits (op :: listed) n = g.waits listed n := by
  unfold waits
  congr 1
  apply List.filter_congr
  intro m hm
  have hne : m ≠ op := by
    rintro rfl
    exact none hm
  simp [hne]

end Graph

namespace Sorting

open GraphDispatch.Graph

/-- Every operation is listed behind all that feed it; the list is latest first. -/
def Closed (g : Graph α) (order : List String) : Prop :=
  ∀ after op before, order = after ++ op :: before → ∀ p, g.Feeds p op → p ∈ before

theorem Closed.cons {order : List String} {op : String} (closed : Closed g order)
    (fed : ∀ p, g.Feeds p op → p ∈ order) : Closed g (op :: order) := by
  intro after n before split
  cases after with
  | nil =>
    cases split
    exact fed
  | cons m after =>
    rw [List.cons_append, List.cons.injEq] at split
    exact closed after n before split.2

/-- The state between two rounds. -/
structure Sound (g : Graph α) (s : Sorting) : Prop where
  pending : ∀ n, s.pending.get? n =
    if n ∈ g.operations then some (g.waits s.order n : Int) else none
  ready_iff : ∀ n, n ∈ s.ready ↔ n ∈ g.operations ∧ n ∉ s.order ∧ g.waits s.order n = 0
  ready_nodup : s.ready.Nodup
  order_nodup : s.order.Nodup
  order_known : ∀ n ∈ s.order, n ∈ g.operations
  closed : Closed g s.order

theorem sound_start (g : Graph α) : Sound g (start g) := by
  have length : ∀ n, g.waits [] n = (g.upstream n).length := fun n => by simp [waits]
  have pending : ∀ n, (start g).pending.get? n =
      if n ∈ g.operations then some (g.waits [] n : Int) else none := by
    intro n
    change (g.operations.mapEntries fun op _ => ((g.upstream op).length : Int)).get? n = _
    rw [NameMap.get?_mapEntries]
    split
    · obtain ⟨o, ho⟩ := NameMap.mem_iff.1 ‹n ∈ g.operations›
      rw [ho, length]
      rfl
    · rw [NameMap.get?_eq_none_iff.2 ‹n ∉ g.operations›]
      rfl
  refine ⟨pending, fun n => ?_, ?_, List.nodup_nil, fun n hn => (by cases hn), ?_⟩
  · change n ∈ (((start g).pending.entries.filter (·.2 = 0)).map (·.1)) ↔ _
    simp only [List.mem_map, List.mem_filter, decide_eq_true_eq, Prod.exists, exists_eq_right,
      exists_and_right, ← NameMap.get?_eq_some_iff, pending]
    have order : (start g).order = [] := rfl
    by_cases known : n ∈ g.operations
    · simp [known, order]
    · simp [known]
  · change (((start g).pending.entries.filter (·.2 = 0)).map (·.1)).Nodup
    exact (start g).pending.names_nodup.sublist (List.filter_sublist.map _)
  · intro after op before split
    cases after <;> cases split

/-- The state while the consumers `todo` of `op` are still to be told. -/
structure Settling (g : Graph α) (op : String) (order : List String) (todo : List String)
    (s : Sorting) : Prop where
  listed : s.order = op :: order
  nodup : todo.Nodup
  edges : ∀ n ∈ todo, g.Feeds op n
  pending : ∀ n, s.pending.get? n = if n ∈ g.operations then
    some (if n ∈ todo then (g.waits order n : Int) else g.waits (op :: order) n) else none
  ready_iff : ∀ n, n ∈ s.ready ↔
    n ∈ g.operations ∧ n ∉ op :: order ∧ n ∉ todo ∧ g.waits (op :: order) n = 0
  ready_nodup : s.ready.Nodup

theorem settle_ok (hg : g.Linked) {op n : String} {order todo : List String} {s : Sorting}
    (fresh : op ∉ order) (closed : Closed g (op :: order)) (h : Settling g op order (n :: todo) s) :
    ∃ t, settle op s n = .ok t ∧ Settling g op order todo t := by
  have edge := h.edges n List.mem_cons_self
  obtain ⟨unlisted, nodup⟩ := List.nodup_cons.1 h.nodup
  have known := (hg.feeds_known edge).2
  have count := waits_cons edge fresh
  have found : s.pending.get? n = some (g.waits order n : Int) := by
    rw [h.pending, if_pos known, if_pos List.mem_cons_self]
  -- what waits for `op` is listed behind it only
  have later : n ∉ op :: order := by
    intro hn
    rcases List.mem_cons.1 hn with rfl | hn
    · exact fresh (closed [] n order rfl n edge)
    · obtain ⟨after, before, rfl⟩ := List.append_of_mem hn
      have behind := closed (op :: after) n before rfl op edge
      exact fresh (List.mem_append_right _ (List.mem_cons_of_mem _ behind))
  have pending : ∀ m, (s.pending.insert n ((g.waits order n : Int) - 1)).get? m =
      if m ∈ g.operations then
        some (if m ∈ todo then (g.waits order m : Int) else g.waits (op :: order) m) else none := by
    intro m
    rw [NameMap.get?_insert]
    by_cases hm : m = n
    · subst hm
      rw [if_pos rfl, if_pos known, if_neg unlisted, count]
      simp
    · rw [if_neg hm, h.pending]
      simp [hm]
  unfold settle
  simp only [found]
  have value : (g.waits order n : Int) - 1 = 0 ↔ g.waits (op :: order) n = 0 := by
    rw [count]
    omega
  by_cases none : g.waits (op :: order) n = 0
  · rw [if_pos (value.2 none)]
    refine ⟨_, rfl, h.listed, nodup, fun m hm => h.edges m (List.mem_cons_of_mem _ hm), pending,
      fun m => ?_, ?_⟩
    · rw [List.mem_append, List.mem_singleton, h.ready_iff]
      by_cases hm : m = n
      · subst hm
        simp [known, later, unlisted, none]
      · simp [hm]
    · refine List.nodup_append.2 ⟨h.ready_nodup, by simp, fun a ha b hb => ?_⟩
      rintro rfl
      rw [List.mem_singleton.1 hb, h.ready_iff] at ha
      exact ha.2.2.1 List.mem_cons_self
  · rw [if_neg (mt value.1 none)]
    refine ⟨_, rfl, h.listed, nodup, fun m hm => h.edges m (List.mem_cons_of_mem _ hm), pending,
      fun m => ?_, h.ready_nodup⟩
    rw [h.ready_iff]
    by_cases hm : m = n
    · subst hm
      simp [none]
    · simp [hm]

/-- An operation that is ready may be listed next. -/
theorem Sound.closed_cons {op : String} {s : Sorting} (h : Sound g s) (hop : op ∈ s.ready) :
    Closed g (op :: s.order) := by
  obtain ⟨-, -, none⟩ := (h.ready_iff op).1 hop
  exact h.closed.cons (waits_eq_zero.1 none)

/-- A round begins with all consumers of its operation still to be told. -/
theorem Sound.settling (hg : g.Linked) {op : String} {ready : List String} {s : Sorting}
    (h : Sound g s) (hr : s.ready = op :: ready) :
    Settling g op s.order (g.downstream op) { s with ready, order := op :: s.order } := by
  obtain ⟨-, fresh, none⟩ := (h.ready_iff op).1 (by rw [hr]; exact List.mem_cons_self)
  have nodup := hr ▸ h.ready_nodup
  refine ⟨rfl, g.downstream_nodup op, fun n hn => hg.mem_downstream.1 hn, fun n => ?_, fun n => ?_,
    (List.nodup_cons.1 nodup).2⟩
  · change s.pending.get? n = _
    rw [h.pending]
    by_cases told : n ∈ g.downstream op
    · rw [if_pos told]
    · rw [if_neg told, waits_cons_of_not_feeds fun edge => told (hg.mem_downstream.2 edge)]
  · have ready_iff := h.ready_iff n
    rw [hr, List.mem_cons] at ready_iff
    change n ∈ ready ↔ _
    rw [hg.mem_downstream]
    constructor
    · intro hn
      obtain ⟨known, unlisted, waiting⟩ := ready_iff.1 (Or.inr hn)
      have hne : n ≠ op := by
        rintro rfl
        exact (List.nodup_cons.1 nodup).1 hn
      have edge : ¬g.Feeds op n := fun edge => fresh (waits_eq_zero.1 waiting op edge)
      refine ⟨known, fun hmem => (List.mem_cons.1 hmem).elim hne unlisted, edge, ?_⟩
      rw [waits_cons_of_not_feeds edge, waiting]
    · rintro ⟨known, unlisted, edge, waiting⟩
      rw [List.mem_cons, not_or] at unlisted
      rw [waits_cons_of_not_feeds edge] at waiting
      exact (ready_iff.2 ⟨known, unlisted.2, waiting⟩).resolve_left unlisted.1

theorem round_ok (hg : g.Linked) {op : String} {ready : List String} {s : Sorting}
    (h : Sound g s) (hr : s.ready = op :: ready) :
    ∃ t, s.round g = .ok t ∧ Sound g t ∧ t.order = op :: s.order := by
  have hop : op ∈ s.ready := by rw [hr]; exact List.mem_cons_self
  obtain ⟨known, fresh, -⟩ := (h.ready_iff op).1 hop
  have closed := h.closed_cons hop
  obtain ⟨t, run, done⟩ := foldlM_ok (Settling g op s.order)
    (fun n l s h => settle_ok hg fresh closed h) (h.settling hg hr)
  refine ⟨t, ?_, ⟨fun n => ?_, fun n => ?_, done.ready_nodup, ?_, fun n hn => ?_, ?_⟩, done.listed⟩
  · rw [round, hr]
    exact run
  · rw [done.pending, done.listed]
    simp
  · rw [done.ready_iff, done.listed]
    simp
  · rw [done.listed]
    exact List.nodup_cons.2 ⟨fresh, h.order_nodup⟩
  · rw [done.listed] at hn
    exact (List.mem_cons.1 hn).elim (fun e => e ▸ known) (h.order_known n)
  · rw [done.listed]
    exact closed

theorem round_idle {s : Sorting} (hr : s.ready = []) : s.round g = .ok s := by
  rw [round, hr]
  rfl

theorem rounds_idle (l : List String) {s : Sorting} (hr : s.ready = []) :
    l.foldlM (fun s _ => s.round g) s = .ok s := by
  induction l with
  | nil => rfl
  | cons a l ih =>
    rw [List.foldlM_cons, round_idle hr]
    exact ih

/-- While nothing keeps the rounds from going on, each lists one operation. -/
theorem rounds_ok (hg : g.Linked) (l : List String) {s : Sorting} (h : Sound g s) :
    ∃ t, l.foldlM (fun s _ => s.round g) s = .ok t ∧ Sound g t ∧
      (t.ready = [] ∨ t.order.length = s.order.length + l.length) := by
  induction l generalizing s with
  | nil => exact ⟨s, rfl, h, Or.inr rfl⟩
  | cons a l ih =>
    cases hr : s.ready with
    | nil => exact ⟨s, rounds_idle (a :: l) hr, h, Or.inl hr⟩
    | cons op ready =>
      obtain ⟨t, first, sound, listed⟩ := round_ok hg h hr
      obtain ⟨u, run, sound', ends⟩ := ih sound
      refine ⟨u, ?_, sound', ends.imp_right fun length => ?_⟩
      · rw [List.foldlM_cons, first]
        exact run
      · rw [length, listed, List.length_cons, List.length_cons]
        omega

/-- Where nothing is ready any more, a graph without cycles is listed. -/
theorem Sound.complete (hg : g.Linked) (acyclic : g.Acyclic) {s : Sorting} (h : Sound g s)
    (idle : s.ready = []) : ∀ n ∈ g.operations, n ∈ s.order := by
  obtain ⟨rank, ranked⟩ := hg.acyclic_iff_ranked.1 acyclic
  intro n
  induction k : rank n using Nat.strong_induction_on generalizing n with
  | _ k ih =>
    intro known
    apply Classical.byContradiction
    intro unlisted
    have fed : ∀ p, g.Feeds p n → p ∈ s.order := fun p edge =>
      ih (rank p) (k ▸ ranked p n edge) p rfl (hg.feeds_known edge).1
    have waiting := (h.ready_iff n).2 ⟨known, unlisted, waits_eq_zero.2 fed⟩
    rw [idle] at waiting
    cases waiting

/-- An order under construction that has every operation is an order of execution. -/
theorem Sound.listsInOrder {s : Sorting} (h : Sound g s)
    (length : s.order.length = g.operations.size) : g.ListsInOrder s.order.reverse where
  nodup := List.nodup_reverse.2 h.order_nodup
  mem_iff op := by
    have known : s.order ⊆ g.operations.names :=
      fun n hn => NameMap.mem_names.2 (h.order_known n hn)
    have perm := (h.order_nodup.subperm known).perm_of_length_le
      (by rw [NameMap.length_names, length])
    rw [List.mem_reverse, perm.mem_iff, NameMap.mem_names]
  producers_first before op after split p edge := by
    have reversed : s.order = after.reverse ++ op :: before.reverse := by
      have := congrArg List.reverse split
      simpa using this
    exact List.mem_reverse.1 (h.closed _ op _ reversed p edge)

end Sorting

namespace Graph

open Sorting

/-- After the rounds the order stands if it has every operation. -/
theorem executionOrder_eq {s : Sorting}
    (run : g.operations.names.foldlM (fun s _ => s.round g) (Sorting.start g) = .ok s) :
    g.executionOrder = if s.order.length = g.operations.size then .ok s.order.reverse
      else .error (.cycle g.name) := by
  unfold executionOrder
  rw [run]
  rfl

/-- A graph without cycles has an order of execution. -/
theorem Linked.executionOrder_ok (hg : g.Linked) (acyclic : g.Acyclic) :
    ∃ order, g.executionOrder = .ok order ∧ g.ListsInOrder order := by
  obtain ⟨s, run, sound, ends⟩ := rounds_ok hg g.operations.names (sound_start g)
  have length : s.order.length = g.operations.size := by
    rcases ends with idle | length
    · have perm : s.order.Perm g.operations.names :=
        (List.perm_ext_iff_of_nodup sound.order_nodup g.operations.names_nodup).2 fun n =>
          ⟨fun hn => NameMap.mem_names.2 (sound.order_known n hn),
            fun hn => sound.complete hg acyclic idle n (NameMap.mem_names.1 hn)⟩
      rw [perm.length_eq, NameMap.length_names]
    · rw [length, NameMap.length_names]
      exact Nat.zero_add _
  exact ⟨s.order.reverse, (executionOrder_eq run).trans (if_pos length), sound.listsInOrder length⟩

/-- What the sorting returns is an order of execution. -/
theorem Linked.listsInOrder (hg : g.Linked) {order : List String}
    (h : g.executionOrder = .ok order) : g.ListsInOrder order := by
  obtain ⟨s, run, sound, -⟩ := rounds_ok hg g.operations.names (sound_start g)
  rw [executionOrder_eq run] at h
  split at h
  · rename_i length
    cases h
    exact sound.listsInOrder length
  · cases h

/-- The place of an operation in an order ranks it. -/
theorem ListsInOrder.acyclic {order : List String} (h : g.ListsInOrder order) : g.Acyclic := by
  have ranked : g.Ranked order.idxOf := by
    apply ranked_iff.2
    intro q hq p edge
    obtain ⟨before, after, split⟩ := List.append_of_mem ((h.mem_iff q).2 (NameMap.mem_names.1 hq))
    have first : p ∈ before := h.producers_first before q after split p edge
    have fresh : q ∉ before := by
      have nodup := h.nodup
      rw [split, List.nodup_append] at nodup
      intro hmem
      exact nodup.2.2 q hmem q List.mem_cons_self rfl
    rw [split, List.idxOf_append_of_mem first, List.idxOf_append_of_notMem fresh,
      List.idxOf_cons_self]
    exact Nat.lt_add_right _ (List.idxOf_lt_length_of_mem first)
  exact ranked.acyclic

end Graph

end GraphDispatch
