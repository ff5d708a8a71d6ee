import GraphDispatch.Proofs.Outcomes
import GraphDispatch.Proofs.Rewrite.Canonical
import GraphDispatch.Proofs.Rewrite.Constants
import GraphDispatch.Rewrite.Format

/-!
# Where a pass stops

A pass over the operations of a type fails at the first one with a flaw. What it leaves behind is
the work of its steps on the operations before that one: no step is left half done, and none gives
another operation a flaw or takes one away. What a step has made stays when others follow.
-/

namespace GraphDispatch

open GraphDispatch.Graph

variable {α : Type} {g h : Graph α}

/-- The operations of a type in front of one of them. -/
def Graph.earlier (g : Graph α) (type op : String) : List String :=
  (g.operationsOfType type).filter (· < op)

theorem Graph.Linked.earlier_eq (hg : g.Linked) {type op : String} {before after : List String}
    (split : g.operationsOfType type = before ++ op :: after) : g.earlier type op = before := by
  have ascending := hg.operationsOfType_ascending type
  rw [split, List.pairwise_append, List.pairwise_cons] at ascending
  obtain ⟨-, ⟨behind, -⟩, front⟩ := ascending
  have none : (op :: after).filter (· < op) = [] := by
    refine List.filter_eq_nil_iff.2 fun n hn before => ?_
    have before : n < op := of_decide_eq_true before
    rcases List.mem_cons.1 hn with rfl | hn
    · exact String.lt_irrefl _ before
    · exact String.lt_irrefl _ (String.lt_trans before (behind n hn))
  rw [Graph.earlier, split, List.filter_append, none, List.append_nil, List.filter_eq_self]
  exact fun n hn => decide_eq_true (front n hn op List.mem_cons_self)

/-- The operations that a command rewrites one after the other, and how it rewrites one. -/
def Command.pass? [Scalar α] : Command → Option (String × (String → Rewrite α Bool))
  | constants => some ("Constant", Rewrite.replaceConstant)
  | casts => some ("Cast", Rewrite.nameTarget)
  | slices => some ("Slice", Rewrite.completeSlice)
  | clips => some ("Clip", Rewrite.completeClip)
  | _ => none

namespace Rewrite

section Work

variable [Scalar α]

/-- What a command has made in `g'` of the operation `n`, which is `o` in `g`. A constant is gone,
and what it has produced is a parameter with its value and the same consumers. -/
inductive Made (g g' : Graph α) (n : String) (o : Operation α) : Command → Prop where
  | constant {output t v} : Constant o output t → g'.getOperation? n = none →
    g.getVariable? output = some v → g'.getVariable? output =
      some { v with value := some t, isParameter := true, producer := none } →
    Made g g' n o .constants
  | cast {o'} : g'.getOperation? n = some o' → Respelled o o' → Made g g' n o .casts
  | slice {o'} : g'.getOperation? n = some o' → Sliced g g' o o' → Made g g' n o .slices
  | clip {o'} : g'.getOperation? n = some o' → Clipped g g' o o' → Made g g' n o .clips

/-- In `g'` the command has worked on `ops` and on nothing else. -/
structure Worked (c : Command) (g : Graph α) (ops : List String) (g' : Graph α) : Prop where
  linked : g'.Linked
  made : ∀ n ∈ ops, ∃ o, g.getOperation? n = some o ∧ Made g g' n o c
  rest : ∀ n, n ∉ ops → g'.getOperation? n = g.getOperation? n
  /-- A variable changes only where a constant has produced it. -/
  vars : ∀ var ∈ g.vars, (c = .constants → ∀ n ∈ ops, ¬g.Produces n var) →
    g'.getVariable? var = g.getVariable? var

variable {g' : Graph α} {c : Command} {ops : List String} {n op : String} {o : Operation α}

namespace Worked

theorem nil (hg : g.Linked) : Worked c g [] g where
  linked := hg
  made _ hn := absurd hn List.not_mem_nil
  rest _ _ := rfl
  vars _ _ _ := rfl

theorem keepsVariables (worked : Worked c g ops g') (other : c ≠ .constants) :
    g.KeepsVariables g' :=
  fun var known => worked.vars var known fun constants => absurd constants other

theorem others (worked : Worked c g [op] g') (other : n ≠ op) :
    g'.getOperation? n = g.getOperation? n := worked.rest n (List.mem_singleton.not.2 other)

theorem produces_iff (worked : Worked c g ops g') (absent : n ∉ ops) {var : String} :
    g'.Produces n var ↔ g.Produces n var := by
  rw [Produces, worked.rest n absent, Produces]

end Worked

/-- What a step has made does not change with later ones. -/
theorem Made.later (made : Made g h n o c) (linked : h.Linked) (worked : Worked c h ops g')
    (absent : n ∉ ops) : Made g g' n o c := by
  have same := worked.rest n absent
  cases made with
  | constant constant gone hv hv' =>
    refine .constant constant (same.trans gone) hv ?_
    rw [← hv']
    refine worked.vars _ (mem_vars_iff.2 ⟨_, hv'⟩) fun _ m _ produces => ?_
    cases (linked.producer_iff hv' m).2 produces
  | cast ho' respelled => exact .cast (same.trans ho') respelled
  | slice ho' sliced =>
    exact .slice (same.trans ho') (sliced.later (worked.keepsVariables (by decide)))
  | clip ho' clipped =>
    exact .clip (same.trans ho') (clipped.later (worked.keepsVariables (by decide)))

/-- It does not change either with what earlier steps have made of others. -/
theorem Made.earlier (hg : g.Linked) (worked : Worked c g ops h) (absent : n ∉ ops)
    (ho : g.getOperation? n = some o) (made : Made h g' n o c) : Made g g' n o c := by
  cases made with
  | constant constant gone hv hv' =>
    refine .constant constant gone ?_ hv'
    rw [← hv]
    have produces : g.Produces n _ := ⟨o, ho, constant.outputs ▸ List.mem_singleton_self _⟩
    refine (worked.vars _ (hg.produces_known produces) fun _ m hm other => absent ?_).symm
    exact hg.produces_unique other produces ▸ hm
  | cast ho' respelled => exact .cast ho' respelled
  | slice ho' sliced =>
    exact .slice ho' (sliced.earlier hg (worked.keepsVariables (by decide)) ho)
  | clip ho' clipped => exact .clip ho' (clipped.earlier (worked.keepsVariables (by decide)))

/-- The work on one operation and the work on the following ones. -/
theorem Worked.cons (hg : g.Linked) (first : Worked c g [op] h) (following : Worked c h ops g')
    (absent : op ∉ ops) : Worked c g (op :: ops) g' := by
  have apart : ∀ n ∈ ops, n ∉ [op] := by
    intro n hn same
    exact absent (List.mem_singleton.1 same ▸ hn)
  constructor
  case linked => exact following.linked
  case made =>
    refine List.forall_mem_cons.2 ⟨?_, fun n hn => ?_⟩
    · obtain ⟨o, ho, made⟩ := first.made op (List.mem_singleton_self op)
      exact ⟨o, ho, made.later first.linked following absent⟩
    · obtain ⟨o, ho, made⟩ := following.made n hn
      rw [first.rest n (apart n hn)] at ho
      exact ⟨o, ho, made.earlier hg first (apart n hn) ho⟩
  case rest =>
    intro n hn
    rw [List.mem_cons, not_or] at hn
    exact (following.rest n hn.2).trans (first.others hn.1)
  case vars =>
    intro var known spared
    have same : h.getVariable? var = g.getVariable? var := by
      refine first.vars var known fun constants n hn => ?_
      rw [List.mem_singleton.1 hn]
      exact spared constants op List.mem_cons_self
    rw [← same]
    refine following.vars var ?_ fun constants n hn produces => ?_
    · rwa [mem_vars_iff, same, ← mem_vars_iff]
    · exact spared constants n (List.mem_cons_of_mem _ hn)
        ((first.produces_iff (apart n hn)).1 produces)

theorem Inlined.worked {output : String} {t : Tensor α} (inlined : Inlined g g' op output t) :
    Worked .constants g [op] g' := by
  obtain ⟨o, ho, constant⟩ := inlined.constant
  obtain ⟨v, hv, hv'⟩ := inlined.getVariable?_output
  constructor
  case linked => exact inlined.after
  case made =>
    refine List.forall_mem_singleton.2 ⟨o, ho, .constant constant ?_ hv hv'⟩
    rw [inlined.getOperation?_eq, if_pos rfl]
  case rest =>
    intro n hn
    rw [inlined.getOperation?_eq, if_neg (List.mem_singleton.not.1 hn)]
  case vars =>
    intro var _ spared
    apply inlined.getVariable?_eq
    rintro rfl
    exact spared rfl op (List.mem_singleton_self op) inlined.produces

theorem Becomes.worked {M : Operation α → Prop} (became : Becomes g g' op M) (hg : g.Linked)
    (ho : g.getOperation? op = some o)
    (made : ∀ o', g'.getOperation? op = some o' → M o' → Made g g' op o c) :
    Worked c g [op] g' where
  linked := became.supplied.linked
  made := by
    obtain ⟨o', ho', result⟩ := became.result
    exact List.forall_mem_singleton.2 ⟨o, ho, made o' ho' result⟩
  rest n hn := became.supplied.others n (List.mem_singleton.not.1 hn)
  vars var known _ := became.supplied.keepsVariables hg var known

end Work

/-- The command has nothing against `op`. -/
def Flawless (c : Command) (g : Graph α) (op : String) : Prop :=
  ∀ o, g.getOperation? op = some o → ∀ e, ¬Flawed o c e

theorem Flawless.congr {c : Command} {op : String}
    (same : h.getOperation? op = g.getOperation? op) : Flawless c h op ↔ Flawless c g op := by
  rw [Flawless, same, Flawless]

/-- A pass has failed at `op` with `e`. Those of `before` are sound and rewritten, all others are
as they were in `g`. -/
structure Stopped [Scalar α] (c : Command) (step : String → Rewrite α Bool) (g : Graph α)
    (events : List Event) (before : List String) (op : String) (e : RewriteError α)
    (later : Logged (Graph α)) : Prop extends Worked c g before later.state where
  flawed : ∃ o, g.getOperation? op = some o ∧ Flawed o c e
  sound : ∀ n ∈ before, Flawless c g n
  steps : (before.forM fun n => discard (step n)) ⟨g, events⟩ = .ok () later

section Visits

variable [Scalar α] {c : Command} {step : String → Rewrite α Bool} {op : String}

theorem Stopped.cons {events mid : List Event} {before : List String} {op' : String}
    {e : RewriteError α} {later : Logged (Graph α)} {changed : Bool} (hg : g.Linked)
    (sound : Flawless c g op) (run : step op ⟨g, events⟩ = .ok changed ⟨h, mid⟩)
    (first : Worked c g [op] h) (absent : op ∉ op' :: before)
    (stopped : Stopped c step h mid before op' e later) :
    Stopped c step g events (op :: before) op' e later := by
  have same : ∀ n ∈ op' :: before, h.getOperation? n = g.getOperation? n :=
    fun n hn => first.others fun e => absent (e ▸ hn)
  have apart : op ∉ before := fun hop => absent (List.mem_cons_of_mem _ hop)
  constructor
  case toWorked => exact first.cons hg stopped.toWorked apart
  case flawed =>
    rw [← same op' List.mem_cons_self]
    exact stopped.flawed
  case sound =>
    refine List.forall_mem_cons.2 ⟨sound, fun n hn => ?_⟩
    exact (Flawless.congr (same n (List.mem_cons_of_mem _ hn))).1 (stopped.sound n hn)
  case steps =>
    have first : discard (step op) ⟨g, events⟩ = .ok ⟨⟩ ⟨h, mid⟩ := discard_of_ok run
    exact (forM_cons_of_ok (f := fun n => discard (step n)) first).trans stopped.steps

/-- A step works on an operation or tells its flaw. -/
def Visits (c : Command) (step : String → Rewrite α Bool) : Prop :=
  ∀ (g : Graph α) op o, g.Linked → g.getOperation? op = some o →
    Decided (step op) g (Flawed o c) fun g' => Worked c g [op] g'

/-- A step as it is counted. -/
abbrev counted (step : String → Rewrite α Bool) (n : Nat) (op : String) : Rewrite α Nat :=
  return if ← step op then n + 1 else n

theorem Visits.foldlM (visits : Visits c step) {l : List String} (hg : g.Linked)
    (known : ∀ n ∈ l, n ∈ g.operations) (nodup : l.Nodup) (k : Nat) (events : List Event) :
    ((∀ n ∈ l, Flawless c g n) ∧ ∃ m later, l.foldlM (counted step) k ⟨g, events⟩ = .ok m later) ∨
    ∃ before op after e later, l = before ++ op :: after ∧
      l.foldlM (counted step) k ⟨g, events⟩ = .error e later ∧
      Stopped c step g events before op e later := by
  induction l generalizing g k events with
  | nil => exact .inl ⟨fun n hn => absurd hn List.not_mem_nil, k, ⟨g, events⟩, rfl⟩
  | cons op l ih =>
    obtain ⟨absent, nodup⟩ := List.nodup_cons.1 nodup
    obtain ⟨o, ho⟩ := mem_operations_iff.1 (known op List.mem_cons_self)
    rw [List.foldlM_cons]
    rcases visits g op o hg ho with ⟨e, flaw, failed⟩ | ⟨sound, leads⟩
    · refine .inr ⟨[], op, l, e, ⟨g, events⟩, rfl, ?_, ?_⟩
      · exact bind_of_error (bind_of_error (failed events))
      · exact ⟨.nil hg, ⟨o, ho, flaw⟩, fun n hn => absurd hn List.not_mem_nil, rfl⟩
    · -- the rest of the pass starts at `h`, which has what is still to come as `g` has it
      obtain ⟨changed, h, mid, run, worked⟩ := leads events
      have same : ∀ n ∈ l, h.getOperation? n = g.getOperation? n :=
        fun n hn => worked.others fun e => absent (e ▸ hn)
      have known' : ∀ n ∈ l, n ∈ h.operations := by
        intro n hn
        rw [mem_operations_iff, same n hn, ← mem_operations_iff]
        exact known n (List.mem_cons_of_mem _ hn)
      have first : Flawless c g op := by
        intro p hp
        cases ho.symm.trans hp
        exact sound
      have counts : counted step k op ⟨g, events⟩ = .ok (if changed then k + 1 else k) ⟨h, mid⟩ :=
        bind_of_ok run
      rw [bind_of_ok counts]
      rcases ih worked.linked known' nodup (if changed then k + 1 else k) mid with
        ⟨rest, done⟩ | ⟨before, op', after, e, later, split, failed, stopped⟩
      · refine .inl ⟨List.forall_mem_cons.2 ⟨first, fun n hn => ?_⟩, done⟩
        exact (Flawless.congr (same n hn)).1 (rest n hn)
      · refine .inr ⟨op :: before, op', after, e, later, congrArg (op :: ·) split, failed,
          stopped.cons hg first run worked fun hop => absent ?_⟩
        rw [split]
        rcases List.mem_cons.1 hop with rfl | hop
        · exact List.mem_append_right _ List.mem_cons_self
        · exact List.mem_append_left _ hop

/-- A pass rewrites all operations of a type, or stops at the first one with a flaw. -/
theorem Visits.countChanges (visits : Visits c step) (hg : g.Linked) (type : String)
    (events : List Event) :
    ((∀ n ∈ g.operationsOfType type, Flawless c g n) ∧
      ∃ m later, countChanges type step ⟨g, events⟩ = .ok m later) ∨
    ∃ op ∈ g.operationsOfType type, ∃ e later,
      countChanges type step ⟨g, events⟩ = .error e later ∧
      Stopped c step g events (g.earlier type op) op e later := by
  have known : ∀ n ∈ g.operationsOfType type, n ∈ g.operations := by
    intro n hn
    obtain ⟨o, ho, -⟩ := hg.mem_operationsOfType.1 hn
    exact mem_operations_iff.2 ⟨o, ho⟩
  refine (visits.foldlM hg known (hg.operationsOfType_nodup type) 0 events).imp_right ?_
  rintro ⟨before, op, after, e, later, split, failed, stopped⟩
  refine ⟨op, ?_, e, later, failed, ?_⟩
  · rw [split]
    exact List.mem_append_right _ List.mem_cons_self
  · rw [hg.earlier_eq split]
    exact stopped

end Visits

variable [Scalar α] {c : Command} {type : String} {step : String → Rewrite α Bool}

theorem rewrite_of_pass (pass : c.pass? = some (type, step)) :
    c.rewrite = countChanges type step := by
  cases c <;> cases pass <;> rfl

theorem visits_of_pass (pass : c.pass? = some (type, step)) : Visits c step := by
  intro g op o hg ho
  cases c <;> cases pass
  case constants =>
    refine (replaceConstant_decided hg ho).mono fun g' inlined => ?_
    obtain ⟨output, t, inlined⟩ := inlined
    exact inlined.worked
  case casts =>
    exact (nameTarget_decided hg ho).mono fun g' became =>
      became.worked hg ho fun o' ho' respelled => .cast ho' respelled
  case slices =>
    exact (completeSlice_decided hg ho).mono fun g' became =>
      became.worked hg ho fun o' ho' sliced => .slice ho' sliced
  case clips =>
    exact (completeClip_decided hg ho).mono fun g' became =>
      became.worked hg ho fun o' ho' clipped => .clip ho' clipped

end Rewrite

open Rewrite

variable [Scalar α] {c : Command} {type : String} {step : String → Rewrite α Bool}

theorem process_of_ok {events : List Event} {n : Nat} {later : Logged (Graph α)}
    (h : c.rewrite ⟨g, events⟩ = .ok n later) : ∃ last, process c ⟨g, events⟩ = .ok n last := by
  have wrapped : Task.wrapError (FormatError.processing c) c.rewrite ⟨g, events⟩ = .ok n later := by
    simp only [Task.wrapError, EStateM.adaptExcept, h]
  exact ⟨_, bind_of_ok wrapped⟩

theorem process_of_error {e : RewriteError α} {events : List Event} {later : Logged (Graph α)}
    (h : c.rewrite ⟨g, events⟩ = .error e later) :
    process c ⟨g, events⟩ = .error (.processing c e) later := by
  refine bind_of_error ?_
  simp only [Task.wrapError, EStateM.adaptExcept, h]

/-- A command that rewrites one operation after the other fails exactly where one of them has a
flaw. It stops at the first of these, and all that it leaves behind is what its steps have made of
those in front of it. -/
theorem process_stops (pass : c.pass? = some (type, step)) (reachable : Reachable g)
    (events : List Event) :
    ((∃ e later, process c ⟨g, events⟩ = .error e later) ↔
      ∃ op o e, g.getOperation? op = some o ∧ o.type = type ∧ Flawed o c e) ∧
    ∀ e later, process c ⟨g, events⟩ = .error e later →
      ∃ op ∈ g.operationsOfType type, ∃ cause, e = .processing c cause ∧
        Stopped c step g events (g.earlier type op) op cause later := by
  have linked := reachable.linked
  have run := rewrite_of_pass pass
  rcases (visits_of_pass pass).countChanges linked type events with
    ⟨sound, m, later, done⟩ | ⟨op, hop, e, later, failed, stopped⟩
  · obtain ⟨last, success⟩ := process_of_ok ((congrFun run _).trans done)
    have succeeds : ∀ e later, process c ⟨g, events⟩ ≠ .error e later := by
      intro e later failed
      cases success.symm.trans failed
    refine ⟨⟨?_, ?_⟩, fun e later failed => absurd failed (succeeds e later)⟩
    · rintro ⟨e, later, failed⟩
      exact absurd failed (succeeds e later)
    · rintro ⟨op, o, e, ho, isType, flaw⟩
      exact absurd flaw (sound op (linked.mem_operationsOfType.2 ⟨o, ho, isType⟩) o ho e)
  · have fails := process_of_error ((congrFun run _).trans failed)
    obtain ⟨o, ho, flaw⟩ := stopped.flawed
    obtain ⟨p, hp, isType⟩ := linked.mem_operationsOfType.1 hop
    cases ho.symm.trans hp
    refine ⟨⟨fun _ => ⟨op, o, e, ho, isType, flaw⟩, fun _ => ⟨_, _, fails⟩⟩, ?_⟩
    intro e' later' failed'
    cases fails.symm.trans failed'
    exact ⟨op, hop, e, rfl, stopped⟩

/-- The second and the third slice have a flaw, the fourth has none. -/
def unevenSlices : Document Float32 where
  name := "net"
  inputs := ["x"]
  outputs := ["a", "b", "c", "d"]
  vars := [⟨"x", none, false⟩, ⟨"a", none, false⟩, ⟨"b", none, false⟩, ⟨"c", none, false⟩,
    ⟨"d", none, false⟩]
  operations := [
    ⟨"s1", "Slice", .ofList [("starts", .ints [0]), ("ends", .ints [2])], ["x"], ["a"],
      .unspecified⟩,
    ⟨"s2", "Slice", .ofList [("starts", .ints [0]), ("ends", .ints [2, 3])], ["x"], ["b"],
      .unspecified⟩,
    ⟨"s3", "Slice", .ofList [("starts", .ints [0])], ["x"], ["c"], .unspecified⟩,
    ⟨"s4", "Slice", .ofList [("starts", .ints [1]), ("ends", .ints [2])], ["x"], ["d"],
      .unspecified⟩]

theorem process_stops_unevenSlices : ∃ later, unevenSlices.build = .ok unevenSlices.graph ∧
    process .slices ⟨unevenSlices.graph, []⟩ =
      .error (.processing .slices (.sliceEnds "s2" 1 2)) later ∧
    ∃ op ∈ unevenSlices.graph.operationsOfType "Slice",
      Stopped .slices completeSlice unevenSlices.graph [] (unevenSlices.graph.earlier "Slice" op)
        op (.sliceEnds "s2" 1 2) later := by
  have built : unevenSlices.build = .ok unevenSlices.graph := rfl
  have failed : ∃ e later, process .slices ⟨unevenSlices.graph, []⟩ = .error e later ∧
      e = .processing .slices (.sliceEnds "s2" 1 2) := by
    decide +kernel
  obtain ⟨_, later, run, rfl⟩ := failed
  have reachable : Reachable unevenSlices.graph := ⟨_, [], .built built, rfl⟩
  obtain ⟨op, hop, cause, same, stopped⟩ := (process_stops rfl reachable []).2 _ _ run
  cases same
  exact ⟨later, built, run, op, hop, stopped⟩

end GraphDispatch
