import GraphDispatch.Proofs.Rewrite.Constants
import GraphDispatch.Proofs.Rewrite.Folds
import GraphDispatch.Proofs.Rewrite.Formatted
import GraphDispatch.Rewrite.Message

/-!
# Faults

Formatting ends the program only where a weight is scaled. Weights come from the document, or
have been scaled before, which does not change what is wrong with them: so it is a tensor of the
document that does not fit its shape (`format_faults`), and without one every run has an answer
(`format_answers`).
-/

namespace GraphDispatch

open GraphDispatch.Graph

variable {α β γ : Type} {g g' : Graph α} {f : SizeFault}

namespace Rewrite

/-- No run of the rewrite ends the program. -/
def Faultless (m : Rewrite α β) : Prop :=
  ∀ g, Task.Meets m g (fun _ _ => True) fun e => e.fault? = none

namespace Faultless

variable {m : Rewrite α β} {k : β → Rewrite α γ}

theorem pure (b : β) : Faultless (Pure.pure b : Rewrite α β) := fun _ => .pure trivial

theorem throw {e : RewriteError α} (h : e.fault? = none) :
    Faultless (MonadExcept.throw e : Rewrite α β) := fun _ => .throw h

theorem bind (hm : Faultless m) (hk : ∀ b, Faultless (k b)) : Faultless (m >>= k) :=
  fun g => (hm g).bind fun b g' _ => hk b g'

theorem state : Faultless (Task.state : Rewrite α (Graph α)) := fun _ _ => trivial

theorem note (e : Event) : Faultless (Task.note e : Rewrite α Unit) := fun _ _ => trivial

/-- Edits know nothing of sizes. -/
theorem edit (n : Edit α β) : Faultless (edit n) :=
  fun _ => .edit (fun _ _ _ => trivial) fun _ => rfl

theorem ofExcept {r : Except (RewriteError α) β} (h : ∀ e, r = .error e → e.fault? = none) :
    Faultless (Task.ofExcept id r) := fun _ => .ofExcept (fun _ _ => trivial) h

theorem getOperation (kind op : String) : Faultless (getOperation kind op : Rewrite α _) := by
  refine state.bind fun g => ?_
  cases g.getOperation? op with
  | none => exact throw rfl
  | some o => exact pure o

theorem countChanges {type : String} {step : String → Rewrite α Bool}
    (h : ∀ op, Faultless (step op)) : Faultless (countChanges type step) := fun _ =>
  (countChanges_meets (fun _ _ => True) (fun op _ h' _ => h op h') trivial)

end Faultless

section Passes

theorem Flawed.fault?_eq {o : Operation α} {c : Command} {e : RewriteError α} (h : Flawed o c e) :
    e.fault? = none := by
  cases h <;> rfl

theorem faultless_constants : Faultless (constants : Rewrite α Nat) := by
  refine .countChanges fun op => (Faultless.getOperation _ _).bind fun o => ?_
  refine (Faultless.ofExcept fun e failed => ?_).bind fun r => ?_
  · exact (readConstant_eq_error.1 failed).fault?_eq
  exact (Faultless.edit _).bind fun _ => .pure _

theorem faultless_sharedParameters : Faultless (sharedParameters : Rewrite α Nat) :=
  Faultless.state.bind fun _ => (Faultless.edit _).bind fun _ => .pure _

theorem faultless_casts : Faultless (casts : Rewrite α Nat) := by
  refine .countChanges fun op => (Faultless.getOperation _ _).bind fun o => ?_
  refine (Faultless.ofExcept fun e failed => ?_).bind fun t => ?_
  · exact (castTarget_eq_error.1 failed).fault?_eq
  split
  · exact .pure _
  · exact (Faultless.edit _).bind fun _ => .pure _

theorem faultless_slices : Faultless (slices : Rewrite α Nat) := by
  refine .countChanges fun op => (Faultless.getOperation _ _).bind fun o => ?_
  split
  · rename_i bound
    refine (Faultless.ofExcept fun e failed => ?_).bind fun b => ?_
    · rcases readBounds_cases bound with ⟨b, read, -⟩ | ⟨e', read, flaw⟩
      · cases read.symm.trans failed
      · cases read.symm.trans failed
        exact flaw.fault?_eq
    · exact (Faultless.edit _).bind fun _ => .pure _
  · dsimp only
    split
    · exact .pure _
    · refine Faultless.state.bind fun g => ?_
      cases sliceRank g o with
      | none => exact .pure _
      | some rank => exact (Faultless.edit _).bind fun _ => .pure _

theorem faultless_clips [Scalar α] : Faultless (clips : Rewrite α Nat) := by
  refine .countChanges fun op => (Faultless.getOperation _ _).bind fun o => ?_
  split
  · exact .pure _
  · split
    · exact .throw rfl
    · exact (Faultless.edit _).bind fun _ => .pure _

theorem faultless_isolated : Faultless (isolated : Rewrite α Nat) := by
  have rest : ∀ dead : List String, Faultless (do
      edit (dead.forM fun op => discard (Edit.removeOperation op))
      let unused := unreferenced (← Task.state)
      edit (unused.forM fun var => discard (Edit.removeVariable var))
      return dead.length + unused.length : Rewrite α Nat) := fun dead =>
    (Faultless.edit _).bind fun _ => Faultless.state.bind fun _ =>
      (Faultless.edit _).bind fun _ => .pure _
  refine Faultless.state.bind fun g => ?_
  split
  · exact (Faultless.note _).bind fun _ => rest []
  · exact rest _

end Passes

end Rewrite

variable {d : Document α}

namespace Document

/-- The tensor is the value of a variable or of a constant. -/
inductive Gives (d : Document α) (t : Tensor α) : Prop where
  | var (v : Declaration α) : v ∈ d.vars → v.value = some t → Gives d t
  | constant (o : Operation α) (output : String) : o ∈ d.operations → o.type = "Constant" →
    Rewrite.Constant o output t → Gives d t

/-- Where the tensor cannot be scaled, one of the document cannot. -/
def Traces (d : Document α) (t : Tensor α) : Prop :=
  ∀ axis f, t.Faults axis f → ∃ u, d.Gives u ∧ u.Faults axis f

/-- A tensor of the document ends the program when it is scaled. -/
def Ends (d : Document α) (f : SizeFault) : Prop :=
  ∃ t axis, d.Gives t ∧ axis ≤ 1 ∧ t.Faults axis f

theorem Gives.traces {t : Tensor α} (h : d.Gives t) : d.Traces t :=
  fun _ _ faults => ⟨t, h, faults⟩

theorem Traces.of_fits {t : Tensor α} (h : t.Fits) : d.Traces t :=
  fun _ _ faults => absurd faults h.not_faults

theorem Traces.scaled [Scalar α] {t t' : Tensor α} (h : d.Traces t) {axis : Nat} {factors : List α}
    (scaled : t.scaleAlong axis factors = .ok t') : d.Traces t' := by
  intro axis f faults
  apply h axis f
  exact faults.congr (Tensor.dims_scaled scaled).symm (Tensor.size_of_scaleAlong scaled).symm

theorem not_ends (fits : ∀ t, d.Gives t → t.Fits) : ¬d.Ends f := by
  rintro ⟨t, axis, given, -, faults⟩
  exact (fits t given).not_faults faults

end Document

namespace Rewrite

/-- What the constants hold comes to the values of the variables. -/
theorem constants_gives (built : d.build = .ok g) :
    Task.Ensures constants g fun _ g' => g'.Linked ∧ AllValues d.Gives g' := by
  have hg := linked_of_build built
  refine (countChanges_ensures (fun l h => h.Linked ∧ AllValues d.Gives h ∧
    (∀ n o, h.getOperation? n = some o → g.getOperation? n = some o) ∧
    ∀ n ∈ l, n ∈ g.operationsOfType "Constant") (fun op l h state => ?_) ?_).mono
    fun _ _ done => ⟨done.1, done.2.1⟩
  · obtain ⟨linked, given, same, waiting⟩ := state
    refine (replaceConstant_ensures linked op).mono fun _ h' done => ?_
    obtain ⟨output, t, inlined⟩ := done
    refine ⟨inlined.after, fun var e u declared value => ?_, fun n o ho => ?_, fun n hn => ?_⟩
    · rw [inlined.declarations_get?] at declared
      split at declared
      · obtain ⟨_, -, rfl⟩ := Option.map_eq_some_iff.1 declared
        cases value
        obtain ⟨o, ho, constant⟩ := inlined.constant
        obtain ⟨p, hp, type⟩ := hg.mem_operationsOfType.1 (waiting op List.mem_cons_self)
        cases (same op o ho).symm.trans hp
        exact .constant o output (Document.operation_of_build built hp) type constant
      · exact given var e u declared value
    · rw [inlined.getOperation?_eq] at ho
      split at ho
      · cases ho
      · exact same n o ho
    · exact waiting n (List.mem_cons_of_mem _ hn)
  · exact ⟨hg, allValues_of_build built fun v hv t value => .var v hv value,
      fun _ _ ho => ho, fun _ hn => hn⟩

variable [Scalar α]

theorem axis_of_channelAxis {p : Operation α} {axis : Nat} {biasScale : α}
    (h : channelAxis p = some (axis, biasScale)) : axis ≤ 1 := by
  unfold channelAxis at h
  grind

/-- A run of folds that ends the program does so with a fault of a tensor of the document. -/
theorem batchNorms_ends (hg : g.Linked) (traces : AllValues d.Traces g) :
    Task.Meets batchNorms g (fun _ _ => True)
      fun e => ∀ f, e.fault? = some f → e = .tensor (.fault f) ∧ d.Ends f := by
  refine (batchNorms_meets hg (fun _ => AllValues d.Traces) _ traces ?_ ?_ ?_).mono
    (fun _ _ _ => trivial) fun _ => id
  · intro n l h u traces stays
    exact traces
  · intro s l h h' scaled data weight bias u traces folds
    have weight := (traces.parameter folds.before folds.site.weightValue).scaled folds.scaling
    exact folds.allValues traces weight (.of_fits (Tensor.fits_list folds.site.length_foldedBias))
  · intro s l h e u traces site failed f fault
    cases failed with
    | shared => cases fault
    | scaling error =>
      rename_i cause
      cases cause <;> cases fault
      obtain ⟨t, given, faults⟩ := traces.parameter u.linked site.weightValue s.axis f
        (Tensor.faults_of_scaleAlong site.dims error)
      exact ⟨rfl, t, s.axis, given, axis_of_channelAxis site.channel, faults⟩

end Rewrite

variable [Scalar α]

theorem Command.faultless {c : Command} (other : c ≠ .batchNorms) :
    Rewrite.Faultless (c.rewrite (α := α)) := by
  cases c with
  | constants => exact Rewrite.faultless_constants
  | batchNorms => exact absurd rfl other
  | sharedParameters => exact Rewrite.faultless_sharedParameters
  | casts => exact Rewrite.faultless_casts
  | slices => exact Rewrite.faultless_slices
  | clips => exact Rewrite.faultless_clips
  | isolated => exact Rewrite.faultless_isolated

/-- An error that ends the program comes from a fold, and from a tensor of the document. -/
def FormatError.Told (d : Document α) (e : FormatError α) : Prop :=
  ∀ f, e.fault? = some f → e = .processing .batchNorms (.tensor (.fault f)) ∧ d.Ends f

theorem process_told (d : Document α) {c : Command} (other : c ≠ .batchNorms) (g : Graph α) :
    Task.Meets (process c) g (fun _ _ => True) (FormatError.Told d) := by
  refine process_meets (c.faultless other g) fun e calm f fault => ?_
  rw [FormatError.fault?, calm] at fault
  cases fault

theorem process_batchNorms_told (hg : g.Linked) (traces : Rewrite.AllValues d.Traces g) :
    Task.Meets (process .batchNorms) g (fun _ _ => True) (FormatError.Told d) := by
  refine process_meets (Rewrite.batchNorms_ends hg traces) fun e told f fault => ?_
  obtain ⟨rfl, ends⟩ := told f fault
  exact ⟨rfl, ends⟩

theorem processes_told (d : Document α) {cs : List Command} (others : .batchNorms ∉ cs)
    (g : Graph α) : Task.Meets (cs.forM fun c => discard (process c)) g (fun _ _ => True)
      (FormatError.Told d) := by
  refine (Task.Meets.forM (fun l _ => .batchNorms ∉ l) (fun c l h rest => ?_) others).mono
    (fun _ _ _ => trivial) fun _ => id
  rw [List.mem_cons, not_or] at rest
  obtain ⟨other, rest⟩ := rest
  exact (process_told d (Ne.symm other) h).discard.mono (fun _ _ _ => rest) fun _ => id

theorem format_told (built : d.build = .ok g) :
    Task.Meets format g (fun _ _ => True) (FormatError.Told d) := by
  have first := (process_told d (by decide) g).ensuring
    (process_ensures (c := .constants) (Rewrite.constants_gives built))
  have run : Task.Meets (Command.all.forM fun c => discard (process c)) g (fun _ _ => True)
      (FormatError.Told d) := by
    refine first.discard.bind fun _ h reached => ?_
    obtain ⟨_, linked, given⟩ := reached
    have traces : Rewrite.AllValues d.Traces h :=
      fun var e t declared value => (given var e t declared value).traces
    refine (process_batchNorms_told linked traces).discard.bind fun _ k _ => ?_
    exact processes_told d (by decide) k
  unfold format
  refine run.bind fun _ h _ => Task.Meets.state_bind ?_
  exact .ofExcept (fun _ _ => trivial) fun _ _ _ fault => by cases fault

/-- Formatting a loaded document ends the program only in the folds, and only where a tensor of
the document cannot be scaled. -/
theorem format_faults (built : d.build = .ok g) {events : List Event} {e : FormatError α}
    {later : Logged (Graph α)} (run : format ⟨g, events⟩ = .error e later)
    (fault : e.fault? = some f) : e = .processing .batchNorms (.tensor (.fault f)) ∧
      ∃ t axis, d.Gives t ∧ axis ≤ 1 ∧ t.Faults axis f :=
  (format_told built).error run f fault

/-- Formatting has an answer where all tensors fit their shapes. -/
theorem format_answers (built : d.build = .ok g) (fits : ∀ t, d.Gives t → t.Fits) :
    Task.Meets format g (fun _ _ => True) fun e => e.fault? = none := by
  refine (format_told built).mono (fun _ _ _ => trivial) fun e told => ?_
  cases fault : e.fault? with
  | none => rfl
  | some f => exact absurd (told f fault).2 (Document.not_ends fits)

/-- A normalization behind a convolution whose weight has one element. -/
def normedKernel (shape : List UInt64) : Document Float32 where
  name := "net"
  inputs := ["x"]
  outputs := ["y"]
  vars := [⟨"x", none, false⟩, ⟨"w", some ⟨shape, .floats [3]⟩, true⟩, ⟨"z", none, false⟩,
    ⟨"ones", some ⟨[1], .floats [1]⟩, true⟩, ⟨"y", none, false⟩]
  operations := [⟨"conv", "Conv", ∅, ["x", "w"], ["z"], .unspecified⟩,
    ⟨"bn", "BatchNormalization", ∅, ["z", "ones", "ones", "ones", "ones"], ["y"], .unspecified⟩]

theorem format_faults_overflow : ∃ e later,
    (normedKernel [1, 4294967296, 4294967296]).build =
      .ok (normedKernel [1, 4294967296, 4294967296]).graph ∧
    format ⟨(normedKernel [1, 4294967296, 4294967296]).graph, []⟩ = .error e later ∧
    e.fault? = some .product ∧ ∃ t axis,
      (normedKernel [1, 4294967296, 4294967296]).Gives t ∧ axis ≤ 1 ∧ t.Faults axis .product := by
  have outcome : ∃ e later, format ⟨(normedKernel [1, 4294967296, 4294967296]).graph, []⟩ =
      .error e later ∧ e.fault? = some .product := by
    decide +kernel
  obtain ⟨e, later, run, fault⟩ := outcome
  exact ⟨e, later, rfl, run, fault, (format_faults rfl run fault).2⟩

/-- Where a slice of the weight has no elements but the weight has one, the program divides by
zero. -/
theorem format_divides_by_zero : (normedKernel [1, 0]).build = .ok (normedKernel [1, 0]).graph ∧
    ∃ e later, format ⟨(normedKernel [1, 0]).graph, []⟩ = .error e later ∧
      e.fault? = some .quotient :=
  ⟨rfl, by decide +kernel⟩

end GraphDispatch
