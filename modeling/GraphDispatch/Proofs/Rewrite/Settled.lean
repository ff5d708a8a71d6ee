import GraphDispatch.Proofs.Rewrite.Constants
import GraphDispatch.Proofs.Rewrite.Descent
import GraphDispatch.Proofs.Rewrite.Idle
import GraphDispatch.Proofs.Rewrite.SharedParameters

/-!
# Commands with nothing left to do

After a command has run it finds nothing to rewrite, and the commands behind it in the order
of formatting do not make work for it. Folding normalizations is the exception: it may leave
pairs to fold, and commands behind it may make new ones. Completing clips is one for clips
without inputs.
-/

namespace GraphDispatch.Rewrite

open GraphDispatch.Graph

variable {α : Type} {g g' : Graph α}

section After

theorem constants_settles [Scalar α] (hg : g.Linked) :
    Task.Ensures constants g fun _ g' => Command.constants.Idle g' := by
  have all : Task.Ensures constants g fun _ g' => g'.Linked ∧
      ∀ n o, g'.getOperation? n = some o → o.type = "Constant" → n ∈ ([] : List String) := by
    refine countChanges_ensures (fun l h => h.Linked ∧
      ∀ n o, h.getOperation? n = some o → o.type = "Constant" → n ∈ l) (fun op l h state => ?_) ?_
    · refine (replaceConstant_ensures state.1 op).mono fun _ h' done => ?_
      obtain ⟨output, t, inlined⟩ := done
      refine ⟨inlined.after, fun n o ho type => ?_⟩
      rw [inlined.getOperation?_eq] at ho
      split at ho
      · cases ho
      · exact (List.mem_cons.1 (state.2 n o ho type)).resolve_left ‹_›
    · exact ⟨hg, fun n o ho type => hg.mem_operationsOfType.2 ⟨o, ho, type⟩⟩
  exact all.mono fun _ g' done n o ho type => absurd (done.2 n o ho type) List.not_mem_nil

/-- A parameter that no operation produces is read by one operation only, but for those that
still get copies: those of `rest` for `var` and those of the sharings in `l`. -/
structure Copies (var : String) (rest : List String) (l : List (Sharing α)) (g : Graph α) :
    Prop where
  linked : g.Linked
  readers : ∀ n d, g.content.declarations.get? n = some d → d.isParameter = true →
    (∀ op, ¬g.Produces op n) → ∃ first, ∀ op, g.Reads op n →
      op = first ∨ (n = var ∧ op ∈ rest) ∨ ∃ s ∈ l, s.var = n ∧ op ∈ s.others

theorem Copied.reads_cases {op var copy : String} {value : Option (Tensor α)}
    (h : Copied g g' op var copy value) {n x : String} (reads : g'.Reads n x) :
    x = copy ∧ n = op ∨ x ≠ copy ∧ g.Reads n x ∧ ¬(x = var ∧ n = op) := by
  obtain ⟨o', ho', hx⟩ := reads
  have unknown : ∀ {o}, g.getOperation? n = some o → x ∈ o.inputs → x ≠ copy := by
    rintro o ho hx rfl
    exact h.fresh (h.before.input_known ho hx)
  rw [h.getOperation?_eq] at ho'
  split at ho'
  · rename_i same
    obtain ⟨o, ho, rfl⟩ := Option.map_eq_some_iff.1 ho'
    rcases Operation.mem_redirect.1 hx with ⟨hx, other⟩ | ⟨rfl, -⟩
    · exact Or.inr ⟨unknown ho hx, ⟨o, ho, hx⟩, fun both => other both.1⟩
    · exact Or.inl ⟨rfl, same⟩
  · exact Or.inr ⟨unknown ho' hx, ⟨o', ho', hx⟩, fun both => ‹¬n = op› both.2⟩

theorem Copies.next {op var copy : String} {value : Option (Tensor α)} {rest : List String}
    {l : List (Sharing α)} (state : Copies var (op :: rest) l g)
    (h : Copied g g' op var copy value) : Copies var rest l g' := by
  refine ⟨h.after, fun n d hd parameter unmade => ?_⟩
  by_cases new : n = copy
  · refine ⟨op, fun m reads => ?_⟩
    rcases h.reads_cases reads with ⟨-, rfl⟩ | ⟨other, -⟩
    · exact Or.inl rfl
    · exact absurd new other
  · rw [h.declarations_get?, if_neg new] at hd
    obtain ⟨first, readers⟩ := state.readers n d hd parameter fun m hm =>
      unmade m (h.produces_iff.2 hm)
    refine ⟨first, fun m reads => ?_⟩
    rcases h.reads_cases reads with ⟨same, -⟩ | ⟨-, before, other⟩
    · exact absurd same new
    · rcases readers m before with found | ⟨same, listed⟩ | later
      · exact Or.inl found
      · refine Or.inr (Or.inl ⟨same, ?_⟩)
        exact (List.mem_cons.1 listed).resolve_left fun hm => other ⟨same, hm⟩
      · exact Or.inr (Or.inr later)

/-- At the start the sharings name all that reads a parameter but for the first. -/
theorem copies_start (hg : g.Linked) : Copies "" [] (g.vars.values.filterMap sharing?) g := by
  refine ⟨hg, fun n d hd parameter unmade => ?_⟩
  obtain ⟨v, hv, rfl⟩ := declared_iff.1 hd
  have producer : v.producer = none := Option.eq_none_iff_forall_not_mem.2 fun op hop =>
    unmade op ((hg.producer_iff hv op).1 hop)
  have listed : ∀ op, g.Reads op n → op ∈ v.consumerNames :=
    fun op reads => (hg.mem_consumerNames hv).2 reads
  rcases consumers : v.consumerNames with _ | ⟨first, others⟩
  · refine ⟨"", fun op reads => ?_⟩
    have := listed op reads
    rw [consumers] at this
    cases this
  · refine ⟨first, fun op reads => ?_⟩
    have member := listed op reads
    rw [consumers] at member
    rcases List.mem_cons.1 member with rfl | member
    · exact Or.inl rfl
    · refine Or.inr (Or.inr (sharing_mem hg hv parameter producer ?_))
      rw [consumers]
      exact member

/-- The first sharing is taken up. -/
theorem Copies.take {s : Sharing α} {l : List (Sharing α)} (state : Copies "" [] (s :: l) g) :
    Copies s.var s.others l g := by
  refine ⟨state.linked, fun n d hd parameter unmade => ?_⟩
  obtain ⟨first, readers⟩ := state.readers n d hd parameter unmade
  refine ⟨first, fun op reads => ?_⟩
  rcases readers op reads with found | ⟨-, none⟩ | ⟨s', hs', same, listed⟩
  · exact Or.inl found
  · cases none
  · rcases List.mem_cons.1 hs' with rfl | hs'
    · exact Or.inr (Or.inl ⟨same.symm, listed⟩)
    · exact Or.inr (Or.inr ⟨s', hs', same, listed⟩)

/-- All readers of `var` have got their copies. -/
theorem Copies.finish {var : String} {l : List (Sharing α)} (state : Copies var [] l g) :
    Copies "" [] l g := by
  refine ⟨state.linked, fun n d hd parameter unmade => ?_⟩
  obtain ⟨first, readers⟩ := state.readers n d hd parameter unmade
  refine ⟨first, fun op reads => (readers op reads).imp_right fun h => Or.inr ?_⟩
  exact h.resolve_left fun both => List.not_mem_nil both.2

theorem Copies.idle [Scalar α] (state : Copies "" [] [] g) : Command.sharedParameters.Idle g := by
  intro var d hd parameter unmade p q hp hq
  obtain ⟨first, readers⟩ := state.readers var d hd parameter unmade
  have only : ∀ op, g.Reads op var → op = first := by
    intro op reads
    rcases readers op reads with found | ⟨-, none⟩ | ⟨s, none, -⟩
    · exact found
    · cases none
    · cases none
  rw [only p hp, only q hq]

theorem sharedParameters_settles [Scalar α] (hg : g.Linked) :
    Task.Ensures sharedParameters g fun _ g' => Command.sharedParameters.Idle g' := by
  unfold sharedParameters
  apply Task.Ensures.state_bind
  refine (Task.Ensures.edit (Ensures.forM (Copies "" []) (fun s l h state => ?_)
    (copies_start hg))).bind fun _ g' done => .pure done.idle
  refine (Ensures.forM (fun rest h => Copies s.var rest l h) (fun op rest k now => ?_)
    state.take).mono fun _ k done => done.finish
  refine (copyFor_ensures now.linked s.var s.value op).mono fun _ k' hk' => ?_
  obtain ⟨copy, copied⟩ := hk'
  exact now.next copied

theorem casts_settles [Scalar α] (hg : g.Linked) :
    Task.Ensures casts g fun _ g' => Command.casts.Idle g' := by
  refine (casts_ensures hg).mono fun _ g' pass op o ho type => ?_
  obtain ⟨_, -, respelled⟩ := pass.done op o ho type List.not_mem_nil
  exact respelled.named

theorem slices_settles [Scalar α] (hg : g.Linked) :
    Task.Ensures slices g fun _ g' => Command.slices.Idle g' := by
  refine (slices_ensures hg).mono fun _ g' pass op o' ho' type => ?_
  obtain ⟨o, ho, sliced⟩ := pass.done op o' ho' type List.not_mem_nil
  exact sliced.bounded hg pass.supplied ho

theorem isolated_settles [Scalar α] (hg : g.Linked) :
    Task.Ensures isolated g fun _ g' => Command.isolated.Idle g' := by
  refine (isolated_ensures hg).mono fun _ g' done => ?_
  obtain ⟨ops, vars, pruned⟩ := done
  refine ⟨?_, pruned.referenced⟩
  rcases pruned.alive with ⟨none, -⟩ | alive
  · exact Or.inl (pruned.trimmed.outputs.trans none)
  · refine Or.inr fun op hop => pruned.contributes ?_
    obtain ⟨o, ho⟩ := mem_operations_iff.1 hop
    rw [pruned.trimmed.operations] at ho
    split at ho
    · cases ho
    · exact alive op (mem_operations_iff.2 ⟨o, ho⟩) ‹_›

end After

end GraphDispatch.Rewrite

namespace GraphDispatch

open GraphDispatch.Graph GraphDispatch.Rewrite

variable {α : Type} [Scalar α] {g g' : Graph α}

namespace Command

/-- What holds on from the run of the command to the end of formatting. -/
def Rests (c : Command) (g : Graph α) : Prop :=
  match c with
  | batchNorms => True
  | clips => ∀ op o, g.getOperation? op = some o → o.type = "Clip" → hasLimitAttributes o = false
  | c => c.Idle g

/-- The type of the operations that the command rewrites. -/
def type : Command → Option String
  | constants => some "Constant"
  | batchNorms => some "BatchNormalization"
  | casts => some "Cast"
  | slices => some "Slice"
  | clips => some "Clip"
  | sharedParameters => none
  | isolated => none

end Command

open Command

theorem Stems.rests_constants (stems : Stems g.operations g'.operations)
    (h : constants.Rests g) : constants.Rests g' := by
  intro op o' ho' type'
  obtain ⟨o, ho, type, -⟩ := stems op o' ho'
  exact h op o ho (type.symm.trans type')

theorem Rewrite.Supplied.rests {ops : String → Prop} {c : Command} (hg : g.Linked)
    (s : Supplied g g' ops)
    (apart : ∀ n o, ops n → g.getOperation? n = some o → c.type ≠ some o.type)
    (other : c ≠ .isolated) (h : c.Rests g) : c.Rests g' := by
  have same : ∀ n o', g'.getOperation? n = some o' → c.type = some o'.type →
      g.getOperation? n = some o' := by
    intro n o' ho' isType
    obtain ⟨o, new, ho, type, -⟩ := s.operations n o' ho'
    rw [← s.others n fun hn => apart n o hn ho (type ▸ isType)]
    exact ho'
  cases c with
  | isolated => exact absurd rfl other
  | batchNorms => trivial
  | constants =>
    intro op o' ho' isType
    exact h op o' (same op o' ho' (congrArg some isType.symm)) isType
  | casts =>
    intro op o' ho' isType
    exact h op o' (same op o' ho' (congrArg some isType.symm)) isType
  | clips =>
    intro op o' ho' isType
    exact h op o' (same op o' ho' (congrArg some isType.symm)) isType
  | slices =>
    intro op o' ho' isType
    have ho := same op o' ho' (congrArg some isType.symm)
    exact s.bounded hg ho (h op o' ho isType)
  | sharedParameters =>
    intro var d hd parameter unmade p q hp hq
    by_cases known : var ∈ g.vars
    · rw [s.declarations var known] at hd
      exact h var d hd parameter (fun n hn => unmade n (s.produces_iff.2 hn)) p q (s.reads known hp)
        (s.reads known hq)
    · exact s.own var known p q hp hq

theorem Rewrite.Pruned.rests {ops vars : List String} {c : Command} (pruned : Pruned g g' ops vars)
    (other : c ≠ .isolated) (h : c.Rests g) : c.Rests g' := by
  have same : ∀ n o, g'.getOperation? n = some o → n ∉ ops ∧ g.getOperation? n = some o := by
    intro n o ho
    rw [pruned.trimmed.operations] at ho
    split at ho
    · cases ho
    · exact ⟨‹_›, ho⟩
  cases c with
  | isolated => exact absurd rfl other
  | batchNorms => trivial
  | constants => exact fun op o ho => h op o (same op o ho).2
  | casts => exact fun op o ho => h op o (same op o ho).2
  | clips => exact fun op o ho => h op o (same op o ho).2
  | slices =>
    intro op o ho isType
    refine (h op o (same op o ho).2 isType).transfer fun var hvar => ?_
    have present := pruned.trimmed.mem_vars.1 (pruned.trimmed.linked.input_known ho hvar)
    rw [pruned.trimmed.declarations, if_neg present.2]
  | sharedParameters =>
    intro var d hd parameter unmade p q hp hq
    have kept : g.content.declarations.get? var = some d := by
      rw [pruned.trimmed.declarations] at hd
      split at hd
      · cases hd
      · exact hd
    obtain ⟨stays, reads⟩ := pruned.trimmed.reads_iff.1 hp
    refine h var d kept parameter (fun n hn => ?_) p q reads (pruned.trimmed.reads_iff.1 hq).2
    refine unmade n (pruned.trimmed.produces_iff.2 ⟨fun gone => stays ?_, hn⟩)
    exact pruned.closed (pruned.before.feeds_iff.2 ⟨var, hn, reads⟩) gone

namespace Command

/-- The commands in front of one in the order of formatting. -/
def before (c : Command) : List Command := all.takeWhile (· ≠ c)

end Command

theorem Command.apart_of_before {b c : Command} {type : String} (hc : c.type = some type)
    (hb : b ∈ c.before) : b.type ≠ some type ∧ b ≠ .isolated := by
  rw [← hc]
  cases c with
  | sharedParameters => cases hc
  | isolated => cases hc
  | _ => revert b; decide

theorem Rewrite.Passing.rests {type : String} {M : Graph α → Operation α → Operation α → Prop}
    {b c : Command} (hg : g.Linked) (p : Passing type M g [] g') (hc : c.type = some type)
    (hb : b ∈ c.before) (h : b.Rests g) : b.Rests g' := by
  obtain ⟨apart, other⟩ := apart_of_before hc hb
  refine p.supplied.rests hg (fun n o hn ho => ?_) other h
  obtain ⟨o', ho', isType⟩ := hn
  cases ho.symm.trans ho'
  rw [isType]
  exact apart

theorem rewrite_stems (c : Command) (hg : g.Linked) : Task.Ensures c.rewrite g
    fun _ g' => g'.Linked ∧ Stems g.operations g'.operations :=
  ((Edit.rewriteStable_stems g.operations).rewrite (fun _ h => h.1) c).ensures ⟨hg, .refl _⟩

/-- A command settles what it is about and leaves settled what those before it are about. -/
theorem rewrite_rests (c : Command) (hg : g.Linked) (h : ∀ b ∈ c.before, b.Rests g) :
    Task.Ensures c.rewrite g fun _ g' => ∀ b, b ∈ c.before ∨ b = c → b.Rests g' := by
  cases c with
  | constants =>
    refine (constants_settles hg).mono fun _ g' settled b hb => ?_
    rcases hb with hb | rfl
    · cases hb
    · exact settled
  | batchNorms =>
    refine (rewrite_stems .batchNorms hg).mono fun _ g' stems b hb => ?_
    rcases hb with hb | rfl
    · obtain rfl : b = .constants := List.mem_singleton.1 hb
      exact stems.2.rests_constants (h _ hb)
    · trivial
  | sharedParameters =>
    refine ((rewrite_stems .sharedParameters hg).and (sharedParameters_settles hg)).mono
      fun _ g' done b hb => ?_
    obtain ⟨⟨-, stems⟩, settled⟩ := done
    rcases hb with hb | rfl
    · rcases List.mem_cons.1 hb with rfl | hb
      · exact stems.rests_constants (h _ List.mem_cons_self)
      · rw [List.mem_singleton.1 hb]
        trivial
    · exact settled
  | casts =>
    refine ((casts_ensures hg).and (casts_settles hg)).mono fun _ g' done b hb => ?_
    obtain ⟨pass, settled⟩ := done
    rcases hb with hb | rfl
    · exact pass.rests hg rfl hb (h b hb)
    · exact settled
  | slices =>
    refine ((slices_ensures hg).and (slices_settles hg)).mono fun _ g' done b hb => ?_
    obtain ⟨pass, settled⟩ := done
    rcases hb with hb | rfl
    · exact pass.rests hg rfl hb (h b hb)
    · exact settled
  | clips =>
    refine (clips_ensures hg).mono fun _ g' pass b hb => ?_
    rcases hb with hb | rfl
    · exact pass.rests hg rfl hb (h b hb)
    · intro op o ho isType
      obtain ⟨_, -, clipped⟩ := pass.done op o ho isType List.not_mem_nil
      exact clipped.limited.1
  | isolated =>
    refine ((isolated_ensures hg).and (isolated_settles hg)).mono fun _ g' done b hb => ?_
    obtain ⟨⟨ops, vars, pruned⟩, settled⟩ := done
    rcases hb with hb | rfl
    · exact pruned.rests (by rintro rfl; revert hb; decide) (h b hb)
    · exact settled

end GraphDispatch
