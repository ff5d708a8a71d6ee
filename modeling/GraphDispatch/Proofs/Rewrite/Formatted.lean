import GraphDispatch.Proofs.Rewrite.BatchNorms
import GraphDispatch.Proofs.Rewrite.Settled

/-!
# Formatting twice

A first run of `format` leaves to a second one only normalizations that can be folded by then
and clips with fewer than three inputs. Commands remove operations and add inputs, never the
other way round: a run that ends with the operations it has started from has found nothing to do.
-/

namespace GraphDispatch

open GraphDispatch.Graph

variable {α : Type} {g g' : Graph α}

theorem Stems.not_back {m m' : NameMap (Operation α)} {op : String} (present : op ∈ m)
    (stems : Stems (m.erase op) m') : ¬Stems m' m := by
  intro back
  obtain ⟨o, ho⟩ := NameMap.mem_iff.1 present
  obtain ⟨o', ho', -⟩ := (stems.trans back) op o ho
  rw [NameMap.get?_erase, if_pos rfl] at ho'
  cases ho'

namespace Rewrite

section Returns

theorem applyFusion_ensures (hg : g.Linked) (f : Fusion α) :
    Ensures (applyFusion f) g fun _ g' => f.norm ∈ g.operations ∧ g'.Linked ∧
      Stems (g.operations.erase f.norm) g'.operations := by
  rw [applyFusion_eq]
  apply Ensures.get_bind
  refine ((Edit.removeOperation_effects f.norm).discard.ensures hg).bind fun _ h removed => ?_
  obtain ⟨linked, known, content⟩ := removed
  have operations : h.operations = g.operations.erase f.norm := congrArg Content.operations content
  have stable := Edit.rewriteStable_stems (g.operations.erase f.norm)
  refine ((stable.absorb f _).ensures ⟨linked, operations ▸ .refl _⟩).mono fun _ g' done => ?_
  exact ⟨known, done⟩

variable [Scalar α]

theorem foldBatchNorm_ensures (hg : g.Linked) (norm : String) :
    Task.Ensures (foldBatchNorm norm) g fun _ g' => Stays g norm ∧ g' = g ∨
      norm ∈ g.operations ∧ g'.Linked ∧ Stems (g.operations.erase norm) g'.operations := by
  unfold foldBatchNorm
  apply Task.Ensures.state_bind
  apply Task.Ensures.ofExcept_bind
  intro plan planned
  cases plan with
  | skip => exact .pure (Or.inl ⟨⟨_, planned, nofun⟩, rfl⟩)
  | statisticsNotParameters =>
    exact Task.Ensures.note_bind (.pure (Or.inl ⟨⟨_, planned, nofun⟩, rfl⟩))
  | statisticsMismatch channels parent =>
    exact Task.Ensures.note_bind (.pure (Or.inl ⟨⟨_, planned, nofun⟩, rfl⟩))
  | fold f =>
    apply Task.Ensures.note_bind
    refine (Task.Ensures.edit (applyFusion_ensures hg f)).bind fun _ g' folded => .pure ?_
    rw [(planFusion_eq_fold planned).1] at folded
    exact Or.inr folded

theorem batchNorms_returns (hg : g.Linked) : Task.Ensures batchNorms g fun _ g' =>
    Stems g'.operations g.operations → Command.batchNorms.Idle g := by
  refine (countChanges_ensures (fun l h => h.Linked ∧ (Stems h.operations g.operations → h = g ∧
    ∀ norm ∈ g.operationsOfType "BatchNormalization", norm ∈ l ∨ Stays g norm))
    (fun norm l h state => ?_) ?_).mono fun _ g' done back norm o ho type => ?_
  · refine (foldBatchNorm_ensures state.1 norm).mono fun _ h' step => ?_
    rcases step with ⟨stays, rfl⟩ | ⟨present, linked, stems⟩
    · refine ⟨state.1, fun back => ?_⟩
      obtain ⟨same, rest⟩ := state.2 back
      refine ⟨same, fun n hn => ?_⟩
      rcases rest n hn with listed | done
      · rcases List.mem_cons.1 listed with rfl | later
        · exact Or.inr (same ▸ stays)
        · exact Or.inl later
      · exact Or.inr done
    · refine ⟨linked, fun back => ?_⟩
      obtain ⟨same, -⟩ := state.2 (((Stems.erase _ norm).trans stems).trans back)
      exact absurd (same ▸ back) (stems.not_back present)
  · exact ⟨hg, fun _ => ⟨rfl, fun _ hn => Or.inl hn⟩⟩
  · have listed := hg.mem_operationsOfType.2 ⟨o, ho, type⟩
    exact ((done.2 back).2 norm listed).resolve_left List.not_mem_nil

theorem clips_returns (hg : g.Linked) (rests : Command.clips.Rests g) :
    Task.Ensures clips g fun _ g' =>
      Stems g'.operations g.operations → Command.clips.Idle g := by
  refine (clips_ensures hg).mono fun _ g' pass back op o ho type => ?_
  obtain ⟨o', ho', type', fewer⟩ := back op o ho
  obtain ⟨p, hp, clipped⟩ := pass.done op o' ho' (type'.symm.trans type) List.not_mem_nil
  cases ho.symm.trans hp
  exact ⟨clipped.limited.2.resolve_right (by omega), rests op o ho type⟩

end Returns

end Rewrite

variable [Scalar α]

/-- A command after which all operations are still there has had nothing to do. -/
theorem process_returns {c : Command} (hg : g.Linked) (rests : c.Rests g) :
    Task.Ensures (process c) g fun _ g' =>
      Stems g'.operations g.operations → c.Idle g ∧ g' = g := by
  have idle : Task.Ensures c.rewrite g fun _ g' =>
      Stems g'.operations g.operations → c.Idle g := by
    cases c with
    | batchNorms => exact Rewrite.batchNorms_returns hg
    | clips => exact Rewrite.clips_returns hg rests
    -- of the others it is known without a run
    | _ => exact fun _ _ _ _ _ => rests
  intro events n later run back
  have nothing : c.Idle g := process_ensures idle events n later run back
  exact ⟨nothing, ((process_leads hg nothing).ensures events n later run).2⟩

/-- What `format` leaves behind. -/
structure Formatted (g : Graph α) : Prop where
  linked : g.Linked
  rests : ∀ c : Command, c.Rests g
  checked : g.check = .ok ()

theorem Command.before_eq {done rest : List Command} {c : Command} (h : all = done ++ c :: rest) :
    c.before = done := by
  have nodup : all.Nodup := by decide
  rw [h] at nodup
  have absent : ∀ b ∈ done, b ≠ c := fun b hb =>
    (List.nodup_append.1 nodup).2.2 b hb c List.mem_cons_self
  rw [before, h, List.takeWhile_append_of_pos (by simpa using absent),
    List.takeWhile_cons_of_neg (by simp), List.append_nil]

/-- Formatting comes down to the commands and a check of the graph. -/
theorem format_ensures {Q : Graph α → Prop}
    (h : Task.Ensures (Command.all.forM fun c => discard (process c)) g fun _ => Q) :
    Task.Ensures format g fun _ g' => Q g' ∧ g'.check = .ok () := by
  unfold format
  refine h.bind fun _ k hk => Task.Ensures.state_bind ?_
  intro events u later run
  cases checked : k.check with
  | ok _ =>
    rw [checked] at run
    cases run
    exact ⟨hk, checked⟩
  | error e =>
    rw [checked] at run
    cases run

theorem format_rests (hg : g.Linked) : Task.Ensures format g fun _ g' => Formatted g' := by
  -- the commands that are done are those in front of the next one, so `rewrite_rests` applies
  refine (format_ensures (Q := fun h => h.Linked ∧ ∀ c : Command, c.Rests h) ?_).mono
    fun _ g' done => ⟨done.1.1, done.1.2, done.2⟩
  refine (Task.Ensures.forM (fun rest h => h.Linked ∧ ∃ done, Command.all = done ++ rest ∧
    ∀ b ∈ done, b.Rests h) (fun c rest h state => ?_) ⟨hg, [], rfl, nofun⟩).mono fun _ h state => ?_
  · obtain ⟨linked, done, order, rests⟩ := state
    have before := Command.before_eq order
    have step := (process_ensures (rewrite_stems c linked)).and
      (process_ensures (rewrite_rests c linked (before ▸ rests)))
    refine step.discard.mono fun _ h' outcome => ?_
    obtain ⟨_, ⟨linked', -⟩, settled⟩ := outcome
    refine ⟨linked', done ++ [c], by simp [order], fun b hb => settled b ?_⟩
    rw [before]
    simpa using hb
  · obtain ⟨linked, done, order, rests⟩ := state
    rw [List.append_nil] at order
    exact ⟨linked, fun c => rests c (order ▸ Command.mem_all c)⟩

theorem Formatted.idle_of_returns (formatted : Formatted g) :
    Task.Ensures format g fun _ g' => g' = g → ∀ c : Command, c.Idle g := by
  -- as long as there is a way back to `g`, the graph is still `g` itself
  refine (format_ensures (Q := fun h => Stems h.operations g.operations →
    ∀ c : Command, c.Idle g) ?_).mono fun _ g' done same => done.1 (same ▸ .refl _)
  refine (Task.Ensures.forM (fun rest h => h.Linked ∧ (Stems h.operations g.operations →
    h = g ∧ ∀ c : Command, c ∈ rest ∨ c.Idle g)) (fun c rest h state => ?_) ?_).mono
      fun _ h state back c => ((state.2 back).2 c).resolve_left List.not_mem_nil
  · have stems := process_ensures (rewrite_stems c state.1)
    by_cases back : Stems h.operations g.operations
    · obtain ⟨rfl, idle⟩ := state.2 back
      have step := stems.and (process_returns state.1 (formatted.rests c))
      refine step.discard.mono fun _ h' outcome => ?_
      obtain ⟨_, ⟨linked, -⟩, returns⟩ := outcome
      refine ⟨linked, fun back' => ?_⟩
      obtain ⟨new, same⟩ := returns back'
      refine ⟨same, fun b => (idle b).elim (fun listed => ?_) Or.inr⟩
      exact (List.mem_cons.1 listed).elim (fun hb => Or.inr (hb ▸ new)) Or.inl
    · refine stems.discard.mono fun _ h' outcome => ?_
      obtain ⟨_, linked, stems⟩ := outcome
      exact ⟨linked, fun forth => absurd (stems.trans forth) back⟩
  · exact ⟨formatted.linked, fun _ => ⟨rfl, fun c => Or.inl (Command.mem_all c)⟩⟩

/-- What a second run of `format` has to find to leave the graph alone. -/
structure Final (g : Graph α) : Prop where
  norms : ∀ norm o, g.getOperation? norm = some o → o.type = "BatchNormalization" →
    Rewrite.Stays g norm
  clips : ∀ clip o, g.getOperation? clip = some o → o.type = "Clip" → 3 ≤ o.inputs.length

theorem Formatted.idle (formatted : Formatted g) (final : Final g) (c : Command) : c.Idle g := by
  have rests := formatted.rests c
  cases c with
  | batchNorms => exact final.norms
  | clips => exact fun op o ho type => ⟨final.clips op o ho type, rests op o ho type⟩
  | _ => exact rests

theorem Formatted.unchanged_iff (formatted : Formatted g) (events : List Event) :
    (∃ later, format ⟨g, events⟩ = .ok () later ∧ later.state = g) ↔ Final g := by
  constructor
  · rintro ⟨later, run, same⟩
    have idle := formatted.idle_of_returns events () later run same
    exact ⟨idle .batchNorms, fun clip o ho type => (idle .clips clip o ho type).1⟩
  · intro final
    obtain ⟨_, t, later, run, same⟩ :=
      format_leads formatted.linked (formatted.idle final) formatted.checked events
    exact ⟨⟨t, later⟩, run, same⟩

/-- A run of `format` in two steps. -/
theorem format_leads_by {h k : Graph α} {n : Nat}
    (front : Task.Leads (Command.isolated.before.forM fun c => discard (process c)) g
      fun _ g' => g' = h)
    (last : Task.Leads Rewrite.isolated h fun m g' => m = n ∧ g' = k)
    (checked : k.check = .ok ()) : Task.Leads format g fun _ g' => g' = k := by
  have removal : Task.Leads (process .isolated) h fun m g' => m = n ∧ g' = k :=
    process_leads_of_rewrite (c := .isolated) last
  have order : Command.all = Command.isolated.before ++ [.isolated] := rfl
  have commands : Task.Leads (Command.all.forM fun c => discard (process c)) g
      fun _ g' => g' = k := by
    have split : (Command.all.forM fun c => discard (process (α := α) c)) = (do
        Command.isolated.before.forM fun c => discard (process c)
        [Command.isolated].forM fun c => discard (process c)) := by
      rw [order]
      exact List.forM_append
    rw [split]
    refine front.bind fun _ g' same => ?_
    rw [same]
    refine removal.discard.bind fun _ g' done => ?_
    obtain ⟨_, -, same⟩ := done
    exact Task.leads_pure same
  exact format_leads_of_commands commands checked

/-- Formatting a formatted graph succeeds and leaves the graph as it is just where no
normalization can be folded and every clip has its three inputs. A first run does not see to
that: a normalization may become ready for folding only by what is removed behind it, and a
clip without inputs is not completed at once. -/
theorem format_again_iff {d : Document α} (built : d.build = .ok g) {events : List Event}
    {once : Logged (Graph α)} (run : format ⟨g, events⟩ = .ok () once) :
    (∃ twice, format once = .ok () twice ∧ twice.state = once.state) ↔ Final once.state :=
  (format_rests (linked_of_build built) events () once run).unchanged_iff once.events

def castCode : Document Float32 where
  name := "net"
  inputs := ["x"]
  outputs := ["y"]
  vars := [⟨"x", none, false⟩, ⟨"y", none, false⟩]
  operations := [⟨"cast", "Cast", .ofList [("to", .int 1)], ["x"], ["y"], .unspecified⟩]

def castName : Document Float32 := { castCode with
  operations :=
    [⟨"cast", "Cast", .ofList [("to", .string "float32")], ["x"], ["y"], .unspecified⟩] }

theorem format_castCode : Task.Leads format castCode.graph fun _ g' => g' = castName.graph := by
  have first : castName.graph.upstream "cast" = [] := rfl
  have alive : reach castName.graph.upstream ["cast"] ["cast"] = ["cast"] := by
    simp [reach, first]
  have dead : Rewrite.deadOperations castName.graph = [] :=
    Rewrite.deadOperations_eq rfl rfl alive
  exact format_leads_by (fun _ => ⟨_, castName.graph, _, rfl, rfl⟩)
    (Rewrite.isolated_leads_of rfl dead ⟨_, rfl, rfl, rfl⟩) rfl

theorem format_again_castCode : ∃ once twice, castCode.build = .ok castCode.graph ∧
    format ⟨castCode.graph, []⟩ = .ok () once ∧ format once = .ok () twice ∧
    twice.state = once.state := by
  have built : castCode.build = .ok castCode.graph := rfl
  obtain ⟨_, _, events, run, rfl⟩ := format_castCode []
  have casts : ∀ op o, castName.graph.getOperation? op = some o → o.type = "Cast" :=
    NameMap.forall_get?_iff.2 (by decide)
  have final : Final castName.graph :=
    ⟨fun norm o ho type => absurd ((casts norm o ho).symm.trans type) (by decide),
      fun clip o ho type => absurd ((casts clip o ho).symm.trans type) (by decide)⟩
  obtain ⟨twice, again, same⟩ := (format_again_iff built run).2 final
  exact ⟨_, twice, built, run, again, same⟩

def normalized : Document Float32 where
  name := "net"
  inputs := ["x"]
  outputs := ["y"]
  vars := [⟨"x", none, false⟩, ⟨"w", some ⟨[1, 1], .floats [2]⟩, false⟩, ⟨"z", none, false⟩,
    ⟨"ones", some ⟨[1], .floats [1]⟩, false⟩, ⟨"y", none, false⟩]
  operations := [⟨"fc", "Gemm", ∅, ["x", "w"], ["z"], .unspecified⟩,
    ⟨"bn", "BatchNormalization", ∅, ["z", "ones", "ones", "ones", "ones"], ["y"], .unspecified⟩]

/-- A dead operation also reads what the normalization reads. -/
def sideReader : Document Float32 := { normalized with
  vars := normalized.vars ++ [⟨"s", none, false⟩]
  operations := normalized.operations ++ [⟨"side", "Relu", ∅, ["z"], ["s"], .unspecified⟩] }

theorem format_sideReader :
    Task.Leads format sideReader.graph fun _ g' => g' = normalized.graph := by
  have first : sideReader.graph.upstream "fc" = [] := rfl
  have second : sideReader.graph.upstream "bn" = ["fc"] := rfl
  have alive : reach sideReader.graph.upstream ["bn", "fc", "side"] ["bn"] = ["bn", "fc"] := by
    simp [reach, first, second]
  have dead : Rewrite.deadOperations sideReader.graph = ["side"] :=
    Rewrite.deadOperations_eq rfl rfl alive
  exact format_leads_by (fun _ => ⟨_, sideReader.graph, _, rfl, rfl⟩)
    (Rewrite.isolated_leads_of rfl dead ⟨_, rfl, rfl, rfl⟩) rfl

/-- The first run removes the dead operation, which leaves the normalization to the second. -/
theorem format_changes_formatted : ∃ once, sideReader.build = .ok sideReader.graph ∧
    format ⟨sideReader.graph, []⟩ = .ok () once ∧
    ¬∃ twice, format once = .ok () twice ∧ twice.state = once.state := by
  have built : sideReader.build = .ok sideReader.graph := rfl
  obtain ⟨_, once, events, run, rfl⟩ := format_sideReader []
  have formatted := format_rests (linked_of_build built) [] () _ run
  refine ⟨_, built, run, fun unchanged => ?_⟩
  have final := (formatted.unchanged_iff events).1 unchanged
  obtain ⟨plan, planned, keep⟩ := final.norms "bn" _ rfl rfl
  have fold : ∃ f, Rewrite.planFusion normalized.graph "bn" = .ok (.fold f) := ⟨_, rfl⟩
  obtain ⟨f, folds⟩ := fold
  cases folds.symm.trans planned
  exact keep f rfl

end GraphDispatch
