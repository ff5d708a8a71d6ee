import GraphDispatch.Pipeline.Quantize
import GraphDispatch.Proofs.Dispatch.Failure
import GraphDispatch.Proofs.Files.Export
import GraphDispatch.Proofs.Links.Refusals
import GraphDispatch.Proofs.Rewrite.Formatted

/-!
# Calls of the backend

A backend is costly, so it is called at most once, and only on a graph that is ready for it. What
can be said without the file is said before the file is read: a request that is refused is refused
in the same way whatever the file holds. Otherwise the run follows the loading of the file and the
dispatch of the graph.

A task passes its state and its events on, also where it fails, so a call can not be hidden. That
a backend is not called means that the run is the same with every backend, and that it is called
once means that the run is read off one answer.
-/

namespace GraphDispatch.Pipeline

namespace QuantizeRequest

/-- What a request has to name before a file is looked at. -/
structure Ready (r : QuantizeRequest) : Prop where
  quantized : r.platform.isQuantized = true
  quantizer : r.platform.quantizer? ≠ none
  calibrated : r.quantizes = true →
    ∃ source, r.calibration = some source ∧ r.steps ≠ 0 ∧ source.batches ≠ 0

/-- Why a request is refused, by the first check that it does not pass. -/
inductive Refused (r : QuantizeRequest) : PipelineError Float32 → Prop where
  | platform : r.platform.isQuantized = false → Refused r (.notQuantized r.platform)
  | quantizer : r.platform.isQuantized = true → r.platform.quantizer? = none →
    Refused r (.dispatch (.unsupportedPlatform r.platform))
  | source : r.platform.isQuantized = true → r.platform.quantizer? ≠ none →
    r.quantizes = true → r.calibration = none → Refused r (.calibration .noSource)
  | steps : r.platform.isQuantized = true → r.platform.quantizer? ≠ none →
    r.quantizes = true → r.calibration ≠ none → r.steps = 0 →
    Refused r (.calibration .noSteps)
  | batches {source : CalibrationSource} : r.platform.isQuantized = true →
    r.platform.quantizer? ≠ none → r.quantizes = true → r.calibration = some source →
    r.steps ≠ 0 → source.batches = 0 → Refused r (.calibration .emptySource)

/-- What the backend is told. -/
structure Assigns (r : QuantizeRequest) (a : Assignment) : Prop where
  platform : a.platform = r.platform
  types : r.platform.quantizer? = some a.types
  setting : a.setting = r.setting
  calibration : r.calibration = some a.calibration
  steps : a.steps = r.steps

variable {r : QuantizeRequest}

/-- A request that is refused is refused by the first check that it does not pass; another has
something for the backend to do or not. -/
theorem assignment?_spec (r : QuantizeRequest) :
    (∃ e, r.Refused e ∧ r.assignment? = .error e) ∨
    (r.Ready ∧ r.quantizes = false ∧ r.assignment? = .ok none) ∨
    ∃ a, r.Ready ∧ r.quantizes = true ∧ r.Assigns a ∧ r.assignment? = .ok (some a) := by
  unfold assignment?
  cases quantized : r.platform.isQuantized with
  | false => exact Or.inl ⟨_, .platform quantized, rfl⟩
  | true =>
    cases types : r.platform.quantizer? with
    | none => exact Or.inl ⟨_, .quantizer quantized types, rfl⟩
    | some types' =>
      have registered : r.platform.quantizer? ≠ none := by simp [types]
      cases quantizes : r.quantizes with
      | false =>
        refine Or.inr (Or.inl ⟨⟨quantized, registered, fun asked => ?_⟩, rfl, rfl⟩)
        rw [quantizes] at asked
        cases asked
      | true =>
        cases calibration : r.calibration with
        | none => exact Or.inl ⟨_, .source quantized registered quantizes calibration, rfl⟩
        | some source =>
          have given : r.calibration ≠ none := by simp [calibration]
          by_cases steps : r.steps = 0
          · refine Or.inl ⟨_, .steps quantized registered quantizes given steps, ?_⟩
            simp [steps, throw, throwThe, MonadExceptOf.throw, bind, Except.bind]
          · by_cases batches : source.batches = 0
            · refine Or.inl
                ⟨_, .batches quantized registered quantizes calibration steps batches, ?_⟩
              simp [steps, batches, throw, throwThe, MonadExceptOf.throw, bind, Except.bind]
            · refine Or.inr (Or.inr ⟨⟨r.platform, types', r.setting, source, r.steps⟩,
                ⟨quantized, registered, fun _ => ⟨source, calibration, steps, batches⟩⟩, rfl,
                ⟨rfl, types, rfl, calibration, rfl⟩, ?_⟩)
              simp [steps, batches, pure, Except.pure]

theorem Refused.not_ready {e : PipelineError Float32} (refused : r.Refused e) : ¬r.Ready := by
  intro ready
  cases refused with
  | platform plain => exact absurd ready.quantized (by simp [plain])
  | quantizer _ none => exact ready.quantizer none
  | source _ _ quantizes none =>
    obtain ⟨source, given, -⟩ := ready.calibrated quantizes
    simp [none] at given
  | steps _ _ quantizes _ none =>
    obtain ⟨_, -, steps, -⟩ := ready.calibrated quantizes
    exact steps none
  | batches _ _ quantizes given _ none =>
    obtain ⟨_, given', -, batches⟩ := ready.calibrated quantizes
    cases given.symm.trans given'
    exact batches none

theorem assignment?_of_not_ready (flawed : ¬r.Ready) :
    ∃ e, r.Refused e ∧ r.assignment? = .error e := by
  obtain refused | ⟨ready, -⟩ | ⟨_, ready, -⟩ := r.assignment?_spec
  · exact refused
  · exact absurd ready flawed
  · exact absurd ready flawed

theorem Ready.assignment? (ready : r.Ready) :
    (r.quantizes = false ∧ r.assignment? = .ok none) ∨
    ∃ a, r.quantizes = true ∧ r.Assigns a ∧ r.assignment? = .ok (some a) := by
  obtain ⟨_, refused, -⟩ | ⟨-, idle⟩ | ⟨a, -, asks⟩ := r.assignment?_spec
  · exact absurd ready refused.not_ready
  · exact Or.inl idle
  · exact Or.inr ⟨a, asks⟩

end QuantizeRequest

/-! ## Runs -/

section

variable {path : String} {r : QuantizeRequest} {s l : Logged FileTree} {t : Logged (Graph Float32)}
  {e : PipelineError Float32} {g : Graph Float32} {table : DispatchTable} {a : Assignment}

theorem keeps_on {σ τ ε β : Type} {P : σ → Prop} (t : τ) (m : Task τ ε β) :
    Task.Keeps P (Task.on t m) := by
  intro s hs
  unfold Task.on
  cases m ⟨t, s.events⟩ <;> exact hs

/-- Reading changes no file. -/
theorem keeps_load {P : FileTree → Prop} (path : String) : Task.Keeps P (load path) := by
  have opens : Task.Keeps P (Files.openGraph path) := by
    refine Task.keeps_state_bind fun files _ => ?_
    cases files.read path with
    | ok bytes => exact Keeps.pure _
    | error cause => cases cause <;> exact Keeps.throw _
  have reads : Task.Keeps P (Files.readGraph path) := opens.bind fun _ =>
    Keeps.bind (Task.keeps_ofExcept _) fun _ => Keeps.bind (Task.keeps_note _) fun _ => Keeps.pure _
  have imports : Task.Keeps P (Files.importGraph path .native) := reads
  exact imports.bind fun _ => Keeps.bind (keeps_on _ _) fun _ => Keeps.pure _

theorem load_state {path : String} {s l : Logged FileTree} {g : Graph Float32}
    (loaded : load path s = .ok g l) : l.state = s.state := by
  have kept := keeps_load (P := (· = s.state)) path s rfl
  rwa [loaded] at kept

theorem load_failed_state {path : String} {s l : Logged FileTree} {e : PipelineError Float32}
    (failed : load path s = .error e l) : l.state = s.state := by
  have kept := keeps_load (P := (· = s.state)) path s rfl
  rwa [failed] at kept

/-- The run ends with `answer` whatever the backend would do, as it is not called. -/
def Uncalled (path : String) (r : QuantizeRequest) (s : Logged FileTree)
    (answer : Except (PipelineError Float32) (Graph Float32)) (events : List Event) : Prop :=
  ∀ (ρ : Type) (backend : Backend ρ), quantize path r backend s = match answer with
    | .ok g => .ok (g, none) ⟨s.state, events⟩
    | .error e => .error e ⟨s.state, events⟩

/-- The backend is called on the graph `t`, and the run ends with what it makes of it. -/
def CalledOnce (path : String) (r : QuantizeRequest) (s : Logged FileTree) (a : Assignment)
    (t : Logged (Graph Float32)) : Prop :=
  ∀ (ρ : Type) (backend : Backend ρ), quantize path r backend s = match backend a t with
    | .ok report u =>
      .ok (u.state, some report) ⟨s.state, .quantized u.state.name a.platform :: u.events⟩
    | .error reason u => .error (.refused reason) ⟨s.state, u.events⟩

theorem quantize_of_refused (refused : r.assignment? = .error e) :
    Uncalled path r s (.error e) s.events := by
  intro ρ backend
  rw [quantize, refused]
  rfl

theorem quantize_of_unloaded {asked : Option Assignment} (checked : r.assignment? = .ok asked)
    (failed : load path s = .error e l) : Uncalled path r s (.error e) l.events := by
  intro ρ backend
  have stops : loadDispatched path r.platform r.setting s = .error e l := bind_of_error failed
  rw [quantize, checked]
  refine (bind_of_error stops).trans ?_
  rw [← load_failed_state failed]

theorem loadDispatched_of_load (loaded : load path s = .ok g l) :
    loadDispatched path r.platform r.setting s =
      match dispatch r.platform r.setting ⟨g, l.events⟩ with
      | .ok table t => .ok (table, t.state) ⟨s.state, t.events⟩
      | .error e t => .error e ⟨s.state, t.events⟩ := by
  refine (bind_of_ok loaded).trans ?_
  rw [← load_state loaded]
  unfold Task.on
  cases dispatch r.platform r.setting ⟨g, l.events⟩ <;> rfl

theorem loadDispatched_of_dispatched (loaded : load path s = .ok g l)
    (dispatched : dispatch r.platform r.setting ⟨g, l.events⟩ = .ok table t) :
    loadDispatched path r.platform r.setting s = .ok (table, t.state) ⟨s.state, t.events⟩ := by
  rw [loadDispatched_of_load loaded, dispatched]

theorem quantize_of_undispatched {asked : Option Assignment} (checked : r.assignment? = .ok asked)
    (loaded : load path s = .ok g l)
    (failed : dispatch r.platform r.setting ⟨g, l.events⟩ = .error e t) :
    Uncalled path r s (.error e) t.events := by
  intro ρ backend
  have stops := loadDispatched_of_load (r := r) loaded
  rw [failed] at stops
  rw [quantize, checked]
  exact (bind_of_ok rfl).trans (bind_of_error stops)

theorem quantize_of_idle (checked : r.assignment? = .ok none) (loaded : load path s = .ok g l)
    (dispatched : dispatch r.platform r.setting ⟨g, l.events⟩ = .ok table t) :
    Uncalled path r s (.ok t.state) t.events := by
  intro ρ backend
  rw [quantize, checked]
  exact (bind_of_ok rfl).trans (bind_of_ok (loadDispatched_of_dispatched loaded dispatched))

theorem callBackend_eq {ρ : Type} (backend : Backend ρ) (a : Assignment)
    (t : Logged (Graph Float32)) : callBackend backend a t =
      match backend a t with
      | .ok report u => .ok report ⟨u.state, .quantized u.state.name a.platform :: u.events⟩
      | .error reason u => .error (.refused reason) u := by
  rw [callBackend, run_bind]
  unfold Task.wrapError EStateM.adaptExcept
  cases backend a t <;> rfl

theorem quantize_of_called (checked : r.assignment? = .ok (some a))
    (loaded : load path s = .ok g l)
    (dispatched : dispatch r.platform r.setting ⟨g, l.events⟩ = .ok table t) :
    CalledOnce path r s a t := by
  intro ρ backend
  rw [quantize, checked]
  refine (bind_of_ok rfl).trans
    ((bind_of_ok (loadDispatched_of_dispatched loaded dispatched)).trans ?_)
  change (Task.on t.state (callBackend backend a) >>= _) ⟨s.state, t.events⟩ = _
  rw [run_bind, Task.on, callBackend_eq]
  cases backend a t <;> rfl

/-- What a run comes to, for all requests and all files. -/
theorem quantize_calls_backend (r : QuantizeRequest) :
    (¬r.Ready → ∃ e, r.Refused e ∧ ∀ path s, Uncalled path r s (.error e) s.events) ∧
    (r.Ready → ∀ path s, match load path s with
      | .error e l => Uncalled path r s (.error e) l.events
      | .ok g l => match dispatch r.platform r.setting ⟨g, l.events⟩ with
        | .error e t => Uncalled path r s (.error e) t.events
        | .ok _ t =>
          if r.quantizes then ∃ a, r.Assigns a ∧ CalledOnce path r s a t
          else Uncalled path r s (.ok t.state) t.events) := by
  constructor
  · intro flawed
    obtain ⟨e, refused, checked⟩ := QuantizeRequest.assignment?_of_not_ready flawed
    exact ⟨e, refused, fun path s => quantize_of_refused checked⟩
  · intro ready path s
    have passes : ∃ asked, r.assignment? = .ok asked := by
      obtain ⟨-, checked⟩ | ⟨a, -, -, checked⟩ := ready.assignment?
      · exact ⟨_, checked⟩
      · exact ⟨_, checked⟩
    obtain ⟨asked, checked⟩ := passes
    split
    · exact quantize_of_unloaded checked ‹_›
    rename_i g l loaded
    split
    · exact quantize_of_undispatched checked loaded ‹_›
    rename_i table t dispatched
    obtain ⟨idle, checked⟩ | ⟨a, quantizes, assigns, checked⟩ := ready.assignment?
    · rw [if_neg (by simp [idle])]
      exact quantize_of_idle checked loaded dispatched
    · rw [if_pos quantizes]
      exact ⟨a, assigns, quantize_of_called checked loaded dispatched⟩

end

/-! ## A run that calls -/

open Edit

/-- A graph in a file. -/
def filed : FileTree := FileTree.empty.put ["s"] (.file forked.graph.text.toUTF8)

theorem load_filed (events : List Event) :
    ∃ later, load "s" ⟨filed, events⟩ = .ok forked.graph ⟨filed, later⟩ := by
  have written : FileTree.empty.write "s" forked.graph.text.toUTF8 = .ok filed :=
    FileTree.plain_s.write_new rfl _
  have exact : Exact forked.graph.singles := show Exact [] from nofun
  have imported := Files.importGraph_of_read (g := forked.graph) rfl exact
    (FileTree.read_of_write written) events
  have formats : Task.Leads GraphDispatch.format forked.graph fun _ g' => g' = forked.graph := by
    have left : forked.graph.upstream "add" = [] := rfl
    have right : forked.graph.upstream "relu" = [] := rfl
    have alive : reach forked.graph.upstream ["add", "relu"] ["add", "relu"] =
        ["add", "relu"] := by
      simp [reach, left, right]
    have dead : Rewrite.deadOperations forked.graph = [] :=
      Rewrite.deadOperations_eq rfl rfl alive
    exact format_leads_by (fun _ => ⟨_, forked.graph, _, rfl, rfl⟩)
      (Rewrite.isolated_leads_of rfl dead ⟨_, rfl, rfl, rfl⟩) rfl
  obtain ⟨_, _, later, run, rfl⟩ := Task.leads_wrapError (f := PipelineError.format) formats
    (.loaded forked.graph.name "s" forked.graph.operations.size forked.graph.vars.size :: events)
  have formatted : Task.on forked.graph format ⟨filed, .loaded forked.graph.name "s"
      forked.graph.operations.size forked.graph.vars.size :: events⟩ =
        .ok ((), forked.graph) ⟨filed, later⟩ := by
    rw [Task.on, show format _ = _ from run]
  exact ⟨later, (bind_of_ok imported).trans (bind_of_ok formatted)⟩

def calibrated : QuantizeRequest where
  platform := .trtInt8
  calibration := some ⟨1⟩

theorem dispatch_forked (events : List Event) :
    ∃ table t, dispatch .trtInt8 {} ⟨forked.graph, events⟩ = .ok table t := by
  have ranked : forked.graph.Ranked fun op => ["add", "relu"].idxOf op := by decide
  have accepted : (request .trtInt8 {}).Accepted forked.graph :=
    ⟨⟨_, rfl⟩, ⟨.conservative, by decide⟩, by decide⟩
  obtain ⟨table, _, _, run, -⟩ := Task.leads_wrapError (f := PipelineError.dispatch)
    (Dispatch.run_succeeds forked_reachable.linked ranked.acyclic accepted) events
  exact ⟨table, _, run⟩

/-- Without steps the request is refused; with them the backend is called on what comes of a
graph. -/
theorem quantize_calls_backend_forked :
    (∀ path s, Uncalled path { calibrated with steps := 0 } s (.error (.calibration .noSteps))
      s.events) ∧
    ∃ a t, calibrated.Assigns a ∧ CalledOnce "s" calibrated ⟨filed, []⟩ a t := by
  constructor
  · have flawed : ¬({ calibrated with steps := 0 } : QuantizeRequest).Ready := by
      intro ready
      obtain ⟨_, -, steps, -⟩ := ready.calibrated rfl
      exact steps rfl
    obtain ⟨e, refused, uncalled⟩ := (quantize_calls_backend _).1 flawed
    cases refused with
    | steps => exact uncalled
    | platform plain => cases plain
    | quantizer _ none => cases none
    | source _ _ _ none => cases none
    | batches _ _ _ _ steps => exact absurd rfl steps
  · have ready : calibrated.Ready :=
      ⟨rfl, by decide, fun _ => ⟨⟨1⟩, rfl, by decide, by decide⟩⟩
    obtain ⟨later, loaded⟩ := load_filed []
    obtain ⟨table, t, dispatched⟩ := dispatch_forked later
    have runs := (quantize_calls_backend calibrated).2 ready "s" ⟨filed, []⟩
    rw [loaded] at runs
    dsimp only at runs
    rw [show dispatch calibrated.platform calibrated.setting _ = _ from dispatched] at runs
    obtain ⟨a, assigns, called⟩ := runs
    exact ⟨a, t, assigns, called⟩

end GraphDispatch.Pipeline
