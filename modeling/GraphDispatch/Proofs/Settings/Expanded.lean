import GraphDispatch.CommandLine.Run
import GraphDispatch.Proofs.Settings.Survival

/-!
# Expanded settings

A simple setting can be dispatched with as it is, or be converted to a full setting first. Either
way the same platform and the same setting are resolved.
-/

namespace GraphDispatch

open Json

theorem Platform.parse?_name (p : Platform) : parse? p.name = some p := by
  rw [parse?, ofName?_name]
  rfl

/-- All floats of an expanded setting but the rate are constants. -/
theorem SimpleSetting.exact_expand {s : SimpleSetting}
    (exact : (Number.single s.fineTuningRate).ReadsAs s.fineTuningRate) : s.expand.Exact := by
  have constant : ∀ x ∈ [0.5, 0, 1e-3, 2], (Number.single x).ReadsAs x := by decide +kernel
  have threshold : s.expand.equalization.threshold ∈ [0.5, 0, 1e-3, 2] := by
    change s.equalization.threshold ∈ _
    rw [equalization]
    split <;> simp
  have rate : s.expand.fineTuning.rate ∈ [s.fineTuningRate, 1e-3] := by
    change s.fineTuning.rate ∈ _
    rw [fineTuning]
    split <;> simp
  have limit : s.expand.fineTuning.limit = 2 := by
    change s.fineTuning.limit = _
    rw [fineTuning]
    split <;> rfl
  simp only [Setting.Exact, Setting.floats, List.forall_mem_cons]
  refine ⟨constant _ threshold, ?_, ?_, by simp⟩
  · obtain rate | rate := List.mem_pair.1 rate
    · rwa [rate]
    · rw [rate]
      exact constant _ (by simp)
  · rw [limit]
    exact constant _ (by simp)

namespace CommandLine

variable {β : Type} {t t' : FileTree} {events later : List Event} {l l' : Logged FileTree}

theorem pipeline_eq_ok {m : FileTask β} {b : β} :
    pipeline m l = .ok b l' ↔ m l = .ok b l' := by
  simp only [pipeline, Task.wrapError, EStateM.adaptExcept]
  cases m l <;> simp

theorem noteIgnored_run (unknown : List String) (l : Logged FileTree) :
    ∃ later, noteIgnored unknown l = .ok () ⟨l.state, later⟩ := by
  rw [noteIgnored]
  split
  · exact ⟨_, rfl⟩
  · exact ⟨_, rfl⟩

/-! ## Resolving -/

theorem parsePlatform_eq_ok {name : String} {p : Platform} (h : Platform.parse? name = some p) :
    parsePlatform name = .ok p := by
  rw [parsePlatform, h]
  rfl

/-- The platform that is named, or else another one, is parsed from its name. -/
theorem platform_parses {platform : Option String}
    (parses : ∀ name ∈ platform, (Platform.parse? name).isSome) (other : Platform) :
    ∃ given, platform.mapM parsePlatform = .ok given ∧
      Platform.parse? (platform.getD other.name) = some (given.getD other) := by
  cases platform with
  | none => exact ⟨none, rfl, other.parse?_name⟩
  | some name =>
    obtain ⟨p, parsed⟩ := Option.isSome_iff_exists.1 (parses name rfl)
    refine ⟨some p, ?_, parsed⟩
    rw [Option.mapM_some, parsePlatform_eq_ok parsed]
    rfl

theorem resolve_setting {name path : String} {p : Platform} {s : Setting}
    (parsed : Platform.parse? name = some p)
    (read : Files.readSetting path l = .ok (s, []) l') :
    resolve (some name) (some path) none l = .ok (p, s) l' := by
  have given : (some name).mapM parsePlatform = .ok (some p) := by
    rw [Option.mapM_some, parsePlatform_eq_ok parsed]
    rfl
  rw [resolve, Task.ofExcept_bind_of_ok given]
  dsimp only
  rw [bind_of_ok (pipeline_eq_ok.2 read)]
  rfl

theorem resolve_simple {platform : Option String} {given : Option Platform} {path : String}
    {simple : SimpleSetting} {unknown : List String}
    (parsed : platform.mapM parsePlatform = .ok given)
    (read : Files.readSimpleSetting path l = .ok (simple, unknown) l') :
    ∃ later, resolve platform none (some path) l =
      .ok (given.getD simple.platform, simple.expand) ⟨l'.state, later⟩ := by
  obtain ⟨later, noted⟩ := noteIgnored_run unknown l'
  refine ⟨later, ?_⟩
  rw [resolve, Task.ofExcept_bind_of_ok parsed]
  dsimp only
  rw [bind_of_ok (pipeline_eq_ok.2 read)]
  dsimp only
  rw [bind_of_ok noted]
  rfl

/-! ## Converting -/

/-- After a simple setting was read, converting it is writing its expansion. -/
theorem runConvert_eq {c : ConvertCommand} {simple : SimpleSetting} {unknown : List String}
    (read : Files.readSimpleSetting c.simpleSetting l = .ok (simple, unknown) l') :
    ∃ noted, runConvert c l = (do
      if ← pipeline (Files.writeSetting c.output simple.expand) then
        Task.note (.overwriting c.output)
      Task.note (.settingWritten simple.platform c.output) : CommandTask Unit)
        ⟨l'.state, noted⟩ := by
  obtain ⟨noted, run⟩ := noteIgnored_run unknown l'
  refine ⟨noted, ?_⟩
  rw [runConvert, bind_of_ok (pipeline_eq_ok.2 read)]
  dsimp only
  rw [bind_of_ok run]

theorem wrote_of_runConvert {c : ConvertCommand} {simple : SimpleSetting} {unknown : List String}
    (read : Files.readSimpleSetting c.simpleSetting l = .ok (simple, unknown) l')
    (converted : runConvert c l = .ok () ⟨t', later⟩) : ∃ noted overwritten written,
      Files.writeSetting c.output simple.expand ⟨l'.state, noted⟩ =
        .ok overwritten ⟨t', written⟩ := by
  obtain ⟨noted, run⟩ := runConvert_eq read
  rw [run] at converted
  obtain ⟨overwritten, l, wrote, rest⟩ := bind_eq_ok.1 converted
  have same : l.state = t' := by
    cases overwritten <;> cases rest <;> rfl
  subst same
  exact ⟨noted, overwritten, l.events, pipeline_eq_ok.1 wrote⟩

theorem runConvert_of_wrote {c : ConvertCommand} {simple : SimpleSetting} {unknown : List String}
    (read : Files.readSimpleSetting c.simpleSetting l = .ok (simple, unknown) l')
    (wrote : ∀ noted, ∃ overwritten written,
      Files.writeSetting c.output simple.expand ⟨l'.state, noted⟩ =
        .ok overwritten ⟨t', written⟩) :
    ∃ later, runConvert c l = .ok () ⟨t', later⟩ := by
  obtain ⟨noted, run⟩ := runConvert_eq read
  obtain ⟨overwritten, written, wrote⟩ := wrote noted
  rw [run, bind_of_ok (pipeline_eq_ok.2 wrote)]
  cases overwritten <;> exact ⟨_, rfl⟩

/-- Whether a simple setting is dispatched with as it is or is converted first, the same platform
and the same setting are resolved. No entry of the converted setting is reported. -/
theorem resolve_converted {c : ConvertCommand} {simple : SimpleSetting} {unknown : List String}
    (accepted : Files.readSimpleSetting c.simpleSetting ⟨t, events⟩ = .ok (simple, unknown) l)
    (finite : simple.fineTuningRate.isFinite = true)
    (exact : simple.fineTuningRate.isFinite = true →
      (Number.single simple.fineTuningRate).ReadsAs simple.fineTuningRate)
    {platform : Option String} (parses : ∀ name ∈ platform, (Platform.parse? name).isSome)
    (converted : runConvert c ⟨t, events⟩ = .ok () ⟨t', later⟩) :
    ∃ p,
      (∀ (u : FileTree) (reported : List Event),
        u.read c.simpleSetting = t.read c.simpleSetting → ∃ noted,
          resolve platform none (some c.simpleSetting) ⟨u, reported⟩ =
            .ok (p, simple.expand) ⟨u, noted⟩) ∧
      ∀ reported : List Event,
        resolve (some (platform.getD simple.platform.name)) (some c.output) none ⟨t', reported⟩ =
          .ok (p, simple.expand) ⟨t', reported⟩ ∧
        Files.readSetting c.output ⟨t', reported⟩ = .ok (simple.expand, []) ⟨t', reported⟩ := by
  obtain ⟨given, parsed, chosen⟩ := platform_parses parses simple.platform
  obtain ⟨fields, ⟨text, read, holds⟩, named, decoded, rfl, rfl⟩ :=
    Files.holds_of_readSimpleSetting accepted
  refine ⟨given.getD simple.platform, fun u reported same => ?_, fun reported => ?_⟩
  · have held : Files.HoldsText u c.simpleSetting fields :=
      ⟨text, by rw [FileTree.readText, same]; exact read, holds⟩
    exact resolve_simple parsed (Files.readSimpleSetting_of_holds held named decoded reported)
  · obtain ⟨noted, overwritten, written, wrote⟩ := wrote_of_runConvert accepted converted
    have back := Files.readSetting_of_write (SimpleSetting.exact_expand (exact finite)) wrote
      reported
    exact ⟨resolve_setting chosen back, back⟩

/-- One entry is unknown, and one list is said as its only item. -/
def brief : List (String × Value) :=
  [("interested_outputs", .string "out"), ("note", .null), ("platform", .string "PPL_CUDA_INT8")]

theorem plain_o : FileTree.Plain "o" :=
  FileTree.plain_of_name (by simp) (by decide) (by decide +kernel) (by decide) (by decide)

theorem resolve_converted_brief : ∃ (t t' : FileTree) (later noted : List Event) (s : Setting),
    runConvert ⟨"s", "o"⟩ ⟨t, []⟩ = .ok () ⟨t', later⟩ ∧
    s.fineTuning.interestedOutputs = ["out"] ∧ s.fusion.convAdd = true ∧
    resolve (some "trt_int8") none (some "s") ⟨t, []⟩ = .ok (.trtInt8, s) ⟨t, noted⟩ ∧
    resolve (some "trt_int8") (some "o") none ⟨t', []⟩ = .ok (.trtInt8, s) ⟨t', []⟩ := by
  have written : FileTree.empty.writeText "s" ((Value.object brief).indented 2) = .ok _ :=
    FileTree.plain_s.write_new rfl _
  have legible : (Value.object brief).Legible 2 := Value.legible_object.2 (by simp [brief])
  have held : Files.HoldsText _ "s" brief :=
    (Files.holds_of_writeText written (legible.mono (by decide)) rfl).2
  let simple : SimpleSetting := { platform := .pplCudaInt8, interestedOutputs := some ["out"] }
  have accepted := Files.readSimpleSetting_of_holds held rfl (s := simple) rfl []
  obtain ⟨later, converted⟩ := runConvert_of_wrote (c := ⟨"s", "o"⟩) accepted
    fun noted => ⟨_, _, Files.written_new plain_o rfl _ noted⟩
  have upper : Platform.parse? "trt_int8" = some .trtInt8 := by decide
  have parses : ∀ name ∈ some "trt_int8", (Platform.parse? name).isSome := by simp [upper]
  obtain ⟨p, direct, after⟩ := resolve_converted (c := ⟨"s", "o"⟩) accepted (by decide +kernel)
    (fun _ => by decide +kernel) parses converted
  obtain ⟨noted, direct⟩ := direct _ [] rfl
  obtain ⟨resolved, read⟩ := after []
  cases (resolve_setting upper read).symm.trans resolved
  exact ⟨_, _, later, noted, _, converted, rfl, rfl, direct, resolved⟩

end CommandLine

end GraphDispatch
