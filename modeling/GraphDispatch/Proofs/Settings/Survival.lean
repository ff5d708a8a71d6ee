import GraphDispatch.Proofs.Documents.Texts
import GraphDispatch.Proofs.Settings.Unknown

/-!
# Settings survive a file

Every part of a setting is recovered from its text, and the names that are written are those that
are known. So what was written is read back, and nothing is reported.
-/

namespace GraphDispatch

open Json Json.Record

namespace Encoding

/-! ## Parts of settings -/

theorem legible_option {α : Type} {encode : α → Value} {m : Nat}
    (h : ∀ a, (encode a).Legible m) (a : Option α) : (option encode a).Legible m := by
  cases a with
  | none => exact Value.legible_null
  | some a => exact h a

theorem recovers_overrides (o : Overrides) : Recovers Decoding.overrides (overrides o) o :=
  recovers_map fun _ n _ => recovers_int n

theorem legible_overrides (o : Overrides) (m : Nat) : (overrides o).Legible (m + 1) := by
  refine Value.legible_object.2 fun e he => ?_
  obtain ⟨f, -, rfl⟩ := List.mem_map.1 he
  exact legible_int f.2 m

theorem recovers_precedence (p : Precedence) :
    Recovers Decoding.precedence (precedence p) p := by
  cases p <;> rfl

theorem stored_activation (a : Activation) : (activation a).stored =
    .object [("calib_algorithm", (option .string a.calibration).stored)] := rfl

theorem recovers_activation (a : Activation) :
    Recovers Decoding.activation (activation a) a := by
  have calibration : Recovers (Decoder.option Decoder.string) (option .string a.calibration)
      a.calibration := recovers_option fun _ _ => ⟨rfl, nofun⟩
  refine Fills.recovers ?_ (stored_activation a) (by simp [Decoding.activationFields]) _
  refine .cons rfl (Field.put_of_recovers calibration) ?_
  exact .nil a

theorem stored_fusion (f : Fusion) : (fusion f).stored =
    .object [("align_quantization", .bool f.align),
      ("force_alignment_overlap", .bool f.forceOverlap), ("fuse_conv_add", .bool f.convAdd),
      ("fuse_conv_relu", .bool f.convRelu)] := by
  simp only [fusion, Value.stored_object, Value.stored_bool, NameMap.entries_ofList,
    NameMap.insertEntry, List.map, List.foldl, String.reduceLT, String.reduceEq, reduceIte]

theorem recovers_fusion (f : Fusion) : Recovers Decoding.fusion (fusion f) f := by
  refine Fills.recovers ?_ (stored_fusion f) (by simp [Decoding.fusionFields]) _
  refine .cons rfl rfl (.cons rfl rfl (.cons rfl rfl (.cons rfl rfl ?_)))
  exact .nil f

theorem stored_equalization (e : Equalization) : (equalization e).stored =
    .object [("iterations", (word e.iterations).stored), ("opt_level", (word e.level).stored),
      ("value_threshold", (single e.threshold).stored)] := by
  simp only [equalization, Value.stored_object, NameMap.entries_ofList, NameMap.insertEntry,
    List.map, List.foldl, String.reduceLT, String.reduceEq, reduceIte]

theorem recovers_equalization (e : Equalization)
    (exact : (Number.single e.threshold).ReadsAs e.threshold) :
    Recovers Decoding.equalization (equalization e) e := by
  refine Fills.recovers ?_ (stored_equalization e) (by simp [Decoding.equalizationFields]) _
  refine .cons rfl (Field.put_of_recovers (recovers_word _)) ?_
  refine .cons rfl (Field.put_of_recovers (recovers_word _)) ?_
  refine .cons rfl (Field.put_of_recovers (recovers_single exact)) ?_
  exact .nil e

theorem stored_fineTuning (f : FineTuning) : (fineTuning f).stored =
    .object [("interested_outputs", (strings f.interestedOutputs).stored),
      ("limit", (single f.limit).stored), ("lr", (single f.rate).stored),
      ("steps", (word f.steps).stored)] := by
  simp only [fineTuning, Value.stored_object, NameMap.entries_ofList, NameMap.insertEntry,
    List.map, List.foldl, String.reduceLT, String.reduceEq, reduceIte]

theorem recovers_fineTuning (f : FineTuning) (rate : (Number.single f.rate).ReadsAs f.rate)
    (limit : (Number.single f.limit).ReadsAs f.limit) :
    Recovers Decoding.fineTuning (fineTuning f) f := by
  refine Fills.recovers ?_ (stored_fineTuning f) (by simp [Decoding.fineTuningFields]) _
  refine .cons rfl (Field.put_of_recovers (recovers_strings _)) ?_
  refine .cons rfl (Field.put_of_recovers (recovers_single limit)) ?_
  refine .cons rfl (Field.put_of_recovers (recovers_single rate)) ?_
  refine .cons rfl (Field.put_of_recovers (recovers_word _)) ?_
  exact .nil f

/-! ## Settings -/

/-- The fields of a setting in the order of their names. -/
def sortedFields (s : Setting) : List (String × Value) :=
  [("advanced_optimization", .bool s.fineTunes),
    ("advanced_optimization_setting", (fineTuning s.fineTuning).stored),
    ("dispatcher", .string s.strategy),
    ("dispatching_precedence", (precedence s.precedence).stored),
    ("dispatching_table", (overrides s.overrides).stored),
    ("equalization", .bool s.equalizes),
    ("equalization_setting", (equalization s.equalization).stored),
    ("fusion_setting", (fusion s.fusion).stored),
    ("quantize_activation_setting", (activation s.activation).stored)]

theorem stored_setting (s : Setting) : (setting s).stored = .object (sortedFields s) := by
  simp only [setting, sortedFields, Value.stored_object, Value.stored_bool, Value.stored_string,
    NameMap.entries_ofList, NameMap.insertEntry, List.map, List.foldl, String.reduceLT,
    String.reduceEq, reduceIte]

end Encoding

namespace Setting

def floats (s : Setting) : List Float32 :=
  [s.equalization.threshold, s.fineTuning.rate, s.fineTuning.limit]

/-- A reader takes the texts of the floats for the floats. -/
def Exact (s : Setting) : Prop := ∀ x ∈ s.floats, (Number.single x).ReadsAs x

end Setting

namespace Encoding

variable {s : Setting}

theorem recovers_setting (exact : s.Exact) : Recovers Decoding.setting (setting s) s := by
  have fineTuned := recovers_fineTuning s.fineTuning (exact _ (by simp [Setting.floats]))
    (exact _ (by simp [Setting.floats]))
  have equalized := recovers_equalization s.equalization (exact _ (by simp [Setting.floats]))
  refine Fills.recovers ?_ (stored_setting s) (by simp [Decoding.settingFields]) _
  refine .cons rfl rfl (.cons rfl (Field.put_of_recovers fineTuned) ?_)
  refine .cons rfl rfl (.cons rfl (Field.put_of_recovers (recovers_precedence _)) ?_)
  refine .cons rfl (Field.put_of_recovers (recovers_overrides _)) (.cons rfl rfl ?_)
  refine .cons rfl (Field.put_of_recovers equalized) ?_
  refine .cons rfl (Field.put_of_recovers (recovers_fusion _)) ?_
  refine .cons rfl (Field.put_of_recovers (recovers_activation _)) ?_
  exact .nil s

theorem legible_setting (exact : s.Exact) : (setting s).Legible 3 := by
  have activation : (activation s.activation).Legible 2 :=
    Value.legible_object.2 (by simp [legible_option Value.legible_string])
  have fusion : (fusion s.fusion).Legible 2 := Value.legible_object.2 (by simp)
  have threshold := legible_single (exact s.equalization.threshold (by simp [Setting.floats]))
  have equalization : (equalization s.equalization).Legible 2 :=
    Value.legible_object.2 (by simp [word, threshold])
  have rate := legible_single (exact s.fineTuning.rate (by simp [Setting.floats]))
  have limit := legible_single (exact s.fineTuning.limit (by simp [Setting.floats]))
  have fineTuning : (fineTuning s.fineTuning).Legible 2 :=
    Value.legible_object.2 (by simp [word, rate, limit, legible_strings])
  have overrides := legible_overrides s.overrides 1
  exact Value.legible_object.2
    (by simp [precedence, activation, fusion, equalization, fineTuning, overrides])

/-! ## Simple settings -/

theorem recovers_platform (p : Platform) : Recovers Decoding.platform (platform p) p := by
  cases p <;> rfl

theorem recovers_oneOrMany (names : List String) :
    Recovers Decoding.oneOrMany (strings names) names := by
  have recovered := recovers_strings names
  rw [Recovers, strings, Value.stored_array] at recovered ⊢
  change (Decoding.strings .held _).mapError _ = _
  rw [recovered]
  rfl

theorem recovers_names (names : Option (List String)) :
    Recovers (Decoder.option Decoding.oneOrMany) (option strings names) names := by
  refine recovers_option fun names _ => ⟨recovers_oneOrMany names, ?_⟩
  rw [strings, Value.stored_array]
  intro same
  cases same

/-- The fields of a simple setting as a reader keeps them. -/
def sortedSimpleFields (s : SimpleSetting) : List (String × Value) :=
  [("calibration", .string s.calibration), ("equalization", .bool s.equalizes),
    ("finetune_lr", (double s.fineTuningRate).stored),
    ("finetune_steps", (word s.fineTuningSteps).stored),
    ("interested_outputs", (option strings s.interestedOutputs).stored),
    ("non_quantable_op", (option strings s.unquantized).stored),
    ("platform", .string s.platform.name)]

theorem stored_simple (s : SimpleSetting) :
    (sortedSimple s).stored = .object (sortedSimpleFields s) := by
  simp only [sortedSimple, simpleFields, sortedSimpleFields, platform, Value.stored_object,
    Value.stored_bool, Value.stored_string, NameMap.entries_ofList, NameMap.insertEntry,
    List.map, List.foldl, String.reduceLT, String.reduceEq, reduceIte]

end Encoding

/-- A reader takes the text of the float for the float. -/
def SimpleSetting.Exact (s : SimpleSetting) : Prop :=
  (Number.double (Decimal.widen s.fineTuningRate)).ReadsAs s.fineTuningRate

namespace Encoding

variable {s : SimpleSetting}

theorem recovers_simple (exact : s.Exact) : Recovers Decoding.simple (sortedSimple s) s := by
  refine Fills.recovers ?_ (stored_simple s)
    (by simp [Decoding.simpleFields, sortedSimpleFields]) _
  refine .cons rfl rfl (.cons rfl rfl ?_)
  refine .cons rfl (Field.put_of_recovers (recovers_single exact)) ?_
  refine .cons rfl (Field.put_of_recovers (recovers_word _)) ?_
  refine .cons rfl (Field.put_of_recovers (recovers_names _)) ?_
  refine .cons rfl (Field.put_of_recovers (recovers_names _)) ?_
  refine .cons rfl (Field.put_of_recovers (recovers_platform _)) ?_
  exact .nil s

theorem legible_simple (exact : s.Exact) : (sortedSimple s).Legible 2 := by
  have rate : (double s.fineTuningRate).Legible 1 := by
    obtain ⟨_, read, -⟩ := Option.bind_eq_some_iff.1 exact
    exact Value.legible_number.2 (Option.isSome_iff_exists.2 ⟨_, read⟩)
  have names := legible_option fun names => legible_strings names 0
  have all : ∀ e ∈ simpleFields double s, e.2.Legible 1 := by
    simp [simpleFields, platform, word, rate, names]
  exact Value.legible_object.2 fun e he => all e (NameMap.mem_of_mem_ofList he)

end Encoding

/-! ## What is written is known -/

namespace Setting

theorem unknownUnder_of_other {k : String} (known : k ∈ fieldNames)
    (other : sections.lookup k = none) (v : Value) : unknownUnder (k, v) = [] := by
  rw [unknownUnder, if_pos known]
  cases v with
  | object => simp only [unknownPart, other]
  | null | bool | number | string | array => rfl

theorem unknownUnder_of_section {k : String} {names : List String} {inner : List (String × Value)}
    (listed : sections.lookup k = some names) (known : ∀ f ∈ inner, f.1 ∈ names) :
    unknownUnder (k, .object inner) = [] := by
  have none : (inner.filter fun f => f.1 ∉ names) = [] := by simpa using known
  rw [unknownUnder, if_pos (section_mem_fieldNames listed)]
  simp only [unknownPart, listed, none, List.map_nil]

theorem unknown_sortedFields (s : Setting) : unknown (Encoding.sortedFields s) = [] := by
  refine List.flatMap_eq_nil_iff.2 ?_
  simp only [Encoding.sortedFields, List.forall_mem_cons, Encoding.stored_activation,
    Encoding.stored_fusion, Encoding.stored_equalization, Encoding.stored_fineTuning]
  refine ⟨?_, ?_, ?_, ?_, ?_, ?_, ?_, ?_, ?_, by simp⟩
  · exact unknownUnder_of_other (by decide) rfl _
  · exact unknownUnder_of_section rfl (by simp; decide)
  · exact unknownUnder_of_other (by decide) rfl _
  · exact unknownUnder_of_other (by decide) rfl _
  · exact unknownUnder_of_other (by decide) rfl _
  · exact unknownUnder_of_other (by decide) rfl _
  · exact unknownUnder_of_section rfl (by simp; decide)
  · exact unknownUnder_of_section rfl (by simp; decide)
  · exact unknownUnder_of_section rfl (by simp; decide)

theorem unknownEntries_sortedFields (s : Setting) :
    unknownEntries (Encoding.sortedFields s) = [] := by
  rw [unknownEntries, unknownFields_reference, unknown_sortedFields, List.map_nil,
    List.mergeSort_nil]

end Setting

theorem SimpleSetting.unknownEntries_sortedSimpleFields (s : SimpleSetting) :
    unknownEntries (Encoding.sortedSimpleFields s) = [] := rfl

namespace Files

theorem checkPlatform_sortedSimpleFields (s : SimpleSetting) :
    checkPlatform (Encoding.sortedSimpleFields s) = .ok () := by
  have found : (Encoding.sortedSimpleFields s).lookup "platform" =
      some (.string s.platform.name) := rfl
  simp only [checkPlatform, found, Platform.ofName?_name]
  rfl

variable {t t' : FileTree} {path : String} {events later : List Event} {overwritten : Bool}

/-- A setting that was written is read back. -/
theorem readSetting_of_write {s : Setting} (exact : s.Exact)
    (wrote : writeSetting path s ⟨t, events⟩ = .ok overwritten ⟨t', later⟩)
    (reported : List Event) :
    readSetting path ⟨t', reported⟩ = .ok (s, []) ⟨t', reported⟩ := by
  have written := writeText_of_checked wrote
  have legible : (Encoding.setting s).Legible Outline.depthLimit :=
    (Encoding.legible_setting exact).mono (by decide)
  obtain ⟨held, -⟩ := holds_of_writeText written legible (Encoding.stored_setting s)
  have decoded := Encoding.recovers_setting exact
  rw [Recovers, Encoding.stored_setting] at decoded
  have run := readSetting_of_holds held decoded reported
  rw [Setting.unknownEntries_sortedFields] at run
  exact run

theorem readSimpleSetting_of_write {s : SimpleSetting} (exact : s.Exact)
    (wrote : writeSimpleSetting path s ⟨t, events⟩ = .ok overwritten ⟨t', later⟩)
    (reported : List Event) :
    readSimpleSetting path ⟨t', reported⟩ = .ok (s, []) ⟨t', reported⟩ := by
  have written := writeText_of_checked wrote
  have legible : (Encoding.sortedSimple s).Legible Outline.depthLimit :=
    (Encoding.legible_simple exact).mono (by decide)
  obtain ⟨-, held⟩ := holds_of_writeText written legible (Encoding.stored_simple s)
  have decoded := Encoding.recovers_simple exact
  rw [Recovers, Encoding.stored_simple] at decoded
  have run := readSimpleSetting_of_holds held (checkPlatform_sortedSimpleFields s) decoded reported
  rw [SimpleSetting.unknownEntries_sortedSimpleFields] at run
  exact run

/-- What is written to a file is read from it, and nothing is reported. -/
def Survives {α : Type} (write : String → α → FileTask Bool)
    (read : String → FileTask (α × List String)) (a : α) : Prop :=
  ∀ path t t' events later overwritten,
    write path a ⟨t, events⟩ = .ok overwritten ⟨t', later⟩ →
    ∀ reported, read path ⟨t', reported⟩ = .ok (a, []) ⟨t', reported⟩

/-- Settings and simple settings of finite numbers survive a file, where the texts of such
numbers are read exactly. -/
theorem settings_survive (s : Setting) (simple : SimpleSetting)
    (finite : ∀ x ∈ s.floats, x.isFinite = true)
    (exact : ∀ x ∈ s.floats, x.isFinite = true → (Number.single x).ReadsAs x)
    (finiteRate : simple.fineTuningRate.isFinite = true)
    (exactRate : simple.fineTuningRate.isFinite = true →
      (Number.double (Decimal.widen simple.fineTuningRate)).ReadsAs simple.fineTuningRate) :
    Survives writeSetting readSetting s ∧ Survives writeSimpleSetting readSimpleSetting simple := by
  constructor
  · intro _ _ _ _ _ _ wrote reported
    exact readSetting_of_write (fun x mem => exact x mem (finite x mem)) wrote reported
  · intro _ _ _ _ _ _ wrote reported
    exact readSimpleSetting_of_write (exactRate finiteRate) wrote reported

/-- A strategy that nobody knows and an override that decodes to no platform are kept as well. -/
def tuned : Setting where
  strategy := "none"
  precedence := .quantizationFirst
  overrides := .ofList [("relu", -7), ("conv", 3)]
  activation := ⟨some "kl"⟩
  equalization := ⟨3, 0.1, 2⟩
  fineTuning := ⟨40, 16777216, -1e-9, ["out", "out"]⟩

def tunedSimply : SimpleSetting where
  platform := .trtInt8
  fineTuningRate := 0.1
  interestedOutputs := some []
  unquantized := some ["conv", "relu"]

theorem settings_survive_tuned : ∃ t t' : FileTree,
    writeSetting "s" tuned ⟨.empty, []⟩ = .ok false ⟨t, []⟩ ∧
    readSetting "s" ⟨t, []⟩ = .ok (tuned, []) ⟨t, []⟩ ∧
    writeSimpleSetting "s" tunedSimply ⟨.empty, []⟩ = .ok false ⟨t', []⟩ ∧
    readSimpleSetting "s" ⟨t', []⟩ = .ok (tunedSimply, []) ⟨t', []⟩ := by
  obtain ⟨full, simple⟩ := settings_survive tuned tunedSimply (by decide +kernel)
    (by decide +kernel) (by decide +kernel) (fun _ => by decide +kernel)
  have wrote : writeSetting "s" tuned ⟨.empty, []⟩ = _ :=
    written_new FileTree.plain_s rfl _ _
  have wrote' : writeSimpleSetting "s" tunedSimply ⟨.empty, []⟩ = _ :=
    written_new FileTree.plain_s rfl _ _
  exact ⟨_, _, wrote, full _ _ _ _ _ _ wrote [], wrote', simple _ _ _ _ _ _ wrote' []⟩

end Files

end GraphDispatch
