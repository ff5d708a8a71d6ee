import GraphDispatch.Proofs.Settings.Reading
import Mathlib.Data.List.Sort
import Mathlib.Data.List.Nodup

/-!
# Unknown entries are those that decoding ignores

What is reported is found by comparing a document with the default setting, what is decoded by the
names of the fields. Both know the same entries, so the reported ones are exactly those that no
field takes, and a document without them decodes to the same setting.
-/

namespace GraphDispatch

open Json

theorem mem_of_lookup {β : Type} {l : List (String × β)} {k : String} {b : β}
    (h : l.lookup k = some b) : (k, b) ∈ l := by
  obtain ⟨before, after, split, -⟩ := List.lookup_eq_some_iff.1 h
  simp [split]

theorem lookup_eq_none {β : Type} {l : List (String × β)} {k : String} :
    l.lookup k = none ↔ k ∉ l.map (·.1) := by
  rw [List.lookup_eq_none_iff]
  simp only [bne_iff_ne, List.mem_map, not_exists, not_and]
  exact ⟨fun h e he same => h e he same.symm, fun h e he same => h e he same.symm⟩

namespace Setting

/-! ## Entries -/

/-- An entry of a document, or one of a section of it. -/
inductive Entry where
  | top (name : String)
  | inside (part name : String)
  deriving DecidableEq

def Entry.path : Entry → String
  | top name => name
  | inside part name => part ++ "." ++ name

/-- The entry of the document that an entry lies in. -/
def Entry.root : Entry → String
  | top name | inside name _ => name

def fieldNames : List String := Record.names Decoding.settingFields

/-- The sections with the names of their fields. -/
def sections : List (String × List String) :=
  [("quantize_activation_setting", Record.names Decoding.activationFields),
    ("fusion_setting", Record.names Decoding.fusionFields),
    ("equalization_setting", Record.names Decoding.equalizationFields),
    ("advanced_optimization_setting", Record.names Decoding.fineTuningFields)]

/-- An entry of the document that no field takes. -/
def Unknown (fields : List (String × Value)) : Entry → Prop
  | .top name => (∃ v, (name, v) ∈ fields) ∧ name ∉ fieldNames
  | .inside part name => ∃ names inner v, sections.lookup part = some names ∧
      (part, .object inner) ∈ fields ∧ (name, v) ∈ inner ∧ name ∉ names

/-- The document without the entries. -/
def without (entries : List Entry) (fields : List (String × Value)) : List (String × Value) :=
  (fields.filter fun e => .top e.1 ∉ entries).map fun e => (e.1,
    match e.2 with
    | .object inner => .object (inner.filter fun f => .inside e.1 f.1 ∉ entries)
    | v => v)

/-- The unknown entries inside of an entry. -/
def unknownPart (part : String) : Value → List Entry
  | .object inner =>
    match sections.lookup part with
    | some names => (inner.filter fun f => f.1 ∉ names).map fun f => .inside part f.1
    | none => []
  | _ => []

def unknownUnder (e : String × Value) : List Entry :=
  if e.1 ∈ fieldNames then unknownPart e.1 e.2 else [.top e.1]

def unknown (fields : List (String × Value)) : List Entry := fields.flatMap unknownUnder

variable {fields : List (String × Value)}

theorem mem_unknownPart {part : String} {v : Value} {x : Entry} : x ∈ unknownPart part v ↔
    ∃ names inner f, sections.lookup part = some names ∧ v = .object inner ∧ f ∈ inner ∧
      f.1 ∉ names ∧ x = .inside part f.1 := by
  cases v with
  | object inner =>
    cases known : sections.lookup part with
    | none => simp [unknownPart, known]
    | some names =>
      simp only [unknownPart, known, List.mem_map, List.mem_filter, decide_eq_true_eq]
      constructor
      · rintro ⟨f, ⟨hf, new⟩, rfl⟩
        exact ⟨names, inner, f, rfl, rfl, hf, new, rfl⟩
      · rintro ⟨_, _, f, ⟨⟩, ⟨⟩, hf, new, rfl⟩
        exact ⟨f, ⟨hf, new⟩, rfl⟩
  | null | bool | number | string | array => simp [unknownPart]

theorem section_mem_fieldNames {part : String} {names : List String}
    (h : sections.lookup part = some names) : part ∈ fieldNames := by
  have all : ∀ e ∈ sections, e.1 ∈ fieldNames := by decide
  exact all (part, names) (mem_of_lookup h)

theorem mem_unknown {x : Entry} : x ∈ unknown fields ↔ Unknown fields x := by
  rw [unknown, List.mem_flatMap]
  constructor
  · rintro ⟨⟨k, v⟩, he, hx⟩
    unfold unknownUnder at hx
    split at hx
    · obtain ⟨names, inner, f, known, same, hf, new, rfl⟩ := mem_unknownPart.1 hx
      exact ⟨names, inner, f.2, known, same ▸ he, hf, new⟩
    · obtain rfl := List.mem_singleton.1 hx
      exact ⟨⟨v, he⟩, ‹_›⟩
  · intro h
    cases x with
    | top name =>
      obtain ⟨⟨v, he⟩, new⟩ := h
      refine ⟨(name, v), he, ?_⟩
      rw [unknownUnder, if_neg new]
      exact List.mem_singleton.2 rfl
    | inside part name =>
      obtain ⟨names, inner, v, known, he, hf, new⟩ := h
      refine ⟨(part, .object inner), he, ?_⟩
      rw [unknownUnder, if_pos (section_mem_fieldNames known)]
      exact mem_unknownPart.2 ⟨names, inner, (name, v), known, rfl, hf, new, rfl⟩

theorem root_of_mem_unknownUnder {e : String × Value} {x : Entry} (h : x ∈ unknownUnder e) :
    x.root = e.1 := by
  unfold unknownUnder at h
  split at h
  · obtain ⟨_, _, _, _, _, _, _, rfl⟩ := mem_unknownPart.1 h
    rfl
  · obtain rfl := List.mem_singleton.1 h
    rfl

/-- In a document and in its sections all entries have different names. -/
structure Distinct (fields : List (String × Value)) : Prop where
  names : (fields.map (·.1)).Nodup
  inside : ∀ part inner, (part, .object inner) ∈ fields → (inner.map (·.1)).Nodup

theorem nodup_unknown (distinct : Distinct fields) : (unknown fields).Nodup := by
  refine List.nodup_flatMap.2 ⟨?_, ?_⟩
  · rintro ⟨part, v⟩ he
    unfold unknownUnder unknownPart
    split
    · cases v with
      | object inner =>
        dsimp only
        split
        · rename_i names _
          have apart : (inner.filter fun f => f.1 ∉ names).Pairwise fun f f' => f.1 ≠ f'.1 :=
            (List.pairwise_map.1 (distinct.inside part inner he)).filter _
          exact List.pairwise_map.2 (apart.imp fun h same => h (Entry.inside.inj same).2)
        · exact List.nodup_nil
      | null | bool | number | string | array => exact List.nodup_nil
    · exact List.nodup_singleton _
  · refine (List.pairwise_map.1 distinct.names).imp ?_
    intro e e' apart x hx hx'
    exact apart ((root_of_mem_unknownUnder hx).symm.trans (root_of_mem_unknownUnder hx'))

/-! ## What is reported -/

theorem unknownFields_eq (above : String) (known fields : List (String × Value)) :
    unknownFields above known fields = fields.flatMap fun e =>
      match known.lookup e.1 with
      | none => [above ++ e.1]
      | some inner => unknownInside (above ++ e.1) inner e.2 := by
  induction fields with
  | nil => rfl
  | cons e rest ih =>
    rw [unknownFields, ih]
    rfl

/-- Whether a default is no section, so that nothing is looked into. -/
def isPlain : Value → Bool
  | .object (_ :: _) => false
  | _ => true

theorem unknownInside_plain {known : Value} (plain : isPlain known = true) (path : String)
    (v : Value) : unknownInside path known v = [] := by
  cases v with
  | object =>
    cases known with
    | object fields =>
      cases fields with
      | nil => rfl
      | cons => cases plain
    | null | bool | number | string | array => rfl
  | null | bool | number | string | array => rfl

theorem unknownFields_plain {known : List (String × Value)}
    (plain : ∀ e ∈ known, isPlain e.2 = true) (above : String) (fields : List (String × Value)) :
    unknownFields above known fields =
      (fields.filter fun f => f.1 ∉ known.map (·.1)).map fun f => above ++ f.1 := by
  rw [unknownFields_eq]
  induction fields with
  | nil => rfl
  | cons f rest ih =>
    rw [List.flatMap_cons, ih]
    cases found : known.lookup f.1 with
    | none =>
      have absent := lookup_eq_none.1 found
      rw [List.filter_cons_of_pos (by simpa using absent)]
      rfl
    | some inner =>
      have mem := mem_of_lookup found
      have present : f.1 ∈ known.map (·.1) := List.mem_map.2 ⟨_, mem, rfl⟩
      rw [List.filter_cons_of_neg (by simpa using present)]
      exact congrArg (· ++ _) (unknownInside_plain (plain _ mem) _ _)

theorem unknownInside_of_plain {k : String} {known : Value} (plain : isPlain known = true)
    (other : sections.lookup k = none) (v : Value) :
    unknownInside ("" ++ k) known v = (unknownPart k v).map Entry.path := by
  rw [unknownInside_plain plain]
  cases v with
  | object => simp only [unknownPart, other, List.map_nil]
  | null | bool | number | string | array => rfl

theorem unknownInside_section {k : String} {known : List (String × Value)}
    (plain : ∀ e ∈ known, isPlain e.2 = true) (nonempty : known ≠ [])
    (listed : sections.lookup k = some (known.map (·.1))) (v : Value) :
    unknownInside ("" ++ k) (.object known) v = (unknownPart k v).map Entry.path := by
  obtain ⟨f, fs, rfl⟩ := List.exists_cons_of_ne_nil nonempty
  cases v with
  | object inner =>
    have inside : unknownInside ("" ++ k) (.object (f :: fs)) (.object inner) =
        unknownFields ("" ++ k ++ ".") (f :: fs) inner := rfl
    rw [inside, unknownFields_plain plain]
    simp only [unknownPart, listed, List.map_map]
    simp [Entry.path, Function.comp_def]
  | null | bool | number | string | array => rfl

/-- The default setting has an object for each section. -/
theorem unknownInside_reference {k : String} {known : Value} (h : (k, known) ∈ reference)
    (v : Value) : unknownInside ("" ++ k) known v = (unknownPart k v).map Entry.path := by
  simp only [reference, Encoding.setting, List.mem_cons, List.not_mem_nil, or_false,
    Prod.mk.injEq] at h
  rcases h with ⟨rfl, rfl⟩ | ⟨rfl, rfl⟩ | ⟨rfl, rfl⟩ | ⟨rfl, rfl⟩ | ⟨rfl, rfl⟩ | ⟨rfl, rfl⟩ |
    ⟨rfl, rfl⟩ | ⟨rfl, rfl⟩ | ⟨rfl, rfl⟩
  · exact unknownInside_of_plain rfl rfl v
  · exact unknownInside_of_plain rfl rfl v
  · exact unknownInside_of_plain rfl rfl v
  · exact unknownInside_section (by simp [Encoding.option, isPlain]) (by simp) rfl v
  · exact unknownInside_section (by simp [isPlain]) (by simp) rfl v
  · exact unknownInside_of_plain rfl rfl v
  · exact unknownInside_section (by simp [Encoding.word, Encoding.single, isPlain]) (by simp) rfl v
  · exact unknownInside_of_plain rfl rfl v
  · exact unknownInside_section
      (by simp [Encoding.word, Encoding.single, Encoding.strings, isPlain]) (by simp) rfl v

theorem unknownFields_reference (fields : List (String × Value)) :
    unknownFields "" reference fields = (unknown fields).map Entry.path := by
  have names : reference.map (·.1) = fieldNames := rfl
  rw [unknownFields_eq, unknown, List.map_flatMap]
  congr 1
  funext e
  rw [unknownUnder]
  cases found : reference.lookup e.1 with
  | none =>
    have absent : e.1 ∉ fieldNames := names ▸ lookup_eq_none.1 found
    rw [if_neg absent]
    simp [Entry.path]
  | some known =>
    have mem := mem_of_lookup found
    have present : e.1 ∈ fieldNames := names ▸ List.mem_map.2 ⟨_, mem, rfl⟩
    rw [if_pos present]
    exact unknownInside_reference mem e.2

/-! ## Documents without unknown entries -/

/-- The value of an entry with only those entries inside that a section takes. -/
def knownPart (part : String) : Value → Value
  | .object inner =>
    match sections.lookup part with
    | some names => .object (inner.filter fun f => f.1 ∈ names)
    | none => .object inner
  | v => v

theorem put_congr {ρ α : Type} {decode : Decoder α} {o o' : Outline}
    (same : decode .held o = decode .held o') (name : String) (set : ρ → α → ρ) (r : ρ) :
    (Record.Field.optional name decode set).put .held o r =
      (Record.Field.optional name decode set).put .held o' r := by
  simp only [Record.Field.optional, Record.Field.ofDecoder, same]

/-- No field sees an unknown entry of its section. -/
theorem unseen_knownPart : Record.Unseen Decoding.settingFields knownPart := by
  intro field h v r
  cases v with
  | object inner =>
    simp only [Decoding.settingFields, List.mem_cons, List.not_mem_nil, or_false] at h
    rcases h with rfl | rfl | rfl | rfl | rfl | rfl | rfl | rfl | rfl
    · rfl
    · rfl
    · rfl
    · exact put_congr (Record.decode_filter _ _ inner) _ _ r
    · exact put_congr (Record.decode_filter _ _ inner) _ _ r
    · rfl
    · exact put_congr (Record.decode_filter _ _ inner) _ _ r
    · rfl
    · exact put_congr (Record.decode_filter _ _ inner) _ _ r
  | null | bool | number | string | array => rfl

theorem without_unknown (fields : List (String × Value)) : without (unknown fields) fields =
    Record.pruned Decoding.settingFields knownPart fields := by
  have kept : (fields.filter fun e => .top e.1 ∉ unknown fields) =
      fields.filter fun e => e.1 ∈ fieldNames := by
    refine List.filter_congr fun e he => decide_eq_decide.2 ?_
    rw [mem_unknown]
    exact ⟨fun h => by_contra fun new => h ⟨⟨e.2, he⟩, new⟩, fun old h => h.2 old⟩
  rw [without, kept]
  refine List.map_congr_left fun e he => ?_
  obtain ⟨part, v⟩ := e
  have mem := (List.mem_filter.1 he).1
  cases v with
  | object inner =>
    have iff : ∀ f ∈ inner, .inside part f.1 ∈ unknown fields ↔
        ∃ names, sections.lookup part = some names ∧ f.1 ∉ names := by
      intro f hf
      rw [mem_unknown]
      exact ⟨fun ⟨names, _, _, known, _, _, new⟩ => ⟨names, known, new⟩,
        fun ⟨names, known, new⟩ => ⟨names, inner, f.2, known, mem, hf, new⟩⟩
    simp only [knownPart]
    cases known : sections.lookup part with
    | none =>
      have all : (inner.filter fun f => .inside part f.1 ∉ unknown fields) = inner :=
        List.filter_eq_self.2 fun f hf => by simp [iff f hf, known]
      rw [all]
    | some names =>
      have same : (inner.filter fun f => .inside part f.1 ∉ unknown fields) =
          inner.filter fun f => f.1 ∈ names :=
        List.filter_congr fun f hf => by simp [iff f hf, known]
      rw [same]
  | null | bool | number | string | array => rfl

theorem unknown_of_without {entries : List Entry} {x : Entry}
    (h : Unknown (without entries fields) x) : Unknown fields x ∧ x ∉ entries := by
  cases x with
  | top name =>
    obtain ⟨⟨v, hv⟩, new⟩ := h
    obtain ⟨e, he, same⟩ := List.mem_map.1 hv
    obtain ⟨mem, kept⟩ := List.mem_filter.1 he
    cases same
    exact ⟨⟨⟨e.2, mem⟩, new⟩, of_decide_eq_true kept⟩
  | inside part name =>
    obtain ⟨names, inner, v, known, hv, hf, new⟩ := h
    obtain ⟨⟨k, w⟩, he, same⟩ := List.mem_map.1 hv
    obtain ⟨mem, -⟩ := List.mem_filter.1 he
    cases w with
    | object whole =>
      cases same
      obtain ⟨inside, kept⟩ := List.mem_filter.1 hf
      exact ⟨⟨names, whole, v, known, mem, inside, new⟩, of_decide_eq_true kept⟩
    | null | bool | number | string | array => cases same

theorem unknown_without (fields : List (String × Value)) :
    unknown (without (unknown fields) fields) = [] := by
  refine List.eq_nil_iff_forall_not_mem.2 fun x hx => ?_
  obtain ⟨still, gone⟩ := unknown_of_without (mem_unknown.1 hx)
  exact gone (mem_unknown.2 still)

theorem distinct_of_normal {v : Value} (h : v.normal = .object fields) : Distinct fields := by
  refine ⟨Value.nodup_of_normal h, ?_⟩
  intro part inner mem
  cases v with
  | object fs =>
    cases h
    rw [Value.normalFields_eq] at mem
    obtain ⟨e, -, same⟩ := List.mem_map.1 (NameMap.mem_of_mem_ofList mem)
    exact Value.nodup_of_normal (congrArg Prod.snd same)
  | null | bool | number | string | array => cases h

theorem distinct_of_holds {t : FileTree} {path : String} (h : Files.Holds t path fields) :
    Distinct fields := by
  obtain ⟨bytes, -, parsed⟩ := h
  unfold Files.parse at parsed
  cases read : Value.ofSymbols (symbols bytes) with
  | ok v =>
    rw [read] at parsed
    exact distinct_of_normal (Except.ok.inj parsed)
  | error f =>
    rw [read] at parsed
    cases parsed

variable {t : FileTree} {path : String} {events : List Event} {s : Setting}
  {reported : List String} {l : Logged FileTree}

/-- The entries that reading a setting file reports are those that no field takes, one for each,
in order. Nothing is said about the table of overrides or about what lies inside of an unknown
entry. A file without the reported entries reads to the same setting, and nothing is reported. -/
theorem reported_entries_are_ignored
    (accepted : Files.readSetting path ⟨t, events⟩ = .ok (s, reported) l) :
    ∃ fields, Files.Holds t path fields ∧ ∃ entries : List Entry,
      entries.Nodup ∧ (∀ x, x ∈ entries ↔ Unknown fields x) ∧
      reported.Pairwise (· ≤ ·) ∧ reported.Perm (entries.map Entry.path) ∧
      (∀ name, .inside "dispatching_table" name ∉ entries) ∧
      (∀ part name, .inside part name ∈ entries → .top part ∉ entries) ∧
      (Decoding.setting .held (Value.object (without entries fields)).outline = .ok s ∧
        unknownEntries (without entries fields) = []) ∧
      ∀ (t' : FileTree) (path' : String), Files.Holds t' path' (without entries fields) →
        ∀ later, Files.readSetting path' ⟨t', later⟩ = .ok (s, []) ⟨t', later⟩ := by
  obtain ⟨fields, held, decoded, rfl⟩ := Files.holds_of_readSetting accepted
  have decoded' : Decoding.setting .held
      (Value.object (without (unknown fields) fields)).outline = .ok s := by
    rw [without_unknown]
    exact (Record.decode_pruned unseen_knownPart _ _ fields).trans decoded
  have silent : unknownEntries (without (unknown fields) fields) = [] := by
    rw [unknownEntries, unknownFields_reference, unknown_without, List.map_nil,
      List.mergeSort_nil]
  refine ⟨fields, held, unknown fields, nodup_unknown (distinct_of_holds held),
    fun x => mem_unknown, ?_, ?_, ?_, ?_, ⟨decoded', silent⟩, ?_⟩
  · have ordered := @List.pairwise_mergeSort String (fun a b => decide (a ≤ b))
      (by simpa using fun a b c => String.le_trans) (by simpa using String.le_total)
      (unknownFields "" reference fields)
    exact ordered.imp of_decide_eq_true
  · rw [unknownEntries, unknownFields_reference]
    exact List.mergeSort_perm _ _
  · intro name mem
    obtain ⟨_, _, _, known, -⟩ := mem_unknown.1 mem
    cases known
  · intro part name inside top
    obtain ⟨_, _, _, known, -⟩ := mem_unknown.1 inside
    exact (mem_unknown.1 top).2 (section_mem_fieldNames known)
  · intro t' path' held' later
    have run := Files.readSetting_of_holds held' decoded' later
    rw [silent] at run
    exact run

/-- Two entries are unknown, one of them inside of the other's section. -/
def annotated : List (String × Value) :=
  [("extra", .object [("fast", .bool true)]),
    ("fusion_setting", .object [("align_quantization", .bool false), ("fast", .bool true)])]

theorem reported_entries_are_ignored_annotated :
    ∃ (t : FileTree) (l : Logged FileTree) (entries : List Entry),
    Files.readSetting "s" ⟨t, []⟩ =
      .ok ({ fusion := { align := false } }, ["extra", "fusion_setting.fast"]) l ∧
    ["extra", "fusion_setting.fast"].Perm (entries.map Entry.path) ∧
    .inside "fusion_setting" "fast" ∈ entries ∧ .inside "extra" "fast" ∉ entries := by
  have written : FileTree.empty.writeText "s" ((Value.object annotated).indented 2) = .ok _ :=
    FileTree.plain_s.write_new rfl _
  have legible : (Value.object annotated).Legible 2 :=
    Value.legible_object.2 (by simp [annotated, Value.legible_object])
  have held : Files.Holds _ "s" annotated :=
    (Files.holds_of_writeText written (legible.mono (by decide)) rfl).1
  have reported : unknownEntries annotated = ["extra", "fusion_setting.fast"] :=
    List.mergeSort_of_pairwise (by decide)
  have run := Files.readSetting_of_holds held (s := { fusion := { align := false } }) rfl []
  rw [reported] at run
  obtain ⟨fields, held', entries, -, iff, -, perm, -⟩ := reported_entries_are_ignored run
  cases held.unique held'
  refine ⟨_, _, entries, run, perm, (iff _).2 ?_, fun mem => ?_⟩
  · exact ⟨_, _, _, rfl, List.mem_cons_of_mem _ List.mem_cons_self,
      List.mem_cons_of_mem _ List.mem_cons_self, by decide⟩
  · obtain ⟨_, _, _, known, -⟩ := (iff _).1 mem
    cases known

end Setting

end GraphDispatch
