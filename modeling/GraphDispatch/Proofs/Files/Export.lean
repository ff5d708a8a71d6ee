import GraphDispatch.Files.Graph
import GraphDispatch.Proofs.Documents.RoundTrip
import GraphDispatch.Proofs.Documents.Texts
import GraphDispatch.Proofs.Files.Output

/-!
# Exported graphs are read back

An export is checked as a whole before the first file is written, so what the checks refuse leaves
no trace. What was written is read back: the graph as it was, as its links are found again, and the
platforms of its operations.
-/

namespace GraphDispatch.Files

open Json

variable {t t' : FileTree} {g : Graph Float32} {platform : Platform} {path : String}
  {config : Option String} {paths : List String} {events : List Event} {l : Logged FileTree}

/-! ## Checks -/

/-- The paths that an export writes to. -/
def targets (platform : Platform) (path : String) (config : Option String) : List String :=
  graphPath platform path :: config.toList

/-- The events after it was reported that files will be overwritten. -/
def warned (paths : List String) (events : List Event) : List Event :=
  (paths.map .overwriting).reverse ++ events

theorem warned_cons (path : String) (paths : List String) (events : List Event) :
    warned (path :: paths) events = warned paths (.overwriting path :: events) := by
  simp [warned]

/-- The checks stop at the first directory. -/
theorem checkOutputs_eq (t : FileTree) (paths : List String) (events : List Event) :
    paths.filterM checkOutput ⟨t, events⟩ = match paths.find? t.isDirectory with
      | some p => .error (.outputIsDirectory p)
        ⟨t, warned ((paths.takeWhile (!t.isDirectory ·)).filter t.contains) events⟩
      | none => .ok (paths.filter t.contains) ⟨t, warned (paths.filter t.contains) events⟩ := by
  have general : ∀ found events, List.filterAuxM checkOutput paths found ⟨t, events⟩ =
      match paths.find? t.isDirectory with
      | some p => .error (.outputIsDirectory p)
        ⟨t, warned ((paths.takeWhile (!t.isDirectory ·)).filter t.contains) events⟩
      | none => .ok ((paths.filter t.contains).reverse ++ found)
        ⟨t, warned (paths.filter t.contains) events⟩ := by
    induction paths with
    | nil => exact fun _ _ => rfl
    | cons p paths ih =>
      intro found events
      have checked := checkOutput_eq t p events
      cases directory : t.isDirectory p with
      | true =>
        rw [directory, if_pos rfl] at checked
        rw [List.find?_cons_of_pos directory, List.takeWhile_cons_of_neg (by simp [directory])]
        exact bind_of_error checked
      | false =>
        rw [directory, if_neg Bool.false_ne_true] at checked
        rw [List.find?_cons_of_neg (by simp [directory]),
          List.takeWhile_cons_of_pos (by simp [directory])]
        cases there : t.contains p with
        | true =>
          rw [there, if_pos rfl] at checked
          refine (bind_of_ok checked).trans ((ih _ _).trans ?_)
          simp only [List.filter_cons_of_pos there, warned_cons, List.reverse_cons,
            List.append_assoc, List.singleton_append, cond_true]
        | false =>
          rw [there, if_neg Bool.false_ne_true] at checked
          refine (bind_of_ok checked).trans ((ih _ _).trans ?_)
          simp only [List.filter_cons_of_neg (Bool.eq_false_iff.1 there), cond_false]
  rw [List.filterM, run_bind, general [] events]
  cases paths.find? t.isDirectory with
  | some p => rfl
  | none =>
    dsimp only
    rw [List.append_nil, run_pure, List.reverse_reverse]

/-! ## Runs -/

/-- What is refused before anything is written. -/
inductive Refused (t : FileTree) (platform : Platform) (paths : List String) :
    PipelineError Float32 → Prop
  | directory {p : String} (listed : p ∈ paths) (h : t.isDirectory p = true) :
    Refused t platform paths (.outputIsDirectory p)
  | exporter (h : platform.hasExporter = false) : Refused t platform paths (.noExporter platform)

theorem exportGraph_refuses (g : Graph Float32)
    (h : (∃ p ∈ targets platform path config, t.isDirectory p = true) ∨
      platform.hasExporter = false) (events : List Event) :
    ∃ e later, exportGraph g platform path config ⟨t, events⟩ = .error e ⟨t, later⟩ ∧
      Refused t platform (targets platform path config) e := by
  have checked := checkOutputs_eq t (targets platform path config) events
  cases first : (targets platform path config).find? t.isDirectory with
  | some p =>
    rw [first] at checked
    have listed := List.mem_of_find?_eq_some first
    exact ⟨_, _, bind_of_error checked, .directory listed (List.find?_some first)⟩
  | none =>
    rw [first] at checked
    have clear := List.find?_eq_none.1 first
    have missing := h.resolve_left fun ⟨p, listed, directory⟩ => clear p listed directory
    refine ⟨_, warned ((targets platform path config).filter t.contains) events, ?_,
      .exporter missing⟩
    refine (bind_of_ok checked).trans ?_
    rw [missing]
    rfl

/-- The graph is written to `path`, and then the platforms where they are asked for. -/
def Wrote (g : Graph Float32) (path : String) (config : Option String) (t t' : FileTree) : Prop :=
  ∃ u, t.writeText path g.text = .ok u ∧ match config with
    | none => t' = u
    | some c => u.writeText c ((platforms g).indented 2) = .ok t'

theorem writeGraph_eq_ok : writeGraph g path config ⟨t, events⟩ = .ok () l ↔
    Wrote g path config t l.state ∧ l.events = .exported g.name path :: events := by
  constructor
  · intro run
    obtain ⟨⟨⟩, ⟨u, _⟩, first, rest⟩ := bind_eq_ok.1 run
    obtain ⟨wrote, same⟩ := writeText_eq_ok.1 first
    cases same
    cases config with
    | none =>
      cases rest
      exact ⟨⟨u, wrote, rfl⟩, rfl⟩
    | some c =>
      obtain ⟨⟨⟩, ⟨v, _⟩, second, last⟩ := bind_eq_ok.1 rest
      obtain ⟨wrote', same⟩ := writeText_eq_ok.1 second
      cases same
      cases last
      exact ⟨⟨u, wrote, wrote'⟩, rfl⟩
  · obtain ⟨t', later⟩ := l
    rintro ⟨⟨u, wrote, rest⟩, rfl⟩
    have first : writeText path g.text ⟨t, events⟩ = .ok () ⟨u, events⟩ :=
      writeText_eq_ok.2 ⟨wrote, rfl⟩
    refine (bind_of_ok first).trans ?_
    cases config with
    | none =>
      cases rest
      rfl
    | some c =>
      have second : writeText c ((platforms g).indented 2) ⟨u, events⟩ = .ok () ⟨t', events⟩ :=
        writeText_eq_ok.2 ⟨rest, rfl⟩
      exact bind_of_ok second

theorem exportGraph_eq_ok {overwritten : List String} :
    exportGraph g platform path config ⟨t, events⟩ = .ok overwritten l ↔
      ¬((∃ p ∈ targets platform path config, t.isDirectory p = true) ∨
        platform.hasExporter = false) ∧
      overwritten = (targets platform path config).filter t.contains ∧
      Wrote g (graphPath platform path) config t l.state ∧
      l.events = .exported g.name (graphPath platform path) :: warned overwritten events := by
  by_cases refused : (∃ p ∈ targets platform path config, t.isDirectory p = true) ∨
      platform.hasExporter = false
  · obtain ⟨e, later, run, -⟩ := exportGraph_refuses g refused events
    simp [run, refused]
  · obtain ⟨clear, exporter⟩ := not_or.1 refused
    have none : (targets platform path config).find? t.isDirectory = none := by
      rw [List.find?_eq_none]
      exact fun p listed directory => clear ⟨p, listed, directory⟩
    have checked := checkOutputs_eq t (targets platform path config) events
    rw [none] at checked
    have run : exportGraph g platform path config ⟨t, events⟩ =
        (writeGraph g (graphPath platform path) config >>= fun _ =>
          pure ((targets platform path config).filter t.contains))
          ⟨t, warned ((targets platform path config).filter t.contains) events⟩ := by
      refine (bind_of_ok checked).trans ?_
      rw [Bool.not_eq_false] at exporter
      rw [exporter]
      rfl
    rw [run, bind_eq_ok]
    constructor
    · rintro ⟨⟨⟩, l', wrote, h⟩
      cases h
      exact ⟨refused, rfl, writeGraph_eq_ok.1 wrote⟩
    · rintro ⟨-, rfl, wrote⟩
      exact ⟨(), l, writeGraph_eq_ok.2 wrote, rfl⟩

/-! ## What is found afterwards -/

theorem importGraph_of_read (built : (Document.ofGraph g).build = .ok g) (exact : Exact g.singles)
    (read : t.read path = .ok g.text.toUTF8) (reported : List Event) :
    importGraph path .native ⟨t, reported⟩ =
      .ok g ⟨t, .loaded g.name path g.operations.size g.vars.size :: reported⟩ := by
  have opened : openGraph path ⟨t, reported⟩ = .ok (symbols g.text.toUTF8) ⟨t, reported⟩ := by
    rw [openGraph, Task.run_state_bind, read]
    rfl
  have parsed : Graph.ofSymbols (symbols g.text.toUTF8) = .ok g := by
    rw [symbols_toUTF8]
    exact Graph.ofSymbols_text built exact
  exact (bind_of_ok opened).trans (Task.ofExcept_bind_of_ok parsed _)

theorem mem_platforms (hg : g.Linked) {op : String} {v : Value} :
    (op, v) ∈ (NameMap.ofList (g.operations.values.map fun o =>
      (o.name, Encoding.platform o.platform))).entries ↔
      ∃ o, g.getOperation? op = some o ∧ v = .string o.platform.name := by
  have nodup : ((g.operations.values.map fun o =>
      (o.name, Encoding.platform o.platform)).map (·.1)).Nodup := by
    rw [List.map_map]
    exact hg.values_names ▸ g.operations.names_nodup
  rw [← NameMap.get?_eq_some_iff, NameMap.get?_ofList_eq_some nodup, List.mem_map]
  constructor
  · rintro ⟨o, ho, same⟩
    cases same
    exact ⟨o, hg.mem_values.1 ho, rfl⟩
  · rintro ⟨o, ho, rfl⟩
    have own := hg.operation_name ho
    exact ⟨o, hg.mem_values.2 (own.symm ▸ ho), by rw [own]; rfl⟩

/-- The file holds an object with a field for every operation, the name of its platform. -/
def TellsPlatforms (t : FileTree) (path : String) (g : Graph Float32) : Prop :=
  ∃ text fields, t.readText path = .ok text ∧ Value.ofText text = .ok (.object fields) ∧
    (fields.map (·.1)).Nodup ∧
    ∀ op v, (op, v) ∈ fields ↔ ∃ o, g.getOperation? op = some o ∧ v = .string o.platform.name

theorem tellsPlatforms_of_readText (hg : g.Linked)
    (read : t.readText path = .ok ((platforms g).indented 2)) : TellsPlatforms t path g := by
  have texts : ∀ e ∈ (NameMap.ofList (g.operations.values.map fun o =>
      (o.name, Encoding.platform o.platform))).entries, ∃ s, e.2 = .string s := by
    intro e he
    obtain ⟨o, -, text⟩ := (mem_platforms hg).1 he
    exact ⟨_, text⟩
  have legible : (platforms g).Legible 1 := by
    refine Value.legible_object.2 fun e he => ?_
    obtain ⟨s, text⟩ := texts e he
    rw [text]
    exact Value.legible_string s
  have same : (platforms g).reread = platforms g := by
    rw [platforms, Value.reread_object]
    refine congrArg Value.object ((List.map_congr_left fun e he => ?_).trans (List.map_id _))
    obtain ⟨s, text⟩ := texts e he
    rw [text]
    exact congrArg (e.1, ·) text.symm
  refine ⟨_, _, read, ?_, NameMap.names_nodup _, fun op v => mem_platforms hg⟩
  have parsed := Value.ofSymbols_indented (legible.mono (by decide)) 2
  rwa [same] at parsed

namespace Wrote

variable (wrote : Wrote g path config t t')

include wrote

theorem read_graph (apart : ∀ c ∈ config, t.Apart path c) :
    t'.read path = .ok g.text.toUTF8 := by
  obtain ⟨u, first, rest⟩ := wrote
  have read := FileTree.read_of_write first
  cases config with
  | none =>
    cases rest
    exact read
  | some c => exact FileTree.read_of_write_apart rest ((apart c rfl).of_write first) read

theorem get? {name : String} (apart : ∀ p ∈ path :: config.toList, t.nameOf? p ≠ some name) :
    t'.entries.get? name = t.entries.get? name := by
  obtain ⟨u, first, rest⟩ := wrote
  have kept := FileTree.get?_of_write first (apart path List.mem_cons_self)
  cases config with
  | none =>
    cases rest
    exact kept
  | some c =>
    refine (FileTree.get?_of_write rest ?_).trans kept
    rw [FileTree.nameOf?_of_write first]
    exact apart c (by simp)

theorem readText_platforms {c : String} (asked : config = some c) :
    t'.readText c = .ok ((platforms g).indented 2) := by
  obtain ⟨u, -, rest⟩ := wrote
  subst asked
  exact FileTree.readText_of_write rest

end Wrote

/-- What an export leaves behind: nothing else is touched, the graph file is read back to the graph
unless the other file took its place, and the other file tells the platforms. -/
structure Exported (g : Graph Float32) (platform : Platform) (path : String)
    (config : Option String) (t t' : FileTree) : Prop where
  others : ∀ name, (∀ p ∈ targets platform path config, t.nameOf? p ≠ some name) →
    t'.entries.get? name = t.entries.get? name
  graph : (∀ c ∈ config, t.Apart (graphPath platform path) c) → ∀ reported,
    importGraph (graphPath platform path) .native ⟨t', reported⟩ =
      .ok g ⟨t', .loaded g.name (graphPath platform path) g.operations.size g.vars.size ::
        reported⟩
  platforms : ∀ c ∈ config, TellsPlatforms t' c g

/-- An export that the checks refuse changes no file. Otherwise it returns the files that were
there before, the graph file first, and what it has written is read back. -/
theorem export_checked_then_read (reachable : Reachable g)
    (plain : ∀ var v, g.getVariable? var = some v → v.producer.isSome → v.isParameter = false)
    (finite : ∀ x ∈ g.singles, x.isFinite = true)
    (exact : ∀ x ∈ g.singles, x.isFinite = true → (Number.single x).ReadsAs x)
    (platform : Platform) (path : String) (config : Option String) (t : FileTree)
    (events : List Event) :
    ((∃ p ∈ targets platform path config, t.isDirectory p = true) ∨
      platform.hasExporter = false → ∃ e later,
        exportGraph g platform path config ⟨t, events⟩ = .error e ⟨t, later⟩ ∧
        Refused t platform (targets platform path config) e) ∧
    ∀ overwritten l, exportGraph g platform path config ⟨t, events⟩ = .ok overwritten l →
      overwritten = (targets platform path config).filter t.contains ∧
      l.events = .exported g.name (graphPath platform path) :: warned overwritten events ∧
      Exported g platform path config t l.state := by
  refine ⟨fun refused => exportGraph_refuses g refused events, fun overwritten l run => ?_⟩
  obtain ⟨-, there, wrote, told⟩ := exportGraph_eq_ok.1 run
  have built := Document.build_ofGraph (reachable.linked.live_iff.2 plain)
  refine ⟨there, told, ⟨fun name => wrote.get?, fun apart => ?_, fun c asked => ?_⟩⟩
  · exact importGraph_of_read built (fun x hx => exact x hx (finite x hx)) (wrote.read_graph apart)
  · exact tellsPlatforms_of_readText reachable.linked (wrote.readText_platforms asked)

/-- The operation has an attribute in single precision, and a parameter. -/
def scaling : Document Float32 where
  name := "net"
  inputs := ["x"]
  outputs := ["y"]
  vars := [⟨"w", some ⟨[2], .floats [0.1, -1e-9]⟩, true⟩, ⟨"x", none, false⟩, ⟨"y", none, false⟩]
  operations := [⟨"mul", "Mul", .ofList [("alpha", .float 16777216)], ["x", "w"], ["y"], .fp32⟩]

theorem plain_g : FileTree.Plain "g.native" :=
  FileTree.plain_of_name (by simp) (by decide) (by decide +kernel) (by decide) (by decide)

/-- The place of the second file is taken. -/
def taken (e : FileEntry) : FileTree := FileTree.empty.put ["s"] e

theorem found_taken (e : FileEntry) :
    FileTree.entry? (taken e) "g.native" = none ∧ FileTree.entry? (taken e) "s" = some e :=
  ⟨(plain_g.found _).trans rfl, (FileTree.plain_s.found _).trans rfl⟩

/-- A file in the place of the second one is overwritten. -/
theorem exportGraph_taken : ∃ t' later,
    exportGraph scaling.graph .native "g" (some "s") ⟨taken (.file .empty), []⟩ =
      .ok ["s"] ⟨t', later⟩ := by
  have there := found_taken (.file .empty)
  have first : (taken (.file .empty)).writeText "g.native" scaling.graph.text =
      .ok ((taken (.file .empty)).put ["g.native"] (.file scaling.graph.text.toUTF8)) :=
    plain_g.write_new rfl _
  have free : ((taken (.file .empty)).put ["g.native"]
      (.file scaling.graph.text.toUTF8)).Free ["s"] := nofun
  have wrote : Wrote scaling.graph "g.native" (some "s") (taken (.file .empty)) _ :=
    ⟨_, first, FileTree.plain_s.write free _⟩
  have clear : ¬((∃ p ∈ ["g.native", "s"], (taken (.file .empty)).isDirectory p = true) ∨
      Platform.native.hasExporter = false) := by
    simp [FileTree.isDirectory, FileEntry.isDirectory, there, Platform.hasExporter]
  have overwritten : ["s"] = ["g.native", "s"].filter (taken (.file .empty)).contains := by
    simp [FileTree.contains, there]
  exact ⟨_, _, exportGraph_eq_ok.2 ⟨clear, overwritten, wrote, rfl⟩⟩

/-- What was there before is overwritten, but a directory keeps both files from being written. -/
theorem export_checked_then_read_scaling :
    (∃ t' later, exportGraph scaling.graph .native "g" (some "s") ⟨taken (.file .empty), []⟩ =
        .ok ["s"] ⟨t', later⟩ ∧
      importGraph "g.native" .native ⟨t', []⟩ =
        .ok scaling.graph ⟨t', [.loaded "net" "g.native" 1 3]⟩ ∧
      TellsPlatforms t' "s" scaling.graph) ∧
    ∃ e later, exportGraph scaling.graph .native "g" (some "s") ⟨taken .directory, []⟩ =
      .error e ⟨taken .directory, later⟩ := by
  have reachable : Reachable scaling.graph :=
    ⟨scaling.graph, [], .built (show scaling.build = .ok scaling.graph from rfl), rfl⟩
  have settled := export_checked_then_read reachable (NameMap.forall_get?_iff.2 (by decide))
    (by decide +kernel) (by decide +kernel) .native "g" (some "s")
  constructor
  · obtain ⟨t', later, run⟩ := exportGraph_taken
    obtain ⟨-, succeeds⟩ := settled (taken (.file .empty)) []
    obtain ⟨-, -, exported⟩ := succeeds _ _ run
    have apart : ∀ c ∈ some "s", (taken (.file .empty)).Apart "g.native" c := by
      intro c asked
      cases asked
      exact .names plain_g.direct FileTree.plain_s.direct (by decide)
    exact ⟨t', later, run, exported.graph apart [], exported.platforms "s" rfl⟩
  · obtain ⟨refuses, -⟩ := settled (taken .directory) []
    have directory : (taken .directory).isDirectory "s" = true := by
      rw [FileTree.isDirectory, (found_taken .directory).2]
      rfl
    obtain ⟨e, later, run, -⟩ := refuses (Or.inl ⟨"s", by simp [targets], directory⟩)
    exact ⟨e, later, run⟩

end GraphDispatch.Files
