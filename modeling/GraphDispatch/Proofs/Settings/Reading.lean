import GraphDispatch.Files.Setting
import GraphDispatch.Proofs.Files.Output
import GraphDispatch.Proofs.Json.Decoding

/-!
# Reading and writing setting files

A setting file is read successfully exactly if it holds an object that decodes, and what is
reported are the entries that are not known. Writing leaves a file that holds the text.
-/

namespace GraphDispatch

namespace FileTree

variable {t : FileTree} {path : String}

theorem isFile_of_read {bytes : ByteArray} (h : t.read path = .ok bytes) :
    t.isFile path = true := by
  obtain ⟨e, found, h⟩ := except_bind_eq_ok h
  cases e with
  | file =>
    rw [isFile, entry?, found]
    rfl
  | directory => cases h

theorem isFile_of_readText {text : String} (h : t.readText path = .ok text) :
    t.isFile path = true := by
  obtain ⟨_, read, -⟩ := except_bind_eq_ok h
  exact isFile_of_read read

end FileTree

namespace Files

open Json

variable {t t' : FileTree} {path : String} {fields : List (String × Value)}
  {events later : List Event}

/-- The events after unknown entries were reported. -/
def noted (path : String) (entries : List String) (events : List Event) : List Event :=
  (entries.map (Event.unknownEntry · path)).reverse ++ events

theorem noteUnknown_eq (path : String) (entries : List String) (events : List Event) :
    noteUnknown path entries ⟨t, events⟩ = .ok () ⟨t, noted path entries events⟩ := by
  induction entries generalizing events with
  | nil => rfl
  | cons entry entries ih =>
    refine (ih (.unknownEntry entry path :: events)).trans ?_
    simp [noted]

theorem requireFile_eq_ok {l : Logged FileTree} : requireFile path ⟨t, events⟩ = .ok () l ↔
    t.isFile path = true ∧ l = ⟨t, events⟩ := by
  have same : requireFile path ⟨t, events⟩ =
      (if (!t.isFile path) = true then throw (.setting (.noFile path)) else pure () :
        FileTask Unit) ⟨t, events⟩ := rfl
  rw [same]
  cases t.isFile path with
  | true => exact ⟨fun h => by cases h; exact ⟨rfl, rfl⟩, fun h => h.2 ▸ rfl⟩
  | false => exact ⟨nofun, nofun⟩

/-- The file holds an object with these fields. -/
def Holds (t : FileTree) (path : String) (fields : List (String × Value)) : Prop :=
  ∃ bytes, t.read path = .ok bytes ∧ parse (symbols bytes) = .ok (.object fields)

theorem Holds.unique {fields' : List (String × Value)} (h : Holds t path fields)
    (h' : Holds t path fields') : fields = fields' := by
  obtain ⟨bytes, read, parsed⟩ := h
  obtain ⟨_, read', parsed'⟩ := h'
  cases read.symm.trans read'
  cases parsed.symm.trans parsed'
  rfl

/-- The file is a text that holds an object with these fields. -/
def HoldsText (t : FileTree) (path : String) (fields : List (String × Value)) : Prop :=
  ∃ text, t.readText path = .ok text ∧ parse (text.toList.map some) = .ok (.object fields)

theorem readSetting_of_holds (held : Holds t path fields) {s : Setting}
    (decoded : Decoding.setting .held (Value.object fields).outline = .ok s)
    (events : List Event) : readSetting path ⟨t, events⟩ =
      .ok (s, Setting.unknownEntries fields)
        ⟨t, noted path (Setting.unknownEntries fields) events⟩ := by
  obtain ⟨bytes, read, parsed⟩ := held
  have required := requireFile_eq_ok.2 ⟨FileTree.isFile_of_read read, Eq.refl (Logged.mk t events)⟩
  rw [readSetting, bind_of_ok required, Task.run_state_bind, Task.ofExcept_bind_of_ok read,
    Task.ofExcept_bind_of_ok parsed]
  dsimp only
  rw [bind_of_ok (noteUnknown_eq path _ events), Task.ofExcept_bind_of_ok decoded]
  rfl

theorem holds_of_readSetting {r : Setting × List String} {l : Logged FileTree}
    (h : readSetting path ⟨t, events⟩ = .ok r l) : ∃ fields, Holds t path fields ∧
      Decoding.setting .held (Value.object fields).outline = .ok r.1 ∧
      r.2 = Setting.unknownEntries fields := by
  obtain ⟨⟨⟩, _, required, h⟩ := bind_eq_ok.1 h
  obtain ⟨-, rfl⟩ := requireFile_eq_ok.1 required
  rw [Task.run_state_bind] at h
  obtain ⟨bytes, read, h⟩ := Task.ofExcept_bind_eq_ok h
  obtain ⟨v, parsed, h⟩ := Task.ofExcept_bind_eq_ok h
  cases v with
  | object fields =>
    obtain ⟨⟨⟩, l', noted, h⟩ := bind_eq_ok.1 h
    obtain ⟨s, decoded, h⟩ := Task.ofExcept_bind_eq_ok h
    cases h
    exact ⟨fields, ⟨bytes, read, parsed⟩, decoded, rfl⟩
  | null | bool | number | string | array => cases h

theorem readSimpleSetting_of_holds (held : HoldsText t path fields) {s : SimpleSetting}
    (named : checkPlatform fields = .ok ())
    (decoded : Decoding.simple .held (Value.object fields).outline = .ok s)
    (events : List Event) : readSimpleSetting path ⟨t, events⟩ =
      .ok (s, SimpleSetting.unknownEntries fields)
        ⟨t, noted path (SimpleSetting.unknownEntries fields) events⟩ := by
  obtain ⟨text, read, parsed⟩ := held
  have required :=
    requireFile_eq_ok.2 ⟨FileTree.isFile_of_readText read, Eq.refl (Logged.mk t events)⟩
  rw [readSimpleSetting, bind_of_ok required, Task.run_state_bind, Task.ofExcept_bind_of_ok read,
    Task.ofExcept_bind_of_ok parsed]
  dsimp only
  rw [Task.ofExcept_bind_of_ok named, bind_of_ok (noteUnknown_eq path _ events),
    Task.ofExcept_bind_of_ok decoded]
  rfl

theorem holds_of_readSimpleSetting {r : SimpleSetting × List String} {l : Logged FileTree}
    (h : readSimpleSetting path ⟨t, events⟩ = .ok r l) : ∃ fields, HoldsText t path fields ∧
      checkPlatform fields = .ok () ∧
      Decoding.simple .held (Value.object fields).outline = .ok r.1 ∧
      r.2 = SimpleSetting.unknownEntries fields ∧
      l = ⟨t, noted path r.2 events⟩ := by
  obtain ⟨⟨⟩, _, required, h⟩ := bind_eq_ok.1 h
  obtain ⟨-, rfl⟩ := requireFile_eq_ok.1 required
  rw [Task.run_state_bind] at h
  obtain ⟨text, read, h⟩ := Task.ofExcept_bind_eq_ok h
  obtain ⟨v, parsed, h⟩ := Task.ofExcept_bind_eq_ok h
  cases v with
  | object fields =>
    obtain ⟨⟨⟩, named, h⟩ := Task.ofExcept_bind_eq_ok h
    rw [bind_of_ok (noteUnknown_eq path _ events)] at h
    obtain ⟨s, decoded, h⟩ := Task.ofExcept_bind_eq_ok h
    cases h
    exact ⟨fields, ⟨text, read, parsed⟩, named, decoded, rfl, rfl⟩
  | null | bool | number | string | array => cases h

/-! ## Written values -/

theorem parse_indented {v : Value} (legible : v.Legible Outline.depthLimit) (width : Nat) :
    parse (symbolsOf (v.indented width)) = .ok v.stored := by
  rw [parse, Value.ofSymbols_indented legible]
  rfl

/-- A file with the text of an object holds the object. -/
theorem holds_of_writeText {v : Value} {width : Nat}
    (h : t.writeText path (v.indented width) = .ok t') (legible : v.Legible Outline.depthLimit)
    (stored : v.stored = .object fields) : Holds t' path fields ∧ HoldsText t' path fields := by
  have parsed := parse_indented legible width
  rw [stored] at parsed
  refine ⟨⟨_, FileTree.read_of_write h, ?_⟩, _, FileTree.readText_of_write h, parsed⟩
  rw [symbols_toUTF8]
  exact parsed

end Files

end GraphDispatch
