import GraphDispatch.Proofs.Files.Paths

/-!
# Reading what was written

A file goes where no directory is, so all paths lead to where they led. At its path the file is
found, with the bytes that were written, and every other entry stays.
-/

namespace GraphDispatch.FileTree

variable {t t' : FileTree} {path other name : String} {here place : List String}
  {bytes : ByteArray}

/-- No directory is in this place. -/
def Free (t : FileTree) (place : List String) : Prop := t.entryAt? place ≠ some .directory

theorem entryAt?_root : t.entryAt? [] = some .directory := rfl

theorem Free.ne_root (h : t.Free place) : place ≠ [] := by
  rintro rfl
  exact h rfl

theorem entryAt?_of_ne_root (h : place ≠ []) : t.entryAt? place = t.entries.get? (key place) :=
  if_neg h

theorem entryAt?_put_self (h : place ≠ []) (e : FileEntry) :
    (t.put place e).entryAt? place = some e := by
  rw [entryAt?_of_ne_root h]
  exact NameMap.get?_insert_self _ _ _

theorem entryAt?_put_directory (free : t.Free place) (h : t.entryAt? here = some .directory)
    (e : FileEntry) : (t.put place e).entryAt? here = some .directory := by
  by_cases root : here = []
  · subst root
    rfl
  · rw [entryAt?_of_ne_root root] at h ⊢
    have apart : key here ≠ key place := by
      intro same
      apply free
      rw [entryAt?_of_ne_root free.ne_root, ← same, h]
    exact (NameMap.get?_insert _ _ _ _).trans ((if_neg apart).trans h)

theorem entryAt?_put_of_ne (apart : key here ≠ key place) (e : FileEntry) :
    (t.put place e).entryAt? here = t.entryAt? here := by
  by_cases root : here = []
  · subst root
    rfl
  · rw [entryAt?_of_ne_root root, entryAt?_of_ne_root root]
    exact (NameMap.get?_insert _ _ _ _).trans (if_neg apart)

/-- A file makes no directory. -/
theorem entryAt?_directory_of_put
    (h : (t.put place (.file bytes)).entryAt? here = some .directory) :
    t.entryAt? here = some .directory := by
  by_cases apart : key here = key place
  · by_cases root : here = []
    · subst root
      rfl
    · rw [entryAt?_of_ne_root root, apart] at h
      cases (NameMap.get?_insert_self _ _ _).symm.trans h
  · rwa [entryAt?_put_of_ne apart] at h

theorem walk_put (free : t.Free place) (bytes : ByteArray) (steps : List String) :
    (t.put place (.file bytes)).walk steps = .ok here ↔ t.walk steps = .ok here :=
  ⟨walk_of_directories fun _ => entryAt?_directory_of_put,
    walk_of_directories fun _ h => entryAt?_put_directory free h _⟩

theorem locate_put (free : t.Free place) (bytes : ByteArray) :
    (t.put place (.file bytes)).locate path = .ok here ↔ t.locate path = .ok here := by
  rw [locate_eq_ok, locate_eq_ok, walk_put free]

/-- What writing a file comes to. -/
theorem exists_of_write (h : t.write path bytes = .ok t') :
    ∃ place, t.locate path = .ok place ∧ t.Free place ∧ t' = t.put place (.file bytes) := by
  obtain ⟨⟨⟩, checked, h⟩ := except_bind_eq_ok h
  split at h
  · obtain ⟨_, -, h⟩ := except_bind_eq_ok h
    obtain ⟨_, -, h⟩ := except_bind_eq_ok h
    cases h
  obtain ⟨place, walked, h⟩ := except_bind_eq_ok h
  split at h
  · cases h
  · rename_i free
    refine ⟨place, locate_eq_ok.2 ⟨checked, walked⟩, ?_, ?_⟩
    · intro directory
      simp [directory, FileEntry.isDirectory] at free
    · cases h
      rfl

theorem entry_of_locate (h : t.locate path = .ok place) {e : FileEntry}
    (found : t.entryAt? place = some e) : t.entry path = .ok e := by
  rw [entry, h]
  dsimp only [bind, Except.bind]
  rw [found]
  rfl

theorem exists_of_entry {e : FileEntry} (h : t.entry path = .ok e) :
    ∃ place, t.locate path = .ok place ∧ t.entryAt? place = some e := by
  obtain ⟨place, located, there⟩ := except_bind_eq_ok h
  refine ⟨place, located, ?_⟩
  cases found : t.entryAt? place with
  | none =>
    rw [found] at there
    cases there
  | some e' =>
    rw [found] at there
    cases there
    rfl

theorem entry_of_missing (h : t.locate path = .ok place) (missing : t.entryAt? place = none) :
    t.entry path = .error .notFound := by
  rw [entry, h]
  dsimp only [bind, Except.bind]
  rw [missing]
  rfl

/-! ## New files -/

theorem checkPath_eq_ok (free : path.contains (Char.ofNat 0) = false) (named : path ≠ "")
    (short : path.utf8ByteSize ≤ pathLimit) : checkPath path = .ok () := by
  rw [checkPath, free, if_neg named, if_neg (Nat.not_lt.2 short)]
  rfl

/-- The path is one step that names something at the top. -/
structure Plain (name : String) : Prop where
  checked : checkPath name = .ok ()
  single : name.splitOn "/" = [name]
  closed : name.endsWith "/" = false
  short : name.utf8ByteSize ≤ stepLimit
  step : follow [] name = [name]

theorem plain_of_name (free : name.contains (Char.ofNat 0) = false) (slash : '/' ∉ name.toList)
    (closed : name.endsWith "/" = false) (moves : name ≠ "" ∧ name ≠ "." ∧ name ≠ "..")
    (short : name.utf8ByteSize ≤ stepLimit) : Plain name where
  checked := checkPath_eq_ok free moves.1 (Nat.le_trans short (by decide))
  single := splitOn_of_single slash
  closed := closed
  short := short
  step := by simp [follow, moves]

theorem plain_s : Plain "s" :=
  plain_of_name (by simp) (by decide) (by decide +kernel) (by decide) (by decide)

section

variable {name : String}

theorem Plain.walk (plain : Plain name) (t : FileTree) :
    t.walk (name.splitOn "/") = .ok [name] := by
  rw [plain.single, FileTree.walk, List.foldlM_cons, enter_eq_ok.2 entryAt?_root,
    if_neg (Nat.not_lt.2 plain.short), plain.step]
  rfl

theorem Plain.locate (plain : Plain name) (t : FileTree) : t.locate name = .ok [name] :=
  locate_eq_ok.2 ⟨plain.checked, plain.walk t⟩

theorem Plain.direct (plain : Plain name) : Direct name := by
  intro step listed
  rw [plain.single, List.mem_singleton] at listed
  subst listed
  refine ⟨?_, ?_, ?_⟩ <;>
  · rintro rfl
    exact absurd plain.step (by decide)

theorem Plain.found (plain : Plain name) (t : FileTree) : t.entry? name = t.entryAt? [name] := by
  unfold FileTree.entry?
  cases found : t.entryAt? [name] with
  | none =>
    rw [entry_of_missing (plain.locate t) found]
    rfl
  | some e =>
    rw [entry_of_locate (plain.locate t) found]
    rfl

theorem Plain.write (plain : Plain name) (free : t.Free [name]) (bytes : ByteArray) :
    t.write name bytes = .ok (t.put [name] (.file bytes)) := by
  have clear : (t.entryAt? [name]).any FileEntry.isDirectory = false := by
    cases found : t.entryAt? [name] with
    | none => rfl
    | some e =>
      cases e with
      | file => rfl
      | directory => exact absurd found free
  rw [FileTree.write, plain.checked, plain.closed]
  change (t.walk (name.splitOn "/") >>= _) = _
  rw [plain.walk]
  change (if (t.entryAt? [name]).any FileEntry.isDirectory = true then _ else _) = _
  rw [clear]
  rfl

/-- Where nothing is yet, a file can be written. -/
theorem Plain.write_new (plain : Plain name) (new : t.entryAt? [name] = none)
    (bytes : ByteArray) : t.write name bytes = .ok (t.put [name] (.file bytes)) :=
  plain.write (by simp [Free, new]) bytes

end

/-! ## Written files -/

theorem entry_of_write (h : t.write path bytes = .ok t') : t'.entry path = .ok (.file bytes) := by
  obtain ⟨place, located, free, rfl⟩ := exists_of_write h
  exact entry_of_locate ((locate_put free bytes).2 located) (entryAt?_put_self free.ne_root _)

theorem read_of_write (h : t.write path bytes = .ok t') : t'.read path = .ok bytes := by
  rw [read, entry_of_write h]
  rfl

/-- All paths lead to where they led. -/
theorem nameOf?_of_write (h : t.write path bytes = .ok t') (other : String) :
    t'.nameOf? other = t.nameOf? other := by
  obtain ⟨place, -, free, rfl⟩ := exists_of_write h
  refine Option.ext fun name => ?_
  simp only [nameOf?_eq_some, locate_put free]

theorem Apart.of_write (h : t.write path bytes = .ok t') {p q : String} (apart : t.Apart p q) :
    t'.Apart p q := by
  cases apart with
  | places differ => exact .places (by rwa [nameOf?_of_write h, nameOf?_of_write h])
  | names direct direct' differ => exact .names direct direct' differ

/-- Every entry stays but the one that is written. -/
theorem get?_of_write (h : t.write path bytes = .ok t') (apart : t.nameOf? path ≠ some name) :
    t'.entries.get? name = t.entries.get? name := by
  obtain ⟨place, located, -, rfl⟩ := exists_of_write h
  refine (NameMap.get?_insert _ _ _ _).trans (if_neg ?_)
  rintro rfl
  exact apart (nameOf?_eq_some.2 ⟨place, located, rfl⟩)

/-- What stands at another place is found as before. -/
theorem entry_of_write_apart {e : FileEntry} (h : t.write path bytes = .ok t')
    (apart : t.Apart other path) (found : t.entry other = .ok e) : t'.entry other = .ok e := by
  obtain ⟨place, located, free, rfl⟩ := exists_of_write h
  obtain ⟨here, located', there⟩ := exists_of_entry found
  have differ : key here ≠ key place := fun same =>
    apart.nameOf?_ne (nameOf?_eq_some.2 ⟨here, located', same⟩)
      (nameOf?_eq_some.2 ⟨place, located, rfl⟩)
  refine entry_of_locate ((locate_put free bytes).2 located') ?_
  rwa [entryAt?_put_of_ne differ]

theorem read_of_write_apart {kept : ByteArray} (h : t.write path bytes = .ok t')
    (apart : t.Apart other path) (read : t.read other = .ok kept) :
    t'.read other = .ok kept := by
  obtain ⟨e, found, held⟩ := except_bind_eq_ok read
  rw [FileTree.read, entry_of_write_apart h apart found]
  exact held

theorem fromUTF8?_toUTF8 (s : String) : String.fromUTF8? s.toUTF8 = some s := by
  rw [String.fromUTF8?, String.toUTF8_eq_toByteArray, dif_pos s.isValidUTF8]
  rfl

/-- A text that was written is read as the text. -/
theorem readText_of_write {text : String} (h : t.writeText path text = .ok t') :
    t'.readText path = .ok text := by
  rw [readText, read_of_write h]
  dsimp only [bind, Except.bind]
  rw [fromUTF8?_toUTF8]
  rfl

end GraphDispatch.FileTree
