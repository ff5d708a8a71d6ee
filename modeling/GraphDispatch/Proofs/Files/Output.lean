import GraphDispatch.Files.Output
import GraphDispatch.Proofs.Files.Tree
import GraphDispatch.Proofs.Json.Lexing

/-!
# Runs that write

An output is checked without a change to the files, and a write that succeeds is the one of the
tree.
-/

namespace GraphDispatch

namespace Task

variable {σ ε δ β γ : Type} {l l' : Logged σ} {r : Except ε β} {f : ε → δ} {b : β}

theorem run_state_bind (k : σ → Task σ ε γ) (l : Logged σ) : (state >>= k) l = k l.state l := rfl

theorem ofExcept_eq_ok : (ofExcept f r : Task σ δ β) l = .ok b l' ↔ r = .ok b ∧ l' = l := by
  cases r with
  | ok c =>
    constructor
    · intro h
      cases h
      exact ⟨rfl, rfl⟩
    · rintro ⟨⟨⟩, rfl⟩
      rfl
  | error e => exact ⟨nofun, nofun⟩

theorem ofExcept_bind_of_ok (h : r = .ok b) (k : β → Task σ δ γ) :
    (ofExcept f r >>= k) l = k b l :=
  bind_of_ok (ofExcept_eq_ok.2 ⟨h, rfl⟩)

theorem ofExcept_bind_eq_ok {k : β → Task σ δ γ} {c : γ} (h : (ofExcept f r >>= k) l = .ok c l') :
    ∃ b, r = .ok b ∧ k b l = .ok c l' := by
  obtain ⟨b, _, first, rest⟩ := bind_eq_ok.1 h
  obtain ⟨ok, rfl⟩ := ofExcept_eq_ok.1 first
  exact ⟨b, ok, rest⟩

end Task

namespace Files

open Json

variable {t t' : FileTree} {path : String} {events : List Event}

theorem checkOutput_eq (t : FileTree) (path : String) (events : List Event) :
    checkOutput path ⟨t, events⟩ =
      if t.isDirectory path then .error (.outputIsDirectory path) ⟨t, events⟩
      else if t.contains path then .ok true ⟨t, .overwriting path :: events⟩
      else .ok false ⟨t, events⟩ := by
  change (if t.isDirectory path then _ else _ : FileTask Bool) _ = _
  split
  · rfl
  · change (if (!t.contains path) = true then _ else _ : FileTask Bool) _ = _
    cases t.contains path <;> rfl

theorem writeText_eq_ok {text : String} {l : Logged FileTree} :
    writeText path text ⟨t, events⟩ = .ok () l ↔
      t.writeText path text = .ok l.state ∧ l.events = events := by
  rw [writeText, Task.run_state_bind]
  constructor
  · intro h
    obtain ⟨u, wrote, put⟩ := Task.ofExcept_bind_eq_ok h
    cases put
    exact ⟨wrote, rfl⟩
  · rintro ⟨wrote, rfl⟩
    exact Task.ofExcept_bind_of_ok wrote _

theorem state_of_checkOutput {b : Bool} {l : Logged FileTree}
    (h : checkOutput path ⟨t, events⟩ = .ok b l) : l.state = t := by
  rw [checkOutput_eq] at h
  split at h
  · cases h
  · split at h <;> cases h <;> rfl

/-- Where a checked output was written, the tree is the one that the write leads to. -/
theorem writeText_of_checked {text : String} {b : Bool} {l : Logged FileTree}
    (h : (do
      let overwritten ← checkOutput path
      writeText path text
      return overwritten : FileTask Bool) ⟨t, events⟩ = .ok b l) :
    t.writeText path text = .ok l.state := by
  obtain ⟨overwritten, l', checked, h⟩ := bind_eq_ok.1 h
  obtain ⟨⟨⟩, l'', written, h⟩ := bind_eq_ok.1 h
  cases h
  rw [← state_of_checkOutput checked]
  exact (writeText_eq_ok.1 written).1

/-- What is written where nothing is yet. -/
theorem written_new {name : String} (plain : FileTree.Plain name)
    (new : t.entryAt? [name] = none) (text : String) (events : List Event) : (do
      let overwritten ← checkOutput name
      writeText name text
      return overwritten : FileTask Bool) ⟨t, events⟩ =
        .ok false ⟨t.put [name] (.file text.toUTF8), events⟩ := by
  have missing := (plain.found t).trans new
  have checked : checkOutput name ⟨t, events⟩ = .ok false ⟨t, events⟩ := by
    rw [checkOutput_eq, FileTree.isDirectory, FileTree.contains, missing]
    rfl
  have written : writeText name text ⟨t, events⟩ =
      .ok () ⟨t.put [name] (.file text.toUTF8), events⟩ :=
    writeText_eq_ok.2 ⟨plain.write_new new _, rfl⟩
  rw [bind_of_ok checked, bind_of_ok written]
  rfl

theorem symbols_toUTF8 (s : String) : symbols s.toUTF8 = symbolsOf s := by
  rw [symbols, FileTree.fromUTF8?_toUTF8]

end Files

end GraphDispatch
