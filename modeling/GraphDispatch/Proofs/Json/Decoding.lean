import GraphDispatch.Json.Record
import GraphDispatch.Proofs.Json.Parsing
import GraphDispatch.Proofs.NameMap

/-!
# Decoding what was written

What a decoder makes of the text of a value, part by part: of the value that a reader keeps of the
text, or while it reads on. A record is recovered from an object with all of its fields, in whatever
order they stand.
-/

namespace GraphDispatch

namespace NameMap

variable {α : Type}

theorem entries_ofList (l : List (String × α)) :
    (ofList l).entries = l.foldl (fun es e => insertEntry e.1 e.2 es) [] := by
  have general : ∀ m : NameMap α, (l.foldl (fun m e => m.insert e.1 e.2) m).entries =
      l.foldl (fun es e => insertEntry e.1 e.2 es) m.entries := by
    induction l with
    | nil => exact fun _ => rfl
    | cons e l ih => exact fun m => ih _
  exact general ∅

theorem mem_of_mem_ofList {l : List (String × α)} {e : String × α} (h : e ∈ (ofList l).entries) :
    e ∈ l := by
  have general : ∀ es : List (String × α), e ∈ l.foldl (fun es e => insertEntry e.1 e.2 es) es →
      e ∈ l ∨ e ∈ es := by
    clear h
    induction l with
    | nil => exact fun _ h => .inr h
    | cons f l ih =>
      intro es h
      rcases ih _ h with h | h
      · exact .inl (List.mem_cons_of_mem _ h)
      · rcases mem_insertEntry h with rfl | h
        · exact .inl List.mem_cons_self
        · exact .inr h
  rw [entries_ofList] at h
  simpa using general [] h

theorem ofList_entries (m : NameMap α) : ofList m.entries = m := by
  have nodup : (m.entries.map (·.1)).Nodup := m.names_nodup
  refine ext_get? fun k => Option.ext fun a => ?_
  rw [get?_ofList_eq_some nodup, get?_eq_some_iff]

end NameMap

namespace Json

namespace Value

/-- The value that a reader keeps of the text of a value. -/
def stored (v : Value) : Value := v.reread.normal

@[simp] theorem stored_bool (b : Bool) : (bool b).stored = bool b := rfl

@[simp] theorem stored_string (s : String) : (string s).stored = string s := rfl

theorem stored_array (items : List Value) : (array items).stored = array (items.map stored) := by
  rw [stored, reread, rereadItems_eq, normal, normalItems_eq, List.map_map]
  rfl

theorem reread_array (items : List Value) : (array items).reread = array (items.map reread) := by
  rw [reread, rereadItems_eq]

theorem reread_object (fields : List (String × Value)) :
    (object fields).reread = object (fields.map fun e => (e.1, e.2.reread)) := by
  rw [reread, rereadFields_eq]

theorem stored_object (fields : List (String × Value)) : (object fields).stored =
    object (NameMap.ofList (fields.map fun e => (e.1, e.2.stored))).entries := by
  rw [stored, reread, rereadFields_eq, normal, normalFields_eq, List.map_map]
  rfl

/-- The entries of a map are in order already. -/
theorem stored_entries {α : Type} (encode : α → Value) (m : NameMap α) :
    (object (m.entries.map fun e => (e.1, encode e.2))).stored =
      object (m.entries.map fun e => (e.1, (encode e.2).stored)) := by
  have entries := congrArg NameMap.entries
    (NameMap.ofList_entries (m.mapEntries fun _ a => (encode a).stored))
  rw [stored_object, List.map_map]
  exact congrArg object entries

end Value

/-- The fields of what a reader keeps have different names. -/
theorem Value.nodup_of_normal {v : Value} {fields : List (String × Value)}
    (h : v.normal = .object fields) : (fields.map (·.1)).Nodup := by
  cases v with
  | object =>
    cases h
    exact NameMap.names_nodup _
  | null | bool | number | string | array => cases h

/-! ## Lists, maps and options -/

namespace Decoder

variable {α : Type} {decode : Decoder α} {m : Manner} {o : Outline} {a : α} {place : α → Outline}

theorem list_of_items {as : List α} (h : ∀ a ∈ as, decode m (place a) = .ok a) :
    list decode m (.array (as.map place) none) = .ok as := by
  have all : (as.map place).mapM (decode m) = .ok as := by
    induction as with
    | nil => rfl
    | cons a as ih =>
      obtain ⟨first, rest⟩ := List.forall_mem_cons.1 h
      rw [List.map_cons, List.mapM_cons, first, ih rest]
      rfl
  rw [list, all]
  rfl

theorem map_of_entries {as : NameMap α}
    (h : ∀ k a, as.get? k = some a → decode m (place a) = .ok a) :
    map decode m (.object (as.entries.map fun e => (.name e.1, place e.2)) none) = .ok as := by
  have all : ∀ l : List (String × α), (∀ e ∈ l, decode m (place e.2) = .ok e.2) →
      (l.map fun e => (Key.name e.1, place e.2)).mapM
        (fun f => do return (← Decoder.lift f.1.read, ← decode m f.2)) = .ok l := by
    intro l h
    induction l with
    | nil => rfl
    | cons e l ih =>
      obtain ⟨first, rest⟩ := List.forall_mem_cons.1 h
      rw [List.map_cons, List.mapM_cons, ih rest]
      dsimp only
      rw [first]
      rfl
  have found := all as.entries (NameMap.forall_get?_iff.1 h)
  refine (congrArg (· >>= _) found).trans ?_
  exact congrArg Except.ok as.ofList_entries

theorem option_of_present (present : o ≠ .null) (h : decode m o = .ok a) :
    option decode m o = .ok (some a) := by
  unfold option
  split
  · exact absurd rfl present
  · rw [h]
    rfl

end Decoder

/-- The decoder recovers `a` from the text of `v`. -/
def Recovers {α : Type} (decode : Decoder α) (v : Value) (a : α) : Prop :=
  decode .held v.stored.outline = .ok a

/-- The decoder gets `a` while it reads the text of `v`. -/
def Streams {α : Type} (decode : Decoder α) (v : Value) (a : α) : Prop :=
  decode .streamed v.reread.outline = .ok a

section Recovers

variable {α : Type} {decode : Decoder α} {encode : α → Value}

theorem recovers_list {as : List α} (h : ∀ a ∈ as, Recovers decode (encode a) a) :
    Recovers (Decoder.list decode) (.array (as.map encode)) as := by
  have items : ((as.map encode).map Value.stored).map Value.outline =
      as.map fun a => (encode a).stored.outline := by simp
  rw [Recovers, Value.stored_array, Value.outline, Value.itemOutlines_eq, items]
  exact Decoder.list_of_items h

theorem streams_list {as : List α} (h : ∀ a ∈ as, Streams decode (encode a) a) :
    Streams (Decoder.list decode) (.array (as.map encode)) as := by
  have items : ((as.map encode).map Value.reread).map Value.outline =
      as.map fun a => (encode a).reread.outline := by simp
  rw [Streams, Value.reread_array, Value.outline, Value.itemOutlines_eq, items]
  exact Decoder.list_of_items h

theorem recovers_map {m : NameMap α} (h : ∀ k a, m.get? k = some a → Recovers decode (encode a) a) :
    Recovers (Decoder.map decode) (.object (m.entries.map fun e => (e.1, encode e.2))) m := by
  rw [Recovers, Value.stored_entries, Value.outline, Value.fieldOutlines_eq, List.map_map]
  exact Decoder.map_of_entries h

theorem streams_map {m : NameMap α} (h : ∀ k a, m.get? k = some a → Streams decode (encode a) a) :
    Streams (Decoder.map decode) (.object (m.entries.map fun e => (e.1, encode e.2))) m := by
  rw [Streams, Value.reread_object, Value.outline, Value.fieldOutlines_eq, List.map_map,
    List.map_map]
  exact Decoder.map_of_entries h

theorem recovers_option {a : Option α}
    (h : ∀ b, a = some b → Recovers decode (encode b) b ∧ (encode b).stored ≠ .null) :
    Recovers (Decoder.option decode) ((a.map encode).getD .null) a := by
  cases a with
  | none => rfl
  | some b =>
    obtain ⟨recovered, present⟩ := h b rfl
    rw [Option.map_some, Option.getD_some]
    have looks : (encode b).stored.outline ≠ .null := by
      cases kept : (encode b).stored <;> simp_all [Value.outline]
    exact Decoder.option_of_present looks recovered

theorem recovers_word (n : UInt64) : Recovers Decoder.word (.number (.natural n)) n := by
  rw [Recovers, Value.stored, Value.reread, Number.reread, Number.reread?_natural]
  rfl

/-- A reader takes the text of the number for `x`. -/
def Number.ReadsAs (n : Number) (x : Float32) : Prop :=
  (n.reread?.bind fun m => (Decoder.single .held (.number m)).toOption) = some x

instance (n : Number) (x : Float32) : Decidable (n.ReadsAs x) :=
  inferInstanceAs (Decidable (_ = _))

theorem recovers_single {n : Number} {x : Float32} (h : n.ReadsAs x) :
    Recovers Decoder.single (.number n) x := by
  obtain ⟨m, hm, decoded⟩ := Option.bind_eq_some_iff.1 h
  rw [Recovers, Value.stored, Value.reread, Number.reread, hm]
  change Decoder.single .held (.number m) = .ok x
  cases result : Decoder.single .held (.number m) <;> simp_all [Except.toOption]

/-- A number is a whole as soon as it is read. -/
theorem Recovers.streams_number {n : Number} {a : α} (h : Recovers decode (.number n) a)
    (same : ∀ m, decode .streamed (.number m) = decode .held (.number m)) :
    Streams decode (.number n) a := (same _).trans h

theorem streams_word (n : UInt64) : Streams Decoder.word (.number (.natural n)) n :=
  (recovers_word n).streams_number fun m => by cases m <;> rfl

theorem streams_single {n : Number} {x : Float32} (h : n.ReadsAs x) :
    Streams Decoder.single (.number n) x :=
  (recovers_single h).streams_number fun m => by cases m <;> rfl

/-- The contents of a variant that is written as an object. -/
theorem streams_carrying {known : List (String × Decoder α)} {name : String} {v : Value} {a : α}
    (found : known.lookup name = some decode) (h : Streams decode v a) :
    Streams (Decoder.carrying known) (.object [(name, v)]) a := by
  have named : Decoder.named known name = .ok decode := by
    rw [Decoder.named, found]
    rfl
  change (Decoder.named known name >>= fun decode => decode .streamed v.reread.outline >>= fun a =>
    return a) = _
  rw [named]
  exact congrArg (· >>= fun a => return a) h

end Recovers

namespace Record

variable {ρ : Type} {known : List (Field ρ)} {m : Manner} {r r' a : ρ}
  {fields : List (String × Value)}

namespace Field

variable {α : Type} (decode : Decoder α) (name : String) (set : ρ → α → ρ)

@[simp] theorem name_required : (required name decode set).name = name := rfl

@[simp] theorem name_optional : (optional name decode set).name = name := rfl

@[simp] theorem isRequired_required : (required name decode set).isRequired = true := rfl

@[simp] theorem isRequired_optional : (optional name decode set).isRequired = false := rfl

variable {decode name set}

theorem put_of_recovers {v : Value} {b : α} {isRequired : Bool} (h : Recovers decode v b) :
    (ofDecoder isRequired name decode set).put .held v.stored.outline r = .ok (set r b) := by
  rw [Recovers] at h
  simp only [ofDecoder, h]
  rfl

theorem put_of_streams {v : Value} {b : α} {isRequired : Bool} (h : Streams decode v b) :
    (ofDecoder isRequired name decode set).put .streamed v.reread.outline r = .ok (set r b) := by
  rw [Streams] at h
  simp only [ofDecoder, h]
  rfl

end Field

theorem putFields_of_some {k : String} {field : Field ρ}
    (found : known.find? (·.name = k) = some field) (m : Manner) (seen : List String) (r : ρ)
    (o : Outline) (rest : List (Key × Outline)) :
    putFields known m seen r ((.name k, o) :: rest) = (do
      if k ∈ seen then throw (.repeatedField k)
      putFields known m (k :: seen) (← field.put m o r) rest) := by
  rw [putFields, show Decoder.lift (Key.name k).read = .ok k from rfl]
  dsimp only [bind, Except.bind]
  rw [found]

/-- A value without a field is skipped. -/
theorem putFields_of_none {k : String} (found : known.find? (·.name = k) = none) (m : Manner)
    (seen : List String) (r : ρ) (v : Value) (rest : List (Key × Outline)) :
    putFields known m seen r ((.name k, v.outline) :: rest) = putFields known m seen r rest := by
  rw [putFields, show Decoder.lift (Key.name k).read = .ok k from rfl]
  dsimp only [bind, Except.bind]
  rw [found]
  change (Decoder.lift v.outline.skip >>= fun _ => _) = _
  rw [Outline.skip_outline]
  rfl

/-- The fields, put in one after the other, turn `r` into `a`. -/
inductive Fills (m : Manner) (known : List (Field ρ)) : ρ → List (String × Value) → ρ → Prop
  | nil (r : ρ) : Fills m known r [] r
  | cons {r r' a : ρ} {k : String} {v : Value} {rest : List (String × Value)} {field : Field ρ}
      (found : known.find? (·.name = k) = some field)
      (put : field.put m v.outline r = .ok r') :
      Fills m known r' rest a → Fills m known r ((k, v) :: rest) a

theorem Fills.putFields (h : Fills m known r fields a) (seen : List String)
    (distinct : (seen ++ fields.map (·.1)).Nodup) :
    Record.putFields known m seen r (fields.map fun e => (.name e.1, e.2.outline)) =
      .ok ((fields.map (·.1)).reverse ++ seen, a) := by
  induction h generalizing seen with
  | nil => rfl
  | @cons r r' a k v rest field found put _ ih =>
    have fresh : k ∉ seen := fun mem => (List.nodup_append.1 distinct).2.2 k mem k (by simp) rfl
    have later : ((k :: seen) ++ rest.map (·.1)).Nodup := List.perm_middle.nodup_iff.1 distinct
    rw [List.map_cons, putFields_of_some found, if_neg fresh, put]
    exact (ih _ later).trans (by simp)

theorem ofObject_of_putFields {m : Manner} {seen : List String} {outlines : List (Key × Outline)}
    (put : putFields known m [] r outlines = .ok (seen, a))
    (complete : ∀ field ∈ known, field.isRequired = true → field.name ∈ seen) :
    ofObject known m r outlines none = .ok a := by
  have nothing : known.find? (fun field => field.isRequired && !seen.contains field.name) =
      none := by simpa using complete
  rw [ofObject, put, show Decoder.lift (close none) = .ok () from rfl]
  dsimp only [bind, Except.bind]
  rw [nothing]
  rfl

theorem Fills.ofObject (h : Fills m known r fields a) (distinct : (fields.map (·.1)).Nodup)
    (complete : ∀ field ∈ known, field.isRequired = true → field.name ∈ fields.map (·.1)) :
    Record.ofObject known m r (Value.fieldOutlines fields) none = .ok a := by
  have put := h.putFields [] distinct
  rw [Value.fieldOutlines_eq]
  refine ofObject_of_putFields put ?_
  simpa using complete

/-- A record is recovered from an object with all the fields that it requires. -/
theorem Fills.recovers {v : Value} (h : Fills .held known r fields a)
    (stored : v.stored = .object fields)
    (complete : ∀ field ∈ known, field.isRequired = true → field.name ∈ fields.map (·.1))
    (type : String) : Recovers (Record.decode type r known) v a := by
  rw [Recovers, stored]
  exact h.ofObject (Value.nodup_of_normal stored) complete

/-- While it is read, an object must not repeat a field. -/
theorem Fills.streams {v : Value} (h : Fills .streamed known r fields a)
    (reread : v.reread = .object fields) (distinct : (fields.map (·.1)).Nodup)
    (complete : ∀ field ∈ known, field.isRequired = true → field.name ∈ fields.map (·.1))
    (type : String) : Streams (Record.decode type r known) v a := by
  rw [Streams, reread]
  exact h.ofObject distinct complete

/-! ## Fields that a record does not take -/

def names (known : List (Field ρ)) : List String := known.map (·.name)

theorem find?_eq_none_iff {k : String} : known.find? (·.name = k) = none ↔ k ∉ names known := by
  simp [names, List.find?_eq_none]

/-- The fields without those that the record does not take, with changes to the others. -/
def pruned (known : List (Field ρ)) (change : String → Value → Value)
    (fields : List (String × Value)) : List (String × Value) :=
  (fields.filter fun e => e.1 ∈ names known).map fun e => (e.1, change e.1 e.2)

/-- No field tells the changed value from the value. -/
def Unseen (known : List (Field ρ)) (change : String → Value → Value) : Prop :=
  ∀ field ∈ known, ∀ v r,
    field.put .held (change field.name v).outline r = field.put .held v.outline r

theorem putFields_pruned {change : String → Value → Value} (unseen : Unseen known change)
    (fields : List (String × Value)) (seen : List String) (r : ρ) :
    putFields known .held seen r (Value.fieldOutlines (pruned known change fields)) =
      putFields known .held seen r (Value.fieldOutlines fields) := by
  induction fields generalizing seen r with
  | nil => rfl
  | cons e rest ih =>
    obtain ⟨k, v⟩ := e
    cases found : known.find? (·.name = k) with
    | none =>
      have dropped : pruned known change ((k, v) :: rest) = pruned known change rest := by
        simp [pruned, find?_eq_none_iff.1 found]
      rw [dropped, ih, Value.fieldOutlines, putFields_of_none found]
    | some field =>
      have own : field.name = k := by simpa using List.find?_some found
      have mem := List.mem_of_find?_eq_some found
      have present : k ∈ names known := own ▸ List.mem_map_of_mem mem
      have taken : pruned known change ((k, v) :: rest) =
          (k, change k v) :: pruned known change rest := by simp [pruned, present]
      have same := unseen field mem v r
      rw [own] at same
      rw [taken, Value.fieldOutlines, Value.fieldOutlines, putFields_of_some found,
        putFields_of_some found, same]
      simp only [ih]

theorem decode_pruned {change : String → Value → Value} (unseen : Unseen known change)
    (type : String) (r : ρ) (fields : List (String × Value)) :
    decode type r known .held (Value.object (pruned known change fields)).outline =
      decode type r known .held (Value.object fields).outline := by
  change ofObject known .held r _ none = ofObject known .held r _ none
  rw [ofObject, ofObject, putFields_pruned unseen]

/-- Fields that a record does not take have no influence. -/
theorem decode_filter (type : String) (r : ρ) (fields : List (String × Value)) :
    decode type r known .held
        (Value.object (fields.filter fun e => e.1 ∈ names known)).outline =
      decode type r known .held (Value.object fields).outline := by
  have unchanged : pruned known (fun _ v => v) fields =
      fields.filter fun e => e.1 ∈ names known := List.map_id _
  rw [← unchanged]
  exact decode_pruned (fun _ _ _ _ => rfl) type r fields

end Record

end Json

end GraphDispatch
