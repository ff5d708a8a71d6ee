import GraphDispatch.Proofs.Json.Printing

/-!
# Reading the texts of values

The tokens of a value lead from a place where a value may begin to what comes behind its outline,
as far as arrays and objects may be nested. So the text of a value is read as that value, with its
numbers as a reader takes them.
-/

namespace GraphDispatch.Json

namespace Outline

variable {above : List Frame}

/-- Where tokens lead. -/
def advance (s : State) (ts : List Token) : State := (ts.map .token).foldl step s

theorem advance_cons (s : State) (t : Token) (ts : List Token) :
    advance s (t :: ts) = advance (step s (.token t)) ts := rfl

theorem advance_append (s : State) (ts ts' : List Token) :
    advance s (ts ++ ts') = advance (advance s ts) ts' := by
  rw [advance, List.map_append, List.foldl_append]
  rfl

/-- The value can stand in this place. -/
def Fits (v : Value) (above : List Frame) : Prop := v.depth + depthIn above ≤ depthLimit + 1

/-- The tokens of the value lead behind it, wherever it fits. -/
def Parsed (v : Value) : Prop :=
  ∀ above, Fits v above → advance (.value above) v.tokens = deliver v.outline above

theorem fits_of_items {items : List Value} (h : Fits (.array items) above) (done : List Outline) :
    ∀ v ∈ items, Fits v (.array (depthIn above) done :: above) := by
  have inside : Value.itemsDepth items + (depthIn above + 1) ≤ depthLimit + 1 := by
    simp only [Fits, Value.depth] at h
    omega
  intro v hv
  have bound := Value.itemsDepth_le.1 (Nat.le_refl _) v hv
  exact Nat.le_trans (Nat.add_le_add_right bound _) inside

theorem fits_of_fields {fields : List (String × Value)} (h : Fits (.object fields) above)
    (done : List (Key × Outline)) (key : Key) :
    ∀ e ∈ fields, Fits e.2 (.object (depthIn above) done key :: above) := by
  have inside : Value.fieldsDepth fields + (depthIn above + 1) ≤ depthLimit + 1 := by
    simp only [Fits, Value.depth] at h
    omega
  intro e he
  have bound := Value.fieldsDepth_le.1 (Nat.le_refl _) e he
  exact Nat.le_trans (Nat.add_le_add_right bound _) inside

theorem nested_of_fits {v : Value} (h : Fits v above) (compound : 0 < v.depth) (o : Outline)
    (stop : Option Fault) : nested (depthIn above) o stop = o := by
  refine if_pos ?_
  simp only [Fits] at h
  omega

theorem advance_items {items : List Value} (parsed : ∀ v ∈ items, Parsed v)
    (fits : ∀ done, ∀ v ∈ items, Fits v (.array (depthIn above) done :: above))
    (nonempty : items ≠ []) (done : List Outline) :
    advance (.value (.array (depthIn above) done :: above)) (Value.itemTokens items) =
      .afterItem ((items.map Value.outline).reverse ++ done) above := by
  induction items generalizing done with
  | nil => exact absurd rfl nonempty
  | cons v rest ih =>
    obtain ⟨first, others⟩ := List.forall_mem_cons.1 parsed
    have leads := first _ (fits done v List.mem_cons_self)
    cases rest with
    | nil => exact leads
    | cons w rest =>
      have next := ih others (fun done w hw => fits done w (List.mem_cons_of_mem _ hw)) (by simp)
        (v.outline :: done)
      rw [Value.itemTokens, advance_append, leads, advance_cons, List.map_cons, List.reverse_cons,
        List.append_assoc]
      · exact next
      · simp

theorem advance_fields {fields : List (String × Value)} (parsed : ∀ e ∈ fields, Parsed e.2)
    (fits : ∀ done key, ∀ e ∈ fields, Fits e.2 (.object (depthIn above) done key :: above))
    (nonempty : fields ≠ []) (done : List (Key × Outline)) :
    advance (.nextKey done above) (Value.fieldTokens fields) =
      .afterField ((fields.map fun e => (.name e.1, e.2.outline)).reverse ++ done) above := by
  induction fields generalizing done with
  | nil => exact absurd rfl nonempty
  | cons e rest ih =>
    obtain ⟨first, others⟩ := List.forall_mem_cons.1 parsed
    have leads := first _ (fits done (.name e.1) e List.mem_cons_self)
    cases rest with
    | nil => exact leads
    | cons e' rest =>
      have next := ih others (fun done key f hf => fits done key f (List.mem_cons_of_mem _ hf))
        (by simp) ((.name e.1, e.2.outline) :: done)
      rw [Value.fieldTokens, List.cons_append, List.cons_append, advance_cons, advance_cons,
        advance_append]
      · change advance (advance (.value (.object _ done (.name e.1) :: above)) e.2.tokens) _ = _
        rw [leads, advance_cons, List.map_cons, List.reverse_cons, List.append_assoc]
        exact next
      · simp

/-- The first item of an array may stand wherever a value may. -/
theorem advance_firstItem {items : List Value} (nonempty : items ≠ []) :
    advance (.firstItem above) (Value.itemTokens items) =
      advance (.value (.array (depthIn above) [] :: above)) (Value.itemTokens items) := by
  obtain ⟨v, rest, rfl⟩ := List.exists_cons_of_ne_nil nonempty
  have leads : ∀ ts, advance (.firstItem above) (v.tokens ++ ts) =
      advance (.value (.array (depthIn above) [] :: above)) (v.tokens ++ ts) := by
    intro ts
    cases v <;> rfl
  cases rest with
  | nil => simpa [Value.itemTokens] using leads []
  | cons w rest => exact leads _

theorem advance_firstKey {fields : List (String × Value)} (nonempty : fields ≠ []) :
    advance (.firstKey above) (Value.fieldTokens fields) =
      advance (.nextKey [] above) (Value.fieldTokens fields) := by
  obtain ⟨e, rest, rfl⟩ := List.exists_cons_of_ne_nil nonempty
  cases rest <;> rfl

theorem parsed (v : Value) : Parsed v := by
  induction v using Value.induction with
  | null | bool | number | string => exact fun _ _ => rfl
  | array items ih =>
    intro above fits
    have whole := nested_of_fits fits (by simp [Value.depth])
    rw [Value.tokens, advance_cons, advance_append, Value.outline, Value.itemOutlines_eq]
    change advance (advance (.firstItem above) _) _ = _
    by_cases empty : items = []
    · subst empty
      exact congrArg (deliver · above) (whole _ _)
    · rw [advance_firstItem empty, advance_items ih (fits_of_items fits) empty, List.append_nil]
      change deliver (nested _ (.array (items.map Value.outline).reverse.reverse none) _) _ = _
      rw [whole, List.reverse_reverse]
  | object fields ih =>
    intro above fits
    have whole := nested_of_fits fits (by simp [Value.depth])
    rw [Value.tokens, advance_cons, advance_append, Value.outline, Value.fieldOutlines_eq]
    change advance (advance (.firstKey above) _) _ = _
    by_cases empty : fields = []
    · subst empty
      exact congrArg (deliver · above) (whole _ _)
    · rw [advance_firstKey empty, advance_fields ih (fits_of_fields fits) empty, List.append_nil]
      change deliver (nested _ (.object (fields.map _).reverse.reverse none) _) _ = _
      rw [whole, List.reverse_reverse]

end Outline

namespace Value

open Lexer

theorem itemTokens_reread {items : List Value}
    (h : ∀ v ∈ items, v.reread.tokens = v.tokens.map Token.reread) :
    itemTokens (items.map reread) = (itemTokens items).map Token.reread := by
  induction items with
  | nil => rfl
  | cons v rest ih =>
    obtain ⟨first, others⟩ := List.forall_mem_cons.1 h
    cases rest with
    | nil => exact first
    | cons w rest =>
      have rest := ih others
      simp only [List.map_cons, itemTokens, List.map_append] at rest ⊢
      rw [first, rest]
      rfl

theorem fieldTokens_reread {fields : List (String × Value)}
    (h : ∀ e ∈ fields, e.2.reread.tokens = e.2.tokens.map Token.reread) :
    fieldTokens (fields.map fun e => (e.1, e.2.reread)) =
      (fieldTokens fields).map Token.reread := by
  induction fields with
  | nil => rfl
  | cons e rest ih =>
    obtain ⟨first, others⟩ := List.forall_mem_cons.1 h
    cases rest with
    | nil => simp [fieldTokens, first, Token.reread]
    | cons e' rest =>
      have rest := ih others
      simp only [List.map_cons, fieldTokens, List.map_append] at rest ⊢
      rw [first, rest]
      rfl

theorem tokens_reread (v : Value) : v.reread.tokens = v.tokens.map Token.reread := by
  induction v using induction with
  | null | bool | number | string => rfl
  | array items ih =>
    rw [reread, rereadItems_eq, tokens, tokens, itemTokens_reread ih]
    simp [Token.reread]
  | object fields ih =>
    rw [reread, rereadFields_eq, tokens, tokens, fieldTokens_reread ih]
    simp [Token.reread]

theorem depth_reread (v : Value) : v.reread.depth = v.depth := by
  induction v using induction with
  | null | bool | number | string => rfl
  | array items ih =>
    have same : itemsDepth (rereadItems items) = itemsDepth items := by
      induction items with
      | nil => rfl
      | cons v rest ih' =>
        obtain ⟨first, others⟩ := List.forall_mem_cons.1 ih
        rw [rereadItems, itemsDepth, itemsDepth, first, ih' others]
    rw [reread, depth, depth, same]
  | object fields ih =>
    have same : fieldsDepth (rereadFields fields) = fieldsDepth fields := by
      induction fields with
      | nil => rfl
      | cons e rest ih' =>
        obtain ⟨first, others⟩ := List.forall_mem_cons.1 ih
        rw [rereadFields, fieldsDepth, fieldsDepth, first, ih' others]
    rw [reread, depth, depth, same]

/-- Every number of the value is one for a reader too. -/
def Readable (v : Value) : Prop := ∀ t ∈ v.tokens, t.Readable

theorem readable_number {n : Number} : (number n).Readable ↔ n.reread?.isSome := by
  simp [Readable, tokens, Token.Readable]

theorem readable_array {items : List Value} :
    (array items).Readable ↔ ∀ v ∈ items, v.Readable := by
  have inside : (∀ t ∈ itemTokens items, t.Readable) ↔ ∀ v ∈ items, v.Readable := by
    induction items with
    | nil => simp [itemTokens]
    | cons v rest ih =>
      cases rest with
      | nil => simp [itemTokens, Readable]
      | cons =>
        rw [itemTokens, List.forall_mem_append, List.forall_mem_cons, ih, List.forall_mem_cons]
        · simp [Readable, Token.Readable]
        · simp
  rw [← inside, Readable, tokens, List.forall_mem_cons, List.forall_mem_append,
    List.forall_mem_singleton]
  exact ⟨fun h => h.2.1, fun h => ⟨trivial, h, trivial⟩⟩

theorem readable_object {fields : List (String × Value)} :
    (object fields).Readable ↔ ∀ e ∈ fields, e.2.Readable := by
  have inside : (∀ t ∈ fieldTokens fields, t.Readable) ↔ ∀ e ∈ fields, e.2.Readable := by
    induction fields with
    | nil => simp [fieldTokens]
    | cons e rest ih =>
      cases rest with
      | nil => simp [fieldTokens, Readable, Token.Readable]
      | cons =>
        rw [fieldTokens, List.cons_append, List.cons_append, List.forall_mem_cons,
          List.forall_mem_cons, List.forall_mem_append, List.forall_mem_cons, ih,
          List.forall_mem_cons]
        · simp [Readable, Token.Readable]
        · simp
  rw [← inside, Readable, tokens, List.forall_mem_cons, List.forall_mem_append,
    List.forall_mem_singleton]
  exact ⟨fun h => h.2.1, fun h => ⟨trivial, h, trivial⟩⟩

/-- A reader gets the value from its text, in which arrays and objects stand inside each other
`n` times at most. -/
def Legible (n : Nat) (v : Value) : Prop := v.Readable ∧ v.depth ≤ n

section Legible

variable {n : Nat}

theorem Legible.mono {v : Value} {m : Nat} (h : v.Legible n) (le : n ≤ m) : v.Legible m :=
  ⟨h.1, Nat.le_trans h.2 le⟩

@[simp] theorem legible_null : null.Legible n := by
  simp [Legible, Readable, tokens, Token.Readable, depth]

@[simp] theorem legible_bool (b : Bool) : (bool b).Legible n := by
  simp [Legible, Readable, tokens, Token.Readable, depth]

@[simp] theorem legible_string (s : String) : (string s).Legible n := by
  simp [Legible, Readable, tokens, Token.Readable, depth]

@[simp] theorem legible_natural (k : UInt64) : (number (.natural k)).Legible n := by
  simp [Legible, readable_number, Number.reread?_natural, depth]

theorem legible_number {m : Number} : (number m).Legible n ↔ m.reread?.isSome := by
  simp [Legible, readable_number, depth]

theorem legible_array {items : List Value} :
    (array items).Legible (n + 1) ↔ ∀ v ∈ items, v.Legible n := by
  simp only [Legible, readable_array, depth_array_le]
  exact ⟨fun h v hv => ⟨h.1 v hv, h.2 v hv⟩,
    fun h => ⟨fun v hv => (h v hv).1, fun v hv => (h v hv).2⟩⟩

theorem legible_object {fields : List (String × Value)} :
    (object fields).Legible (n + 1) ↔ ∀ e ∈ fields, e.2.Legible n := by
  simp only [Legible, readable_object, depth_object_le]
  exact ⟨fun h e he => ⟨h.1 e he, h.2 e he⟩,
    fun h => ⟨fun e he => (h e he).1, fun e he => (h e he).2⟩⟩

end Legible

/-- A text that spells out the tokens of a value has its outline. -/
theorem outline_of_spells {v : Value} {text : List Symbol} (spelled : Spells v.tokens text)
    (legible : v.Legible Outline.depthLimit) :
    Outline.ofSymbols text = (v.reread.outline, none) := by
  have found : lexemes text = v.reread.tokens.map .token := by
    rw [tokens_reread, List.map_map]
    exact lexemes_of_spells spelled legible.1
  have fits : Outline.Fits v.reread [] := by
    rw [Outline.Fits, depth_reread]
    exact Nat.add_le_add_right legible.2 1
  have leads := Outline.parsed v.reread [] fits
  rw [Outline.ofSymbols, found]
  change (Outline.State.halt _ (Outline.advance _ _),
    Outline.State.rest (Outline.advance _ _)) = _
  rw [leads]
  rfl

/-- The text of a value is read as the value. -/
theorem ofSymbols_indented {v : Value} (legible : v.Legible Outline.depthLimit) (width : Nat) :
    ofSymbols (symbolsOf (v.indented width)) = .ok v.reread := by
  have outlined := outline_of_spells (spells_pieces width 0 v.tokens_chain) legible
  rw [ofSymbols, indented, indentedText, outlined]
  change (do
    let v ← v.reread.outline.value
    close none
    return v) = _
  rw [Outline.value_outline]
  rfl

end Value

end GraphDispatch.Json
