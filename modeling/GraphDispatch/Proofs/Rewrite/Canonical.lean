import GraphDispatch.Proofs.Rewrite.Flaws
import GraphDispatch.Proofs.Rewrite.Supplied

/-!
# Canonical casts, slices and clips

What the operations of a type have become after the pass over them.
-/

namespace GraphDispatch.Rewrite

open GraphDispatch.Graph

variable {α : Type} {g g' : Graph α} {op : String}

section Casts

/-- The target of a cast is the name of a type. -/
def Named (o : Operation α) : Prop := ∃ t, castTarget o = .ok t ∧ namesType o t = true

theorem named_of_name {o : Operation α} (t : DataType)
    (h : o.attributes.get? "to" = some (.string t.name)) : Named o := by
  refine ⟨t, ?_, ?_⟩
  · simp only [castTarget, h, DataType.ofName?_name]
    rfl
  · simp [namesType, h, Attribute.asString?]

/-- The type that an attribute stands for, by its code or by one of its names. -/
inductive Denotes : Attribute α → DataType → Prop where
  | code {n t} : DataType.ofCode? n = some t → Denotes (.int n) t
  | name {s t} : DataType.ofName? s = some t → Denotes (.string s) t

/-- What becomes of a cast. The target stays the same, told by the name of the type. -/
def Respelled (o o' : Operation α) : Prop :=
  ∃ a t, o.attributes.get? "to" = some a ∧ Denotes a t ∧
    o' = { o with attributes := o.attributes.insert "to" (.string t.name) }

theorem Respelled.named {o o' : Operation α} (h : Respelled o o') : Named o' := by
  obtain ⟨_, t, -, -, rfl⟩ := h
  exact named_of_name t (NameMap.get?_insert_self ..)

theorem denotes_of_castTarget {o : Operation α} {t : DataType} (h : castTarget o = .ok t) :
    ∃ a, o.attributes.get? "to" = some a ∧ Denotes a t := by
  unfold castTarget at h
  split at h
  case h_1 target =>
    split at h <;> cases h
    exact ⟨_, target, .code ‹_›⟩
  case h_2 target =>
    split at h <;> cases h
    exact ⟨_, target, .name ‹_›⟩
  case h_3 => cases h
  case h_4 => cases h

theorem name_of_namesType {o : Operation α} {t : DataType} (h : namesType o t = true) :
    o.attributes.get? "to" = some (.string t.name) := by
  have text : (o.attributes.get? "to").bind (·.asString?) = some t.name := of_decide_eq_true h
  obtain ⟨a, ha, name⟩ := Option.bind_eq_some_iff.1 text
  cases a <;> cases name
  exact ha

theorem nameTarget_decided {o : Operation α} (hg : g.Linked) (ho : g.getOperation? op = some o) :
    Decided (nameTarget op) g (Flawed o .casts) fun g' => Becomes g g' op (Respelled o) := by
  unfold nameTarget
  refine .getOperation_bind ho (.ofExcept_bind (fun _ => castTarget_eq_error.1) fun t target => ?_)
  obtain ⟨a, ha, denotes⟩ := denotes_of_castTarget target
  refine .inr ⟨fun e flaw => ?_, ?_⟩
  · cases target.symm.trans (castTarget_eq_error.2 flaw)
  · split
    · rename_i names
      refine Task.leads_pure (.refl hg ho ⟨a, t, ha, denotes, ?_⟩)
      rw [NameMap.insert_eq_self (name_of_namesType names)]
    · refine ((setAttribute_refits "to" _).leads hg (mem_operations_iff.2 ⟨o, ho⟩)).bind
        fun _ g' refit => Task.leads_pure (refit.becomes ho fun o' equipped => ?_)
      exact ⟨a, t, ha, denotes, equipped.eq_of_nil⟩

theorem casts_ensures (hg : g.Linked) :
    Task.Ensures casts g fun _ g' => Passing "Cast" (fun _ => Respelled) g [] g' :=
  countChanges_supplied _ hg (fun _ _ _ _ s _ ho => (nameTarget_decided s.linked ho).ensures)
    fun _ _ _ _ _ _ _ _ _ respelled => respelled

end Casts

section Slices

/-- The bounds of a slice are inputs, or it is not known how many there are. -/
def Bounded (g : Graph α) (o : Operation α) : Prop :=
  hasBoundAttributes o = false ∧
    (o.inputs.length = 3 ∨ o.inputs.length = 4 → sliceRank g o = none)

theorem sliceRank_eq (g : Graph α) (o : Operation α) : sliceRank g o =
    ((g.content.declarations.get? (o.inputs.getD 1 "")).bind (·.value)).map Tensor.size := by
  rw [sliceRank, get?_declarations, Option.bind_map]
  rfl

theorem Bounded.transfer {o : Operation α} (bounded : Bounded g o)
    (same : ∀ var ∈ o.inputs,
      g'.content.declarations.get? var = g.content.declarations.get? var) : Bounded g' o := by
  refine ⟨bounded.1, fun slots => ?_⟩
  have inside : 1 < o.inputs.length := by omega
  have read : o.inputs.getD 1 "" ∈ o.inputs := by
    rw [List.getD_eq_getElem?_getD, List.getElem?_eq_getElem inside, Option.getD_some]
    exact List.getElem_mem inside
  rw [← bounded.2 slots, sliceRank_eq, sliceRank_eq, same _ read]

theorem Supplied.bounded {ops : String → Prop} {o : Operation α} (hg : g.Linked)
    (s : Supplied g g' ops) (ho : g.getOperation? op = some o) (bounded : Bounded g o) :
    Bounded g' o :=
  bounded.transfer fun var hvar => s.declarations var (hg.input_known ho hvar)

/-- What becomes of a slice. The bounds that its attributes give, or those that a starting input
with a value leaves open, become parameters. -/
inductive Sliced (g g' : Graph α) (o : Operation α) : Operation α → Prop where
  | attributes {b o'} : Gives o b → Equipped g g' (["starts", "ends", "axes"].foldl NameMap.erase)
      [.intVector b.starts, .intVector b.ends, .intVector b.axes,
        .intVector (List.replicate b.starts.length 1)] o o' → Sliced g g' o o'
  | axes {x starts ends t axes o'} : hasBoundAttributes o = false → o.inputs = [x, starts, ends] →
    (g.getVariable? starts).bind (·.value) = some t → Counts axes t.size → Equipped g g' id
      [.intVector axes, .intVector (List.replicate t.size 1)] o o' → Sliced g g' o o'
  | steps {x starts ends axes t o'} : hasBoundAttributes o = false →
    o.inputs = [x, starts, ends, axes] → (g.getVariable? starts).bind (·.value) = some t →
    Equipped g g' id [.intVector (List.replicate t.size 1)] o o' → Sliced g g' o o'
  | kept : hasBoundAttributes o = false → (∀ x starts rest, o.inputs = x :: starts :: rest →
      rest.length = 1 ∨ rest.length = 2 → (g.getVariable? starts).bind (·.value) = none) →
    Sliced g g' o o

theorem sliceRank_of_inputs {o : Operation α} {x starts : String} {rest : List String}
    (inputs : o.inputs = x :: starts :: rest) :
    sliceRank g o = ((g.getVariable? starts).bind (·.value)).map Tensor.size := by
  rw [sliceRank, inputs]
  rfl

theorem Bounded.of_five {o : Operation α} (unbound : hasBoundAttributes o = false)
    (five : o.inputs.length = 5) : Bounded g o := ⟨unbound, fun slots => by omega⟩

theorem Sliced.bounded {ops : String → Prop} {o o' : Operation α} (hg : g.Linked)
    (s : Supplied g g' ops) (ho : g.getOperation? op = some o) (sliced : Sliced g g' o o') :
    Bounded g' o' := by
  cases sliced with
  | attributes gives equipped =>
    refine .of_five ?_ (by rw [equipped.length_inputs, gives.slots]; rfl)
    rw [hasBoundAttributes, equipped.attributes]
    simp [NameMap.contains, NameMap.get?_erase]
  | axes unbound inputs _ _ equipped =>
    refine .of_five ?_ (by rw [equipped.length_inputs, inputs]; rfl)
    rw [hasBoundAttributes, equipped.attributes]
    exact unbound
  | steps unbound inputs _ equipped =>
    refine .of_five ?_ (by rw [equipped.length_inputs, inputs]; rfl)
    rw [hasBoundAttributes, equipped.attributes]
    exact unbound
  | kept unbound none =>
    refine s.bounded hg ho ⟨unbound, fun slots => ?_⟩
    rcases inputs : o.inputs with _ | ⟨x, _ | ⟨starts, rest⟩⟩
    case cons.cons =>
      rw [sliceRank_of_inputs inputs, none x starts rest inputs, Option.map_none]
      simpa [inputs] using slots
    all_goals simp [inputs] at slots

theorem appendBounds_refits (b : Bounds) : Refits (α := α) (appendBounds op b) op
    (["starts", "ends", "axes"].foldl NameMap.erase)
    [.intVector b.starts, .intVector b.ends, .intVector b.axes, .intVector b.steps] :=
  (removeAttributes_refits _).bind <| (appendParameter_refits _ _).bind <|
    (appendParameter_refits _ _).bind <| (appendParameter_refits _ _).bind <|
    appendParameter_refits _ _

theorem completeSlice_decided {o : Operation α} (hg : g.Linked)
    (ho : g.getOperation? op = some o) :
    Decided (completeSlice op) g (Flawed o .slices) fun g' => Becomes g g' op (Sliced g g' o) := by
  have hop := mem_operations_iff.2 ⟨o, ho⟩
  unfold completeSlice
  refine .getOperation_bind ho ?_
  dsimp only
  split
  · rename_i bound
    rcases readBounds_cases bound with ⟨b, read, gives⟩ | ⟨e, read, flaw⟩
    · rw [read]
      refine .inr ⟨gives.sound, Task.leads_ofExcept_bind ?_⟩
      exact ((appendBounds_refits b).leads hg hop).bind fun _ g' refit =>
        Task.leads_pure (refit.becomes ho fun o' => .attributes gives)
    · rw [read]
      exact .inl ⟨e, flaw, fun _ => rfl⟩
  · rename_i unbound
    have unbound : hasBoundAttributes o = false := by simpa using unbound
    refine .inr ⟨sound_of_unbound unbound, ?_⟩
    split
    · rename_i other
      refine Task.leads_pure (.refl hg ho (.kept unbound fun x starts rest inputs slots => ?_))
      simp [inputs] at other
      omega
    · rename_i slots
      apply Task.leads_state_bind
      rcases inputs : o.inputs with _ | ⟨x, _ | ⟨starts, rest⟩⟩
      case cons.cons =>
        rw [sliceRank_of_inputs inputs]
        cases value : (g.getVariable? starts).bind (·.value) with
        | none =>
          refine Task.leads_pure (.refl hg ho (.kept unbound fun _ _ _ inputs' _ => ?_))
          cases inputs.symm.trans inputs'
          exact value
        | some t =>
          rcases rest with _ | ⟨ends, _ | ⟨axes, _ | ⟨_, _⟩⟩⟩
          case cons.nil =>
            exact (((appendParameter_refits _ _).bind (appendParameter_refits _ _)).leads hg
              hop).bind fun _ g' refit =>
                Task.leads_pure (refit.becomes ho fun o' =>
                  .axes unbound inputs value (firstAxes_counts _))
          case cons.cons.nil =>
            exact ((appendParameter_refits _ _).leads hg hop).bind fun _ g' refit =>
              Task.leads_pure (refit.becomes ho fun o' => .steps unbound inputs value)
          all_goals simp [inputs] at slots
      all_goals simp [inputs] at slots

namespace Sliced

variable {h : Graph α} {o o' : Operation α}

theorem earlier (hg : g.Linked) (kept : g.KeepsVariables h) (ho : g.getOperation? op = some o)
    (sliced : Sliced h g' o o') : Sliced g g' o o' := by
  have same : ∀ {x starts rest}, o.inputs = x :: starts :: rest →
      h.getVariable? starts = g.getVariable? starts :=
    fun inputs => kept _ (hg.input_known ho (by simp [inputs]))
  have known : ∀ var ∈ g.vars, var ∈ h.vars := fun _ => kept.known
  cases sliced with
  | attributes gives equipped => exact .attributes gives (equipped.earlier known)
  | axes unbound inputs value counts equipped =>
    exact .axes unbound inputs (same inputs ▸ value) counts (equipped.earlier known)
  | steps unbound inputs value equipped =>
    exact .steps unbound inputs (same inputs ▸ value) (equipped.earlier known)
  | kept unbound none =>
    exact .kept unbound fun x starts rest inputs slots =>
      same inputs ▸ none x starts rest inputs slots

theorem later (sliced : Sliced g h o o') (kept : h.KeepsVariables g') : Sliced g g' o o' := by
  cases sliced with
  | attributes gives equipped => exact .attributes gives (equipped.later kept)
  | axes unbound inputs value counts equipped =>
    exact .axes unbound inputs value counts (equipped.later kept)
  | steps unbound inputs value equipped =>
    exact .steps unbound inputs value (equipped.later kept)
  | kept unbound none => exact .kept unbound none

end Sliced

theorem slices_ensures (hg : g.Linked) :
    Task.Ensures slices g fun _ g' => Passing "Slice" (Sliced g) g [] g' := by
  refine countChanges_supplied _ hg (fun h _ op o s original ho => ?_) ?_
  · exact ((completeSlice_decided s.linked ho).mono fun h' became =>
      became.mono fun o' => Sliced.earlier hg (s.keepsVariables hg) original).ensures
  · exact fun h h' _ n o o' linked s _ sliced => sliced.later (s.keepsVariables linked)

end Slices

section Clips

variable [Scalar α]

/-- What a clip has become: it has no bounds as attributes, and more inputs if it had too few. -/
def Limited (o o' : Operation α) : Prop :=
  hasLimitAttributes o' = false ∧ (3 ≤ o.inputs.length ∨ o.inputs.length < o'.inputs.length)

/-- A clip that has had an input has three of them. -/
def Filled (o o' : Operation α) : Prop := 0 < o.inputs.length → 3 ≤ o'.inputs.length

/-- The bound that an attribute gives, or else the default. -/
inductive Limit (o : Operation α) (key : String) (default : α) : α → Prop where
  | float {x} : o.attributes.get? key = some (.float x) → Limit o key default x
  | int {n} : o.attributes.get? key = some (.int n) → Limit o key default (Scalar.ofInt n)
  | missing : (∀ x, o.attributes.get? key ≠ some (.float x)) →
    (∀ n, o.attributes.get? key ≠ some (.int n)) → Limit o key default default

theorem limit_limit (o : Operation α) (key : String) (default : α) :
    Limit o key default (limit o key default) := by
  unfold limit
  cases h : o.attributes.get? key with
  | none => exact .missing (by simp [h]) (by simp [h])
  | some a =>
    cases a with
    | float x => exact .float h
    | int n => exact .int h
    | _ => exact .missing (by simp [h]) (by simp [h])

omit [Scalar α] in
theorem absent_of_unlimited {o : Operation α} (unlimited : hasLimitAttributes o = false) :
    "min" ∉ o.attributes ∧ "max" ∉ o.attributes := by
  simpa [hasLimitAttributes] using unlimited

theorem limit_of_absent {o : Operation α} {key : String} {default : α} (h : key ∉ o.attributes) :
    limit o key default = default := by
  rw [limit, NameMap.get?_eq_none_iff.2 h]
  rfl

/-- What becomes of a clip. Behind its input come both bounds, behind an input and the lower bound
comes the greatest element. A clip that reads nothing gets the greatest element alone. -/
inductive Clipped (g g' : Graph α) (o : Operation α) : Operation α → Prop where
  | attributes {x min max o'} : o.inputs = [x] → Limit o "min" Scalar.lowest min →
    Limit o "max" Scalar.greatest max →
    Equipped g g' (["min", "max"].foldl NameMap.erase) [.scalar min, .scalar max] o o' →
    Clipped g g' o o'
  | max {o'} : hasLimitAttributes o = false → o.inputs.length = 0 ∨ o.inputs.length = 2 →
    Equipped g g' id [.scalar Scalar.greatest] o o' → Clipped g g' o o'
  | kept : hasLimitAttributes o = false → 3 ≤ o.inputs.length → Clipped g g' o o

theorem appendLimits_refits (o : Operation α) : Refits (appendLimits o) o.name
    (["min", "max"].foldl NameMap.erase) (if o.inputs.length = 1 then
      [.scalar (limit o "min" Scalar.lowest), .scalar (limit o "max" Scalar.greatest)]
      else [.scalar (limit o "max" Scalar.greatest)]) := by
  unfold appendLimits
  split
  · exact (removeAttribute_refits _).bind <| (removeAttribute_refits _).bind <|
      (appendParameter_refits _ _).bind <| appendParameter_refits _ _
  · exact (removeAttribute_refits _).bind <| (removeAttribute_refits _).bind <|
      appendParameter_refits _ _

theorem appendLimits_leads {o : Operation α} (hg : g.Linked) (ho : g.getOperation? op = some o)
    (incomplete : o.inputs.length = 1 ∨ hasLimitAttributes o = false ∧ o.inputs.length < 3) :
    Task.Leads (edit (appendLimits o)) g fun _ g' => Becomes g g' op (Clipped g g' o) := by
  have name := hg.operation_name ho
  have append : Task.Leads (edit (appendLimits o)) g fun _ g' => Refit g g' op _ _ :=
    name ▸ (appendLimits_refits o).leads hg (mem_operations_iff.2 ⟨o, name.symm ▸ ho⟩)
  refine append.mono fun _ g' refit => refit.becomes ho fun o' equipped => ?_
  by_cases one : o.inputs.length = 1
  · obtain ⟨x, inputs⟩ := List.length_eq_one_iff.1 one
    rw [if_pos one] at equipped
    exact .attributes inputs (limit_limit ..) (limit_limit ..) equipped
  · obtain ⟨unlimited, few⟩ := incomplete.resolve_left one
    obtain ⟨min, max⟩ := absent_of_unlimited unlimited
    rw [if_neg one, limit_of_absent max] at equipped
    refine .max unlimited (by omega) (equipped.congr ?_)
    simp only [List.foldl_cons, List.foldl_nil, NameMap.erase_eq_self min,
      NameMap.erase_eq_self max, id]

theorem completeClip_decided {o : Operation α} (hg : g.Linked)
    (ho : g.getOperation? op = some o) :
    Decided (completeClip op) g (Flawed o .clips) fun g' => Becomes g g' op (Clipped g g' o) := by
  unfold completeClip
  refine .getOperation_bind ho ?_
  cases limits : hasLimitAttributes o with
  | true =>
    rw [if_neg (by simp)]
    by_cases one : o.inputs.length = 1
    · rw [if_neg (by simp [one])]
      refine .inr ⟨fun e flaw => ?_, (appendLimits_leads hg ho (.inl one)).bind fun _ _ became =>
        Task.leads_pure became⟩
      cases flaw with
      | clipMixed _ slots => exact slots one
    · rw [if_pos (by simp [one])]
      refine .inl ⟨_, .clipMixed limits one, fun events => ?_⟩
      rw [hg.operation_name ho]
      rfl
  | false =>
    have sound : ∀ e, ¬Flawed o .clips e := by
      intro e flaw
      cases flaw with
      | clipMixed limited => cases limited.symm.trans limits
    by_cases complete : 3 ≤ o.inputs.length
    · rw [if_pos (by simp [complete])]
      exact .inr ⟨sound, Task.leads_pure (.refl hg ho (.kept limits complete))⟩
    · rw [if_neg (by simp [complete]), if_neg (by simp)]
      refine .inr ⟨sound, (appendLimits_leads hg ho (.inr ⟨limits, ?_⟩)).bind fun _ _ became =>
        Task.leads_pure became⟩
      exact Nat.lt_of_not_le complete

namespace Clipped

variable {h : Graph α} {o o' : Operation α}

theorem earlier (kept : g.KeepsVariables h) (clipped : Clipped h g' o o') : Clipped g g' o o' := by
  have known : ∀ var ∈ g.vars, var ∈ h.vars := fun _ => kept.known
  cases clipped with
  | attributes inputs min max equipped => exact .attributes inputs min max (equipped.earlier known)
  | max unlimited slots equipped => exact .max unlimited slots (equipped.earlier known)
  | kept unlimited slots => exact .kept unlimited slots

theorem later (clipped : Clipped g h o o') (kept : h.KeepsVariables g') : Clipped g g' o o' := by
  cases clipped with
  | attributes inputs min max equipped => exact .attributes inputs min max (equipped.later kept)
  | max unlimited slots equipped => exact .max unlimited slots (equipped.later kept)
  | kept unlimited slots => exact .kept unlimited slots

theorem limited (clipped : Clipped g g' o o') : Limited o o' := by
  cases clipped with
  | attributes inputs _ _ equipped =>
    refine ⟨?_, Or.inr ?_⟩
    · rw [hasLimitAttributes, equipped.attributes]
      simp [NameMap.contains, NameMap.get?_erase]
    · rw [equipped.length_inputs]
      exact Nat.lt_add_of_pos_right (Nat.zero_lt_succ _)
  | max unlimited _ equipped =>
    refine ⟨?_, Or.inr ?_⟩
    · rw [hasLimitAttributes, equipped.attributes]
      exact unlimited
    · rw [equipped.length_inputs]
      exact Nat.lt_add_of_pos_right (Nat.zero_lt_succ _)
  | kept unlimited slots => exact ⟨unlimited, Or.inl slots⟩

theorem filled (clipped : Clipped g g' o o') : Filled o o' := by
  intro some
  cases clipped with
  | attributes inputs _ _ equipped =>
    rw [equipped.length_inputs, inputs]
    exact Nat.le_refl 3
  | max _ slots equipped =>
    rw [equipped.length_inputs, slots.resolve_left (Nat.ne_of_gt some)]
    exact Nat.le_refl 3
  | kept _ slots => exact slots

end Clipped

theorem clips_ensures (hg : g.Linked) :
    Task.Ensures clips g fun _ g' => Passing "Clip" (Clipped g) g [] g' := by
  refine countChanges_supplied _ hg (fun h _ op o s original ho => ?_) ?_
  · exact ((completeClip_decided s.linked ho).mono fun h' became =>
      became.mono fun o' => Clipped.earlier (s.keepsVariables hg)).ensures
  · exact fun h h' _ n o o' linked s _ clipped => clipped.later (s.keepsVariables linked)

end Clips

end GraphDispatch.Rewrite
