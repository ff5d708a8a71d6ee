import GraphDispatch.Proofs.FreshName
import GraphDispatch.Proofs.Lists
import GraphDispatch.Proofs.Rewrite.Basic

/-!
# Operations get parameters

Casts, slices and clips are rewritten in place: an operation gets other attributes and reads,
behind its inputs, new parameters of its own. The rest of the graph stays.
-/

namespace GraphDispatch

variable {α : Type} {g g' g'' : Graph α}

/-- The variables of `g` are in `g'` as they were, with their links. -/
def Graph.KeepsVariables (g g' : Graph α) : Prop :=
  ∀ var ∈ g.vars, g'.getVariable? var = g.getVariable? var

theorem Graph.KeepsVariables.known (kept : g.KeepsVariables g') {var : String}
    (h : var ∈ g.vars) : var ∈ g'.vars := by
  obtain ⟨v, hv⟩ := mem_vars_iff.1 h
  exact mem_vars_iff.2 ⟨v, (kept var h).trans hv⟩

namespace Rewrite

open GraphDispatch.Graph

/-- The operations that satisfy `ops` have other attributes and, behind their inputs, new
variables that no other operation reads. -/
structure Supplied (g g' : Graph α) (ops : String → Prop) : Prop where
  linked : g'.Linked
  others : ∀ n, ¬ops n → g'.getOperation? n = g.getOperation? n
  operations : ∀ n o', g'.getOperation? n = some o' → ∃ o new, g.getOperation? n = some o ∧
    o'.type = o.type ∧ o'.outputs = o.outputs ∧ o'.inputs = o.inputs ++ new ∧
    ∀ var ∈ new, var ∉ g.vars
  kept : ∀ n ∈ g.operations, n ∈ g'.operations
  declarations : ∀ n ∈ g.vars,
    g'.content.declarations.get? n = g.content.declarations.get? n
  own : ∀ var, var ∉ g.vars → ∀ p q, g'.Reads p var → g'.Reads q var → p = q
  inputs : g'.inputs = g.inputs
  outputs : g'.outputs = g.outputs

namespace Supplied

variable {ops ops' : String → Prop}

theorem refl (hg : g.Linked) : Supplied g g ops where
  linked := hg
  others _ _ := rfl
  operations _ o ho := ⟨o, [], ho, rfl, rfl, (List.append_nil _).symm, by simp⟩
  kept _ hn := hn
  declarations _ _ := rfl
  own _ unknown _ _ reads _ := absurd (hg.reads_known reads) unknown
  inputs := rfl
  outputs := rfl

section Facts

variable (s : Supplied g g' ops)
include s

theorem known {var : String} (h : var ∈ g.vars) : var ∈ g'.vars := by
  obtain ⟨d, hd⟩ := NameMap.mem_iff.1 (mem_declarations.2 h)
  exact mem_declarations.1 (NameMap.mem_of_get? ((s.declarations var h).trans hd))

/-- Who reads a variable of `g`, has read it in `g`. -/
theorem reads {n var : String} (h : var ∈ g.vars) (reads : g'.Reads n var) : g.Reads n var := by
  obtain ⟨o', ho', hvar⟩ := reads
  obtain ⟨o, new, ho, -, -, inputs, fresh⟩ := s.operations n o' ho'
  rw [inputs, List.mem_append] at hvar
  exact ⟨o, ho, hvar.resolve_right fun hnew => fresh var hnew h⟩

/-- What an operation of `g` is in `g'`. -/
theorem operation {n : String} {o : Operation α} (ho : g.getOperation? n = some o) :
    ∃ o' new, g'.getOperation? n = some o' ∧ o'.type = o.type ∧ o'.outputs = o.outputs ∧
      o'.inputs = o.inputs ++ new ∧ ∀ var ∈ new, var ∉ g.vars := by
  obtain ⟨o', ho'⟩ := mem_operations_iff.1 (s.kept n (mem_operations_iff.2 ⟨o, ho⟩))
  obtain ⟨p, new, hp, change⟩ := s.operations n o' ho'
  cases ho.symm.trans hp
  exact ⟨o', new, ho', change⟩

theorem produces_iff {n var : String} : g'.Produces n var ↔ g.Produces n var := by
  constructor
  · rintro ⟨o', ho', hvar⟩
    obtain ⟨o, -, ho, -, outputs, -⟩ := s.operations n o' ho'
    exact ⟨o, ho, outputs ▸ hvar⟩
  · rintro ⟨o, ho, hvar⟩
    obtain ⟨o', -, ho', -, outputs, -⟩ := s.operation ho
    exact ⟨o', ho', outputs ▸ hvar⟩

theorem count_inputs {var : String} (known : var ∈ g.vars) (n : String) :
    (g'.getOperation? n).map (·.inputs.count var) =
      (g.getOperation? n).map (·.inputs.count var) := by
  cases ho : g.getOperation? n with
  | none =>
    cases ho' : g'.getOperation? n with
    | none => rfl
    | some o' =>
      obtain ⟨o, -, present, -⟩ := s.operations n o' ho'
      cases ho.symm.trans present
  | some o =>
    obtain ⟨o', new, ho', -, -, inputs, fresh⟩ := s.operation ho
    have unread : new.count var = 0 := List.count_eq_zero.2 fun hvar => fresh var hvar known
    rw [ho', Option.map_some, Option.map_some, inputs, List.count_append, unread, Nat.add_zero]

/-- What was there before stays as it is, with its links. -/
theorem getVariable?_eq (hg : g.Linked) {var : String} (known : var ∈ g.vars) :
    g'.getVariable? var = g.getVariable? var := by
  refine Option.ext fun v => ?_
  rw [getVariable?_eq_some_iff, getVariable?_eq_some_iff, s.declarations var known,
    s.linked.producer?_congr hg fun _ => s.produces_iff,
    s.linked.consumersOf_congr hg (s.count_inputs known)]

theorem keepsVariables (hg : g.Linked) : g.KeepsVariables g' :=
  fun _ known => s.getVariable?_eq hg known

theorem mono (weaker : ∀ n, ops n → ops' n) : Supplied g g' ops' :=
  { s with others := fun n hn => s.others n fun hops => hn (weaker n hops) }

theorem trans (s' : Supplied g' g'' ops) : Supplied g g'' ops where
  linked := s'.linked
  others n hn := (s'.others n hn).trans (s.others n hn)
  operations n o'' ho'' := by
    obtain ⟨o', new', ho', type', outputs', inputs', fresh'⟩ := s'.operations n o'' ho''
    obtain ⟨o, new, ho, type, outputs, inputs, fresh⟩ := s.operations n o' ho'
    refine ⟨o, new ++ new', ho, type'.trans type, outputs'.trans outputs, ?_, fun var hvar => ?_⟩
    · rw [inputs', inputs, List.append_assoc]
    · rcases List.mem_append.1 hvar with hvar | hvar
      · exact fresh var hvar
      · exact fun known => fresh' var hvar (s.known known)
  kept n hn := s'.kept n (s.kept n hn)
  declarations n hn := (s'.declarations n (s.known hn)).trans (s.declarations n hn)
  own var unknown p q hp hq := by
    by_cases known : var ∈ g'.vars
    · exact s.own var unknown p q (s'.reads known hp) (s'.reads known hq)
    · exact s'.own var known p q hp hq
  inputs := s'.inputs.trans s.inputs
  outputs := s'.outputs.trans s.outputs

end Facts

/-- A change of one operation and its new variables. -/
theorem of_content {op : String} {f : Operation α → Operation α}
    {declarations : NameMap (Declaration α)} (hg : g.Linked) (linked : g'.Linked)
    (content : g'.content =
      { g.content with operations := g.operations.modify op f, declarations := declarations })
    (change : ∀ o, (f o).type = o.type ∧ (f o).outputs = o.outputs ∧
      ∃ new, (f o).inputs = o.inputs ++ new ∧ ∀ var ∈ new, var ∉ g.vars)
    (kept : ∀ n ∈ g.vars, declarations.get? n = g.content.declarations.get? n) :
    Supplied g g' (· = op) := by
  have look : ∀ n, g'.getOperation? n =
      if n = op then (g.getOperation? n).map f else g.getOperation? n := by
    intro n
    rw [getOperation?, show g'.operations = _ from congrArg Content.operations content,
      NameMap.get?_modify]
    rfl
  have operations : ∀ n o', g'.getOperation? n = some o' → ∃ o new, g.getOperation? n = some o ∧
      o'.type = o.type ∧ o'.outputs = o.outputs ∧ o'.inputs = o.inputs ++ new ∧
      ∀ var ∈ new, var ∉ g.vars := by
    intro n o' ho'
    rw [look] at ho'
    split at ho'
    · obtain ⟨o, ho, rfl⟩ := Option.map_eq_some_iff.1 ho'
      obtain ⟨type, outputs, new, inputs, fresh⟩ := change o
      exact ⟨o, new, ho, type, outputs, inputs, fresh⟩
    · exact ⟨o', [], ho', rfl, rfl, (List.append_nil _).symm, by simp⟩
  refine ⟨linked, fun n hn => ?_, operations, fun n hn => ?_, fun n hn => ?_, ?_, ?_, ?_⟩
  · rw [look, if_neg hn]
  · obtain ⟨o, ho⟩ := mem_operations_iff.1 hn
    rw [mem_operations_iff, look, ho]
    split
    · exact ⟨_, rfl⟩
    · exact ⟨o, rfl⟩
  · rw [content]
    exact kept n hn
  · have changed : ∀ {n var}, var ∉ g.vars → g'.Reads n var → n = op := by
      rintro n var unknown ⟨o', ho', hvar⟩
      refine Decidable.byContradiction fun hn => unknown ?_
      rw [look, if_neg hn] at ho'
      exact hg.input_known ho' hvar
    intro var unknown p q hp hq
    rw [changed unknown hp, changed unknown hq]
  · exact congrArg Content.inputs content
  · exact congrArg Content.outputs content

end Supplied

/-- `o'` is `o` with other attributes and, behind its inputs, parameters with the given values.
They are new in `g'`, and only `o'` reads them, each in one slot. -/
def Equipped (g g' : Graph α) (f : NameMap (Attribute α) → NameMap (Attribute α))
    (values : List (Tensor α)) (o o' : Operation α) : Prop :=
  ∃ new : List String,
    o' = { o with attributes := f o.attributes, inputs := o.inputs ++ new } ∧
    List.Forall₂ (fun var t => var ∉ g.vars ∧
      g'.getVariable? var = some ⟨var, some t, true, none, [o.name]⟩) new values

namespace Equipped

variable {ops : String → Prop} {f k : NameMap (Attribute α) → NameMap (Attribute α)}
  {values values' : List (Tensor α)} {o o' o'' : Operation α}

theorem attributes (e : Equipped g g' f values o o') : o'.attributes = f o.attributes := by
  obtain ⟨_, rfl, -⟩ := e
  rfl

theorem eq_of_nil (e : Equipped g g' f [] o o') : o' = { o with attributes := f o.attributes } := by
  obtain ⟨_, rfl, owned⟩ := e
  cases owned
  rw [List.append_nil]

theorem congr (e : Equipped g g' f values o o') (same : f o.attributes = k o.attributes) :
    Equipped g g' k values o o' := by
  obtain ⟨new, made, owned⟩ := e
  exact ⟨new, same ▸ made, owned⟩

theorem length_inputs (e : Equipped g g' f values o o') :
    o'.inputs.length = o.inputs.length + values.length := by
  obtain ⟨new, rfl, owned⟩ := e
  rw [List.length_append, owned.length_eq]

theorem later (e : Equipped g g' f values o o') (kept : g'.KeepsVariables g'') :
    Equipped g g'' f values o o' := by
  obtain ⟨new, made, owned⟩ := e
  refine ⟨new, made, owned.imp fun var t own => ⟨own.1, ?_⟩⟩
  rw [kept var (mem_vars_iff.2 ⟨_, own.2⟩)]
  exact own.2

theorem earlier (known : ∀ var ∈ g.vars, var ∈ g'.vars) (e : Equipped g' g'' f values o o') :
    Equipped g g'' f values o o' := by
  obtain ⟨new, made, owned⟩ := e
  exact ⟨new, made, owned.imp fun var _ own => ⟨fun old => own.1 (known var old), own.2⟩⟩

theorem trans (e : Equipped g g' f values o o') (s : Supplied g g' ops)
    (s' : Supplied g' g'' ops) (e' : Equipped g' g'' k values' o' o'') :
    Equipped g g'' (fun a => k (f a)) (values ++ values') o o'' := by
  obtain ⟨new, rfl, owned⟩ := e.later (s'.keepsVariables s.linked)
  obtain ⟨new', rfl, owned'⟩ := e'.earlier fun _ => s.known
  exact ⟨new ++ new', by rw [← List.append_assoc], List.rel_append owned owned'⟩

end Equipped

/-- `op` has other attributes and reads new parameters of its own. -/
structure Refit (g g' : Graph α) (op : String) (f : NameMap (Attribute α) → NameMap (Attribute α))
    (values : List (Tensor α)) : Prop where
  supplied : Supplied g g' (· = op)
  equipped : ∀ o, g.getOperation? op = some o →
    ∃ o', g'.getOperation? op = some o' ∧ Equipped g g' f values o o'

namespace Refit

variable {op name : String} {f k : NameMap (Attribute α) → NameMap (Attribute α)}
  {values values' : List (Tensor α)} {value : Tensor α}

theorem refl (hg : g.Linked) : Refit g g op id [] := by
  refine ⟨.refl hg, fun o ho => ⟨o, ho, [], ?_, .nil⟩⟩
  rw [List.append_nil]
  rfl

theorem trans (r : Refit g g' op f values) (r' : Refit g' g'' op k values') :
    Refit g g'' op (fun a => k (f a)) (values ++ values') := by
  refine ⟨r.supplied.trans r'.supplied, fun o ho => ?_⟩
  obtain ⟨o', ho', e⟩ := r.equipped o ho
  obtain ⟨o'', ho'', e'⟩ := r'.equipped o' ho'
  exact ⟨o'', ho'', e.trans r.supplied r'.supplied e'⟩

theorem of_content {new : List String} {declarations : NameMap (Declaration α)} (hg : g.Linked)
    (linked : g'.Linked) (content : g'.content = { g.content with
      operations := g.operations.modify op
        fun o => { o with attributes := f o.attributes, inputs := o.inputs ++ new }
      declarations := declarations })
    (kept : ∀ n ∈ g.vars, declarations.get? n = g.content.declarations.get? n)
    (owned : List.Forall₂ (fun var t => var ∉ g.vars ∧
      g'.getVariable? var = some ⟨var, some t, true, none, [op]⟩) new values) :
    Refit g g' op f values := by
  have fresh : ∀ var ∈ new, var ∉ g.vars := fun var hvar => by
    obtain ⟨_, -, unknown, -⟩ := exists_of_forall₂ owned hvar
    exact unknown
  refine ⟨.of_content hg linked content (fun o => ⟨rfl, rfl, new, rfl, fresh⟩) kept,
    fun o ho => ⟨_, ?_, new, rfl, ?_⟩⟩
  · rw [getOperation?, show g'.operations = _ from congrArg Content.operations content,
      NameMap.get?_modify, if_pos rfl]
    exact congrArg (Option.map _) ho
  · rw [hg.operation_name ho]
    exact owned

/-- What `op` is given as a new input has no other link. -/
theorem getVariable?_appended (hg : g.Linked) (linked : g'.Linked) (hop : op ∈ g.operations)
    (fresh : name ∉ g.vars) (content : g'.content = { g.content with
      operations := g.operations.modify op fun o => { o with inputs := o.inputs ++ [name] }
      declarations := g.content.declarations.insert name ⟨name, some value, true⟩ }) :
    g'.getVariable? name = some ⟨name, some value, true, none, [op]⟩ := by
  have look : ∀ n, g'.getOperation? n = if n = op then
      (g.getOperation? n).map fun o => { o with inputs := o.inputs ++ [name] }
      else g.getOperation? n := by
    intro n
    rw [getOperation?, show g'.operations = _ from congrArg Content.operations content,
      NameMap.get?_modify]
    rfl
  have producer : g'.producer? name = none := by
    refine Option.eq_none_iff_forall_ne_some.2 fun n made => ?_
    obtain ⟨o', ho', hvar⟩ := linked.producer?_eq_some.1 made
    rw [look] at ho'
    split at ho'
    · obtain ⟨o, ho, rfl⟩ := Option.map_eq_some_iff.1 ho'
      exact fresh (hg.output_known ho hvar)
    · exact fresh (hg.output_known ho' hvar)
  have unread : ∀ {n o}, g.getOperation? n = some o → o.inputs.count name = 0 :=
    fun ho => List.count_eq_zero.2 fun hvar => fresh (hg.input_known ho hvar)
  have consumers : g'.consumersOf name = [op] := by
    refine eq_of_count_eq (linked.consumersOf_sorted name) (List.pairwise_singleton _ _) ?_
    intro n
    rw [linked.count_consumersOf, look]
    by_cases hn : n = op
    · obtain ⟨o, ho⟩ := mem_operations_iff.1 hop
      subst hn
      simp [ho, unread ho]
    · cases ho : g.getOperation? n with
      | none => simp [hn, Ne.symm hn]
      | some o => simp [hn, Ne.symm hn, unread ho]
  rw [getVariable?_eq_some_iff, content]
  exact ⟨NameMap.get?_insert_self _ _ _, producer, consumers⟩

theorem of_appended (hg : g.Linked) (linked : g'.Linked) (hop : op ∈ g.operations)
    (fresh : name ∉ g.vars) (content : g'.content = { g.content with
      operations := g.operations.modify op fun o => { o with inputs := o.inputs ++ [name] }
      declarations := g.content.declarations.insert name ⟨name, some value, true⟩ }) :
    Refit g g' op id [value] := by
  have own := getVariable?_appended hg linked hop fresh content
  refine of_content hg linked content (fun n hn => ?_) (.cons ⟨fresh, own⟩ .nil)
  rw [NameMap.get?_insert, if_neg]
  rintro rfl
  exact fresh hn

end Refit

/-- An operation has become one with `M`, and the rest of the graph has not changed. -/
structure Becomes (g g' : Graph α) (op : String) (M : Operation α → Prop) : Prop where
  supplied : Supplied g g' (· = op)
  result : ∃ o', g'.getOperation? op = some o' ∧ M o'

namespace Becomes

variable {op : String} {o : Operation α} {M N : Operation α → Prop}

theorem refl (hg : g.Linked) (ho : g.getOperation? op = some o) (h : M o) : Becomes g g op M :=
  ⟨.refl hg, o, ho, h⟩

theorem mono (h : Becomes g g' op M) (weaken : ∀ o', M o' → N o') : Becomes g g' op N := by
  obtain ⟨o', ho', made⟩ := h.result
  exact ⟨h.supplied, o', ho', weaken o' made⟩

end Becomes

theorem Refit.becomes {op : String} {o : Operation α} {M : Operation α → Prop}
    {f : NameMap (Attribute α) → NameMap (Attribute α)} {values : List (Tensor α)}
    (r : Refit g g' op f values) (ho : g.getOperation? op = some o)
    (h : ∀ o', Equipped g g' f values o o' → M o') : Becomes g g' op M := by
  obtain ⟨o', ho', equipped⟩ := r.equipped o ho
  exact ⟨r.supplied, o', ho', h o' equipped⟩

/-- The edit succeeds on a linked graph that has the operation, and refits it. -/
def Refits (m : Edit α Unit) (op : String) (f : NameMap (Attribute α) → NameMap (Attribute α))
    (values : List (Tensor α)) : Prop :=
  ∀ g, g.Linked → op ∈ g.operations → ∃ g', m g = .ok () g' ∧ Refit g g' op f values

section Edits

variable {m n : Edit α Unit} {op : String} {f k : NameMap (Attribute α) → NameMap (Attribute α)}
  {values values' : List (Tensor α)}

theorem Refits.bind (hm : Refits m op f values) (hn : Refits n op k values') :
    Refits (m >>= fun _ => n) op (fun a => k (f a)) (values ++ values') := by
  intro g hg hop
  obtain ⟨h, run, r⟩ := hm g hg hop
  obtain ⟨g', run', r'⟩ := hn h r.supplied.linked (r.supplied.kept op hop)
  exact ⟨g', (bind_of_ok run).trans run', r.trans r'⟩

theorem refits_of_attributes (yields : ∀ g : Graph α, g.Linked → op ∈ g.operations →
    Edit.Yields m g () { g.content with
      operations := g.operations.modify op fun o => { o with attributes := f o.attributes } }) :
    Refits m op f [] := by
  intro g hg hop
  obtain ⟨g', run, linked, content⟩ := yields g hg hop
  have appended : g'.content = { g.content with
      operations := g.operations.modify op
        fun o => { o with attributes := f o.attributes, inputs := o.inputs ++ [] } } := by
    simp only [List.append_nil]
    exact content
  exact ⟨g', run, .of_content hg linked appended (fun _ _ => rfl) .nil⟩

theorem setAttribute_refits (key : String) (value : Attribute α) :
    Refits (Edit.setAttribute op key value) op (fun a => a.insert key value) [] :=
  refits_of_attributes fun _ hg hop => Edit.setAttribute_yields hg hop key value

theorem removeAttribute_refits (key : String) :
    Refits (α := α) (discard (Edit.removeAttribute op key)) op (fun a => a.erase key) [] := by
  refine refits_of_attributes fun g hg hop => ?_
  obtain ⟨o, ho⟩ := mem_operations_iff.1 hop
  obtain ⟨g', run, left⟩ := Edit.removeAttribute_yields hg ho key
  exact ⟨g', discard_of_ok run, left⟩

theorem removeAttributes_refits (keys : List String) :
    Refits (α := α) (keys.forM fun key => discard (Edit.removeAttribute op key)) op
      (fun a => keys.foldl NameMap.erase a) [] := by
  induction keys with
  | nil => exact fun g hg _ => ⟨g, rfl, .refl hg⟩
  | cons key keys ih => exact (removeAttribute_refits key).bind ih

theorem appendParameter_refits (suffix : String) (value : Tensor α) :
    Refits (appendParameter op suffix value) op id [value] := by
  intro g hg hop
  have fresh := (g.freshName_not_mem (op ++ "." ++ suffix)).1
  have created : Edit.Yields (Edit.createVariable _ (some value)) g _ _ :=
    Edit.createVariable_yields hg fresh
  obtain ⟨h, run, linked, content⟩ := created
  have operations : h.operations = g.operations := congrArg Content.operations content
  have known : g.freshName (op ++ "." ++ suffix) ∈ h.vars :=
    (mem_vars_of_declared (congrArg Content.declarations content)).2 (Or.inl rfl)
  obtain ⟨g', run', linked', content'⟩ := Edit.appendInput_yields linked (operations ▸ hop) known
  rw [operations, content] at content'
  refine ⟨g', ?_, .of_appended hg linked' hop fresh content'⟩
  exact (bind_of_ok (discard_of_ok run)).trans run'

theorem Refits.leads (hm : Refits m op f values) (hg : g.Linked) (hop : op ∈ g.operations) :
    Task.Leads (edit m) g fun _ g' => Refit g g' op f values := by
  obtain ⟨g', run, r⟩ := hm g hg hop
  exact Task.leads_edit run r

end Edits

section Passes

variable {type : String} {step : String → Rewrite α Bool}

/-- The state of a pass over the operations of a type of which those in `l` are still to come.
`M h o o'` holds where `o` has become `o'`. -/
structure Passing (type : String) (M : Graph α → Operation α → Operation α → Prop)
    (g : Graph α) (l : List String) (h : Graph α) : Prop where
  supplied : Supplied g h fun n => ∃ o, g.getOperation? n = some o ∧ o.type = type
  nodup : l.Nodup
  waiting : ∀ n ∈ l, ∃ o, g.getOperation? n = some o ∧ o.type = type ∧ h.getOperation? n = some o
  done : ∀ n o', h.getOperation? n = some o' → o'.type = type → n ∉ l →
    ∃ o, g.getOperation? n = some o ∧ M h o o'

/-- Each step takes one operation from `o` to an `o'` with `M h o o'`, and later steps do not
change that. -/
theorem countChanges_supplied (M : Graph α → Operation α → Operation α → Prop) (hg : g.Linked)
    (next : ∀ h ops op o, Supplied g h ops → g.getOperation? op = some o →
      h.getOperation? op = some o →
      Task.Ensures (step op) h fun _ h' => Becomes h h' op (M h' o))
    (keep : ∀ h h' ops n o o', h.Linked → Supplied h h' ops → h.getOperation? n = some o' →
      M h o o' → M h' o o') :
    Task.Ensures (countChanges type step) g fun _ g' => Passing type M g [] g' := by
  refine countChanges_ensures (Passing type M g) (fun op l h state => ?_) ?_
  · obtain ⟨absent, nodup⟩ := List.nodup_cons.1 state.nodup
    obtain ⟨o, original, isType, ho⟩ := state.waiting op List.mem_cons_self
    refine (next h _ op o state.supplied original ho).mono fun _ h' became => ?_
    have others : ∀ n, n ≠ op → h'.getOperation? n = h.getOperation? n := became.supplied.others
    constructor
    case supplied =>
      refine state.supplied.trans (became.supplied.mono fun n hn => ?_)
      exact ⟨o, hn ▸ original, isType⟩
    case nodup => exact nodup
    case waiting =>
      intro n hn
      rw [others n fun same => absent (same ▸ hn)]
      exact state.waiting n (List.mem_cons_of_mem _ hn)
    case done =>
      intro n o' ho' type' visited
      by_cases hn : n = op
      · subst hn
        obtain ⟨p, hp, made⟩ := became.result
        cases hp.symm.trans ho'
        exact ⟨o, original, made⟩
      · rw [others n hn] at ho'
        have before : n ∉ op :: l := by simp [hn, visited]
        obtain ⟨p, hp, done⟩ := state.done n o' ho' type' before
        exact ⟨p, hp, keep h h' _ n p o' state.supplied.linked became.supplied ho' done⟩
  · constructor
    case supplied => exact .refl hg
    case nodup => exact hg.operationsOfType_nodup type
    case waiting =>
      intro n hn
      obtain ⟨o, ho, isType⟩ := hg.mem_operationsOfType.1 hn
      exact ⟨o, ho, isType, ho⟩
    case done =>
      intro n o ho isType visited
      exact absurd (hg.mem_operationsOfType.2 ⟨o, ho, isType⟩) visited

end Passes

end Rewrite

end GraphDispatch
