import GraphDispatch.Proofs.Rewrite.Basic
import GraphDispatch.Rewrite.Cast
import GraphDispatch.Rewrite.Clip
import GraphDispatch.Rewrite.Command
import GraphDispatch.Rewrite.Constant
import GraphDispatch.Rewrite.Slice

/-!
# Flaws of operations

Four commands look at an operation before they rewrite it. What they refuse can be told from the
operation alone, whatever else the graph has.
-/

namespace GraphDispatch.Rewrite

open GraphDispatch.Graph

variable {α β : Type} {g : Graph α} {o : Operation α} {e : RewriteError α}

/-- What a command has against an operation that it is about, with the error that tells so. The
checks follow one another, so there is at most one flaw. -/
inductive Flawed (o : Operation α) : Command → RewriteError α → Prop where
  | constantSlots : ¬(o.inputs = [] ∧ o.outputs.length = 1) →
    Flawed o .constants (.constantSlots o.name)
  | constantWithoutValue : o.inputs = [] → o.outputs.length = 1 →
    (∀ key ∈ constantKeys, key ∉ o.attributes) → Flawed o .constants (.constantWithoutValue o.name)
  | stringConstant {s} : o.inputs = [] → o.outputs.length = 1 →
    constantKeys.findSome? o.attributes.get? = some (.string s) →
    Flawed o .constants (.stringConstant s)
  | castCode {code} : o.attributes.get? "to" = some (.int code) → DataType.ofCode? code = none →
    Flawed o .casts (.castCode o.name code)
  | castName {s} : o.attributes.get? "to" = some (.string s) → DataType.ofName? s = none →
    Flawed o .casts (.castName o.name s)
  | castTarget {target} : o.attributes.get? "to" = some target → (∀ code, target ≠ .int code) →
    (∀ s, target ≠ .string s) → Flawed o .casts (.castTarget o.name target)
  | castWithoutTarget : "to" ∉ o.attributes → Flawed o .casts (.castWithoutTarget o.name)
  | sliceMixed : hasBoundAttributes o = true → o.inputs.length ≠ 1 →
    Flawed o .slices (.sliceMixed o.name)
  | sliceWithoutStarts : hasBoundAttributes o = true → o.inputs.length = 1 →
    (∀ starts, o.attributes.get? "starts" ≠ some (.ints starts)) →
    Flawed o .slices (.sliceWithoutStarts o.name)
  | sliceWithoutEnds {starts} : o.inputs.length = 1 →
    o.attributes.get? "starts" = some (.ints starts) →
    (∀ ends, o.attributes.get? "ends" ≠ some (.ints ends)) →
    Flawed o .slices (.sliceWithoutEnds o.name)
  | sliceEnds {starts ends} : o.inputs.length = 1 →
    o.attributes.get? "starts" = some (.ints starts) →
    o.attributes.get? "ends" = some (.ints ends) → starts.length ≠ ends.length →
    Flawed o .slices (.sliceEnds o.name starts.length ends.length)
  | sliceAxes {starts ends axes} : o.inputs.length = 1 →
    o.attributes.get? "starts" = some (.ints starts) →
    o.attributes.get? "ends" = some (.ints ends) → starts.length = ends.length →
    o.attributes.get? "axes" = some (.ints axes) → axes.length ≠ starts.length →
    Flawed o .slices (.sliceAxes o.name starts.length axes.length)
  | clipMixed : hasLimitAttributes o = true → o.inputs.length ≠ 1 →
    Flawed o .clips (.clipMixed o.name)

section Readers

theorem readConstant_eq_error : readConstant o = .error e ↔ Flawed o .constants e := by
  constructor
  · intro h
    unfold readConstant at h
    split at h
    · rename_i output slots
      obtain ⟨inputs, outputs⟩ := Prod.mk.inj slots
      have one : o.outputs.length = 1 := by rw [outputs]; rfl
      split at h
      · rename_i a found
        cases a <;> cases h
        exact .stringConstant inputs one found
      · rename_i absent
        cases h
        have none := Option.eq_none_iff_forall_ne_some.2 absent
        refine .constantWithoutValue inputs one fun key hkey => ?_
        exact NameMap.get?_eq_none_iff.1 (List.findSome?_eq_none_iff.1 none key hkey)
    · rename_i other
      cases h
      refine .constantSlots fun slots => ?_
      obtain ⟨output, outputs⟩ := List.length_eq_one_iff.1 slots.2
      exact other output (by rw [slots.1, outputs])
  · intro h
    cases h with
    | constantSlots slots =>
      unfold readConstant
      split
      · rename_i output slots'
        obtain ⟨inputs, outputs⟩ := Prod.mk.inj slots'
        exact absurd ⟨inputs, congrArg List.length outputs⟩ slots
      · rfl
    | constantWithoutValue inputs one absent =>
      obtain ⟨output, outputs⟩ := List.length_eq_one_iff.1 one
      have none : constantKeys.findSome? o.attributes.get? = none :=
        List.findSome?_eq_none_iff.2 fun key hkey => NameMap.get?_eq_none_iff.2 (absent key hkey)
      simp only [readConstant, inputs, outputs, none]
      rfl
    | stringConstant inputs one found =>
      obtain ⟨output, outputs⟩ := List.length_eq_one_iff.1 one
      simp only [readConstant, inputs, outputs, found]
      rfl

theorem castTarget_eq_error : castTarget o = .error e ↔ Flawed o .casts e := by
  constructor
  · intro h
    unfold castTarget at h
    split at h
    case h_1 code target =>
      split at h <;> cases h
      exact .castCode target ‹_›
    case h_2 s target =>
      split at h <;> cases h
      exact .castName target ‹_›
    case h_3 a other _ target =>
      cases h
      exact .castTarget target (by grind) (by grind)
    case h_4 absent =>
      cases h
      exact .castWithoutTarget (NameMap.get?_eq_none_iff.1 absent)
  · intro h
    cases h with
    | castCode target unknown =>
      simp only [castTarget, target, unknown]
      rfl
    | castName target unknown =>
      simp only [castTarget, target, unknown]
      rfl
    | @castTarget a target code name =>
      cases a with
      | int n => exact absurd rfl (code n)
      | string s => exact absurd rfl (name s)
      | _ =>
        simp only [castTarget, target]
        rfl
    | castWithoutTarget absent =>
      simp only [castTarget, NameMap.get?_eq_none_iff.2 absent]
      rfl

theorem asInts?_eq_some {a : Option (Attribute α)} {l : List Int64} :
    a.bind (·.asInts?) = some l ↔ a = some (.ints l) := by
  cases a with
  | none => simp
  | some a => cases a <;> simp [Attribute.asInts?]

theorem asInts?_eq_none {a : Option (Attribute α)} :
    a.bind (·.asInts?) = none ↔ ∀ l, a ≠ some (.ints l) := by
  simp only [Option.eq_none_iff_forall_ne_some, ne_eq, asInts?_eq_some]

/-- The axes from 0 on, `n` of them in their order. -/
def Counts (axes : List Int64) (n : Nat) : Prop :=
  axes.length = n ∧ ∀ i < n, axes[i]? = some (Int64.ofNat i)

theorem firstAxes_counts (n : Nat) : Counts (firstAxes n) n := by
  refine ⟨by rw [firstAxes, List.length_map, List.length_range], fun i hi => ?_⟩
  rw [firstAxes, List.getElem?_map, List.getElem?_range hi, Option.map_some]

/-- The bounds are those of the attributes. Without a list of axes they are for the first ones. -/
structure Gives (o : Operation α) (b : Bounds) : Prop where
  slots : o.inputs.length = 1
  starts : o.attributes.get? "starts" = some (.ints b.starts)
  ends : o.attributes.get? "ends" = some (.ints b.ends)
  axes : o.attributes.get? "axes" = some (.ints b.axes) ∨
    (∀ l, o.attributes.get? "axes" ≠ some (.ints l)) ∧ Counts b.axes b.starts.length
  ends_length : b.starts.length = b.ends.length
  axes_length : b.axes.length = b.starts.length

theorem Gives.sound {b : Bounds} (h : Gives o b) (e : RewriteError α) : ¬Flawed o .slices e := by
  intro flaw
  cases flaw with
  | sliceMixed _ slots => exact slots h.slots
  | sliceWithoutStarts _ _ starts => exact starts _ h.starts
  | sliceWithoutEnds _ _ ends => exact ends _ h.ends
  | sliceEnds _ starts ends differ =>
    cases starts.symm.trans h.starts
    cases ends.symm.trans h.ends
    exact differ h.ends_length
  | sliceAxes _ starts _ _ axes differ =>
    cases starts.symm.trans h.starts
    rcases h.axes with given | ⟨none, -⟩
    · cases axes.symm.trans given
      exact differ h.axes_length
    · exact none _ axes

theorem sound_of_unbound (unbound : hasBoundAttributes o = false) (e : RewriteError α) :
    ¬Flawed o .slices e := by
  have absent : ∀ a, o.attributes.get? "starts" ≠ some a := by
    intro a starts
    have bound : hasBoundAttributes o = true := by
      simp [hasBoundAttributes, NameMap.contains, starts]
    cases bound.symm.trans unbound
  intro flaw
  cases flaw with
  | sliceMixed bound => cases bound.symm.trans unbound
  | sliceWithoutStarts bound => cases bound.symm.trans unbound
  | sliceWithoutEnds _ starts => exact absent _ starts
  | sliceEnds _ starts => exact absent _ starts
  | sliceAxes _ starts => exact absent _ starts

theorem readBounds_cases (bound : hasBoundAttributes o = true) :
    (∃ b, readBounds o = .ok b ∧ Gives o b) ∨
      ∃ e, readBounds o = .error e ∧ Flawed o .slices e := by
  -- the checks in their order, each of which is passed in what follows it
  by_cases slots : o.inputs.length ≠ 1
  · refine .inr ⟨_, ?_, .sliceMixed bound slots⟩
    simp only [readBounds, if_pos slots]
    rfl
  have one := Decidable.not_not.1 slots
  cases starts : (o.attributes.get? "starts").bind (·.asInts?) with
  | none =>
    refine .inr ⟨_, ?_, .sliceWithoutStarts bound one (asInts?_eq_none.1 starts)⟩
    simp only [readBounds, if_neg slots, starts]
    rfl
  | some s =>
  have given := asInts?_eq_some.1 starts
  cases ends : (o.attributes.get? "ends").bind (·.asInts?) with
  | none =>
    refine .inr ⟨_, ?_, .sliceWithoutEnds one given (asInts?_eq_none.1 ends)⟩
    simp only [readBounds, if_neg slots, starts, ends]
    rfl
  | some t =>
  have given' := asInts?_eq_some.1 ends
  by_cases differ : s.length ≠ t.length
  · refine .inr ⟨_, ?_, .sliceEnds one given given' differ⟩
    simp only [readBounds, if_neg slots, starts, ends, if_pos differ]
    rfl
  have same := Decidable.not_not.1 differ
  cases axes : (o.attributes.get? "axes").bind (·.asInts?) with
  | none =>
    have first := firstAxes_counts s.length
    refine .inl ⟨⟨s, t, firstAxes s.length⟩, ?_, one, given, given',
      .inr ⟨asInts?_eq_none.1 axes, first⟩, same, first.1⟩
    simp only [readBounds, if_neg slots, starts, ends, if_neg differ, axes, Option.getD_none,
      if_neg (not_not_intro first.1)]
    rfl
  | some a =>
    by_cases differ' : a.length ≠ s.length
    · refine .inr ⟨_, ?_, .sliceAxes one given given' same (asInts?_eq_some.1 axes) differ'⟩
      simp only [readBounds, if_neg slots, starts, ends, if_neg differ, axes, Option.getD_some,
        if_pos differ']
      rfl
    · refine .inl ⟨⟨s, t, a⟩, ?_, one, given, given', .inl (asInts?_eq_some.1 axes), same,
        Decidable.not_not.1 differ'⟩
      simp only [readBounds, if_neg slots, starts, ends, if_neg differ, axes, Option.getD_some,
        if_neg differ']
      rfl

end Readers

section Steps

/-- How a step ends on `g`: there is a flaw, which it tells, and nothing has changed, or there is
none and it leads to `Q`. -/
def Decided (m : Rewrite α Bool) (g : Graph α) (flaw : RewriteError α → Prop) (Q : Graph α → Prop) :
    Prop :=
  (∃ e, flaw e ∧ ∀ events, m ⟨g, events⟩ = .error e ⟨g, events⟩) ∨
    (∀ e, ¬flaw e) ∧ Task.Leads m g fun _ => Q

namespace Decided

variable {flaw : RewriteError α → Prop} {Q R : Graph α → Prop} {m : Rewrite α Bool} {op : String}

theorem mono (h : Decided m g flaw Q) (weaken : ∀ g', Q g' → R g') : Decided m g flaw R :=
  h.imp_right fun works => ⟨works.1, works.2.mono fun _ => weaken⟩

theorem ensures (h : Decided m g flaw Q) : Task.Ensures m g fun _ => Q := by
  rcases h with ⟨e, -, failed⟩ | ⟨-, leads⟩
  · intro events _ _ run
    cases (failed events).symm.trans run
  · exact leads.ensures

theorem getOperation_bind {kind : String} {f : Operation α → Rewrite α Bool}
    (ho : g.getOperation? op = some o) (h : Decided (f o) g flaw Q) :
    Decided (getOperation kind op >>= f) g flaw Q := by
  have same : ∀ events, (getOperation kind op >>= f) ⟨g, events⟩ = f o ⟨g, events⟩ := by
    intro events
    have found : getOperation kind op ⟨g, events⟩ = .ok o ⟨g, events⟩ := by
      simp only [getOperation, Task.state, run_bind, run_get, run_pure, ho]
    exact bind_of_ok found
  rcases h with ⟨e, he, failed⟩ | ⟨sound, leads⟩
  · exact .inl ⟨e, he, fun events => (same events).trans (failed events)⟩
  · exact .inr ⟨sound, fun events => by rw [same]; exact leads events⟩

theorem ofExcept_bind {r : Except (RewriteError α) β} {f : β → Rewrite α Bool}
    (error : ∀ e, r = .error e → flaw e) (ok : ∀ b, r = .ok b → Decided (f b) g flaw Q) :
    Decided (Task.ofExcept id r >>= f) g flaw Q := by
  cases r with
  | ok b => exact ok b rfl
  | error e => exact .inl ⟨e, error e rfl, fun _ => rfl⟩

end Decided

end Steps

end GraphDispatch.Rewrite
