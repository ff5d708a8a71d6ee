import GraphDispatch.Proofs.Rewrite.Basic

/-!
# Outcomes of tasks

`Task.Meets m s Q E` says of a run of `m` on `s` how it ends: with a result and a state that
satisfy `Q` or with an error that satisfies `E`. Between `Task.Ensures`, which leaves the error
open, and `Task.Leads`, which has none. How a single run ends can be decided.
-/

namespace GraphDispatch

namespace Task

variable {ε δ σ β γ : Type}

/-- Whatever was reported before, the run ends with `Q` or with an error in `E`. -/
def Meets (m : Task σ ε β) (s : σ) (Q : β → σ → Prop) (E : ε → Prop) : Prop :=
  ∀ events, match m ⟨s, events⟩ with
    | .ok b l => Q b l.state
    | .error e _ => E e

namespace Meets

variable {m : Task σ ε β} {f : β → Task σ ε γ} {s : σ} {b : β} {Q Q' : β → σ → Prop}
  {R : γ → σ → Prop} {E E' : ε → Prop}

theorem pure (h : Q b s) : Meets (Pure.pure b : Task σ ε β) s Q E := fun _ => h

theorem throw {e : ε} (h : E e) : Meets (MonadExcept.throw e : Task σ ε β) s Q E := fun _ => h

theorem mono (hm : Meets m s Q E) (hQ : ∀ b t, Q b t → Q' b t) (hE : ∀ e, E e → E' e) :
    Meets m s Q' E' := by
  intro events
  have outcome := hm events
  cases run : m ⟨s, events⟩ with
  | ok b l =>
    rw [run] at outcome
    exact hQ b l.state outcome
  | error e l =>
    rw [run] at outcome
    exact hE e outcome

theorem bind (hm : Meets m s Q E) (hf : ∀ b t, Q b t → Meets (f b) t R E) :
    Meets (m >>= f) s R E := by
  intro events
  have outcome := hm events
  rw [run_bind]
  cases run : m ⟨s, events⟩ with
  | ok b l =>
    rw [run] at outcome
    exact hf b l.state outcome l.events
  | error e l =>
    rw [run] at outcome
    exact outcome

theorem state_bind {f : σ → Task σ ε γ} (h : Meets (f s) s R E) : Meets (state >>= f) s R E := h

theorem note_bind {f : Unit → Task σ ε γ} {e : Event} (h : Meets (f ()) s R E) :
    Meets (note e >>= f) s R E := fun events => h (e :: events)

theorem ofExcept_bind {f : β → Task σ ε γ} {wrap : δ → ε} (h : Meets (f b) s R E) :
    Meets (ofExcept wrap (.ok b) >>= f) s R E := h

theorem ofExcept {r : Except δ β} {wrap : δ → ε} (ok : ∀ b, r = .ok b → Q b s)
    (error : ∀ e, r = .error e → E (wrap e)) : Meets (ofExcept wrap r) s Q E := by
  cases r with
  | ok b => exact fun _ => ok b rfl
  | error e => exact fun _ => error e rfl

theorem edit {α : Type} {g : Graph α} {n : Edit α β} {wrap : EditError → ε}
    {Q : β → Graph α → Prop} (ok : GraphDispatch.Ensures n g Q) (error : ∀ e, E (wrap e)) :
    Meets (Task.edit wrap n) g Q E := by
  intro events
  unfold Task.edit
  cases run : n g with
  | ok b g' => exact ok b g' run
  | error e g' => exact error e

theorem wrapError {E : δ → Prop} {f : ε → δ} (hm : Meets m s Q fun e => E (f e)) :
    Meets (wrapError f m) s Q E := by
  intro events
  have outcome := hm events
  unfold Task.wrapError EStateM.adaptExcept
  cases run : m ⟨s, events⟩ with
  | ok b l =>
    rw [run] at outcome
    exact outcome
  | error e l =>
    rw [run] at outcome
    exact outcome

theorem discard (hm : Meets m s Q E) : Meets (discard m) s (fun _ t => ∃ b, Q b t) E := by
  intro events
  have outcome := hm events
  rw [run_discard]
  cases run : m ⟨s, events⟩ with
  | ok b l =>
    rw [run] at outcome
    exact ⟨b, outcome⟩
  | error e l =>
    rw [run] at outcome
    exact outcome

/-- `I l` holds where the elements of `l` are still to come. -/
theorem forM {l : List β} {f : β → Task σ ε PUnit} (I : List β → σ → Prop)
    (step : ∀ b l s, I (b :: l) s → Meets (f b) s (fun _ t => I l t) E) (h : I l s) :
    Meets (l.forM f) s (fun _ t => I [] t) E := by
  induction l generalizing s with
  | nil => exact pure h
  | cons b l ih => exact (step b l s h).bind fun _ t ht => ih ht

theorem foldlM {l : List β} {f : γ → β → Task σ ε γ} {c : γ} (I : List β → σ → Prop)
    (step : ∀ c b l s, I (b :: l) s → Meets (f c b) s (fun _ t => I l t) E) (h : I l s) :
    Meets (l.foldlM f c) s (fun _ t => I [] t) E := by
  induction l generalizing s c with
  | nil => exact pure h
  | cons b l ih =>
    rw [List.foldlM_cons]
    exact (step c b l s h).bind fun _ t ht => ih ht

/-- What every success comes with may be known from elsewhere. -/
theorem ensuring (hm : Meets m s Q E) (h : Ensures m s Q') : Meets m s Q' E := by
  intro events
  have outcome := hm events
  cases run : m ⟨s, events⟩ with
  | ok b l => exact h events b l run
  | error e l =>
    rw [run] at outcome
    exact outcome

theorem ensures (hm : Meets m s Q E) : Ensures m s Q := by
  intro events b l run
  have outcome := hm events
  rw [run] at outcome
  exact outcome

theorem error (hm : Meets m s Q E) {events : List Event} {e : ε} {l : Logged σ}
    (run : m ⟨s, events⟩ = .error e l) : E e := by
  have outcome := hm events
  rw [run] at outcome
  exact outcome

/-- Without an error there is a result. -/
theorem leads (hm : Meets m s Q E) (none : ∀ e, ¬E e) : Leads m s Q := by
  intro events
  have outcome := hm events
  cases run : m ⟨s, events⟩ with
  | ok b l =>
    rw [run] at outcome
    exact ⟨b, l.state, l.events, rfl, outcome⟩
  | error e l =>
    rw [run] at outcome
    exact absurd outcome (none e)

/-- Without a result there is an error. -/
theorem fails (hm : Meets m s Q E) (none : ∀ b t, ¬Q b t) (events : List Event) :
    ∃ e l, m ⟨s, events⟩ = .error e l ∧ E e := by
  have outcome := hm events
  cases run : m ⟨s, events⟩ with
  | ok b l =>
    rw [run] at outcome
    exact absurd outcome (none b l.state)
  | error e l =>
    rw [run] at outcome
    exact ⟨e, l, rfl, outcome⟩

end Meets

theorem Leads.meets {m : Task σ ε β} {s : σ} {Q : β → σ → Prop} {E : ε → Prop}
    (hm : Leads m s Q) : Meets m s Q E := by
  intro events
  obtain ⟨b, t, later, run, post⟩ := hm events
  rw [run]
  exact post

theorem meets_edit_error {α : Type} {g h : Graph α} {n : Edit α β} {wrap : EditError → ε}
    {E : ε → Prop} {e : EditError} (run : n g = .error e h) (he : E (wrap e)) :
    Meets (edit wrap n) g (fun _ _ => False) E := by
  intro events
  rw [edit, run]
  exact he

end Task

section Decidable

variable {ε σ β : Type}

instance decidableOk {r : EStateM.Result ε σ β} {P : β → σ → Prop} [∀ b s, Decidable (P b s)] :
    Decidable (∃ b s, r = .ok b s ∧ P b s) :=
  match r with
  | .ok b s => decidable_of_iff (P b s)
    ⟨fun h => ⟨b, s, rfl, h⟩, by rintro ⟨_, _, ⟨⟩, h⟩; exact h⟩
  | .error _ _ => isFalse (by rintro ⟨_, _, ⟨⟩, _⟩)

instance decidableError {r : EStateM.Result ε σ β} {P : ε → σ → Prop} [∀ e s, Decidable (P e s)] :
    Decidable (∃ e s, r = .error e s ∧ P e s) :=
  match r with
  | .ok _ _ => isFalse (by rintro ⟨_, _, ⟨⟩, _⟩)
  | .error e s => decidable_of_iff (P e s)
    ⟨fun h => ⟨e, s, rfl, h⟩, by rintro ⟨_, _, ⟨⟩, h⟩; exact h⟩

end Decidable

variable {α : Type} {g : Graph α}

/-- The operations of the type are taken in turn; `I l` holds where those of `l` are still to
come. -/
theorem Rewrite.countChanges_meets {type : String} {step : String → Rewrite α Bool}
    {E : RewriteError α → Prop} (I : List String → Graph α → Prop)
    (next : ∀ op l h, I (op :: l) h → Task.Meets (step op) h (fun _ h' => I l h') E)
    (start : I (g.operationsOfType type) g) :
    Task.Meets (countChanges type step) g (fun _ g' => I [] g') E := by
  unfold countChanges
  apply Task.Meets.state_bind
  refine Task.Meets.foldlM I (fun n op l h hl => ?_) start
  apply (next op l h hl).bind
  intro changed h' hl'
  cases changed <;> exact .pure hl'

/-- An error of a command is one of its rewrite. -/
theorem process_meets [Scalar α] {c : Command} {Q : Nat → Graph α → Prop}
    {E : RewriteError α → Prop} {E' : FormatError α → Prop} (h : Task.Meets c.rewrite g Q E)
    (wrap : ∀ e, E e → E' (.processing c e)) : Task.Meets (process c) g Q E' := by
  unfold process
  refine (Task.Meets.wrapError (h.mono (fun _ _ => id) wrap)).bind fun n g' hg' => ?_
  exact Task.Meets.state_bind (Task.Meets.note_bind (.pure hg'))

end GraphDispatch
