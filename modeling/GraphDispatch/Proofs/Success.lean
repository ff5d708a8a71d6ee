import GraphDispatch.Proofs.Program

/-!
# Successful runs

`Ensures m s Q` says what holds where a run of `m` on `s` succeeds. Unlike `Task.Leads` it
does not say that the run succeeds, so every way to fail is out of the way at once.
-/

namespace GraphDispatch

variable {ε δ σ β γ : Type}

/-- If the run succeeds, its result and the state it leaves satisfy `Q`. -/
def Ensures (m : EStateM ε σ β) (s : σ) (Q : β → σ → Prop) : Prop := ∀ b t, m s = .ok b t → Q b t

namespace Ensures

variable {m : EStateM ε σ β} {f : β → EStateM ε σ γ} {s : σ} {b : β} {Q Q' : β → σ → Prop}
  {R : γ → σ → Prop}

theorem pure (h : Q b s) : Ensures (Pure.pure b : EStateM ε σ β) s Q := by
  intro _ _ run
  cases run
  exact h

theorem throw (e : ε) : Ensures (MonadExcept.throw e : EStateM ε σ β) s Q :=
  fun _ _ run => by cases run

theorem mono (hm : Ensures m s Q) (h : ∀ b t, Q b t → Q' b t) : Ensures m s Q' :=
  fun b t run => h b t (hm b t run)

theorem bind (hm : Ensures m s Q) (hf : ∀ b t, Q b t → Ensures (f b) t R) :
    Ensures (m >>= f) s R := by
  intro c u run
  obtain ⟨b, t, first, second⟩ := bind_eq_ok.1 run
  exact hf b t (hm b t first) c u second

theorem get_bind {f : σ → EStateM ε σ γ} (h : Ensures (f s) s R) : Ensures (get >>= f) s R := h

theorem discard (hm : Ensures m s Q) : Ensures (discard m) s fun _ t => ∃ b, Q b t := by
  intro _ t run
  cases h : m s with
  | ok b u =>
    rw [discard_of_ok h] at run
    cases run
    exact ⟨b, hm b _ h⟩
  | error e u =>
    rw [discard_of_error h] at run
    cases run

/-- `I l` holds where the elements of `l` are still to come. -/
theorem forM {l : List β} {f : β → EStateM ε σ PUnit} (I : List β → σ → Prop)
    (step : ∀ b l s, I (b :: l) s → Ensures (f b) s fun _ t => I l t) (h : I l s) :
    Ensures (l.forM f) s fun _ t => I [] t := by
  induction l generalizing s with
  | nil => exact pure h
  | cons b l ih => exact (step b l s h).bind fun _ t ht => ih ht

end Ensures

theorem Keeps.ensures {P : σ → Prop} {m : EStateM ε σ β} {s : σ} (h : Keeps P m) (hs : P s) :
    Ensures m s fun _ t => P t := by
  intro b t run
  have kept := h s hs
  rw [run] at kept
  exact kept

section Except

variable {ε β γ : Type} {r : Except ε β} {c : γ}

theorem except_bind_eq_ok {k : β → Except ε γ} (h : (r >>= k) = .ok c) :
    ∃ b, r = .ok b ∧ k b = .ok c := by
  cases r with
  | ok b => exact ⟨b, rfl, h⟩
  | error e => cases h

end Except

namespace Task

/-- `Ensures` for the state of a task, whatever was reported before. -/
def Ensures (m : Task σ ε β) (s : σ) (Q : β → σ → Prop) : Prop :=
  ∀ events, GraphDispatch.Ensures m ⟨s, events⟩ fun b l => Q b l.state

namespace Ensures

variable {m : Task σ ε β} {f : β → Task σ ε γ} {s : σ} {b : β} {Q Q' : β → σ → Prop}
  {R : γ → σ → Prop}

theorem pure (h : Q b s) : Ensures (Pure.pure b : Task σ ε β) s Q :=
  fun _ => GraphDispatch.Ensures.pure h

theorem throw (e : ε) : Ensures (MonadExcept.throw e : Task σ ε β) s Q :=
  fun _ => GraphDispatch.Ensures.throw e

theorem mono (hm : Ensures m s Q) (h : ∀ b t, Q b t → Q' b t) : Ensures m s Q' :=
  fun events => (hm events).mono fun b l => h b l.state

theorem bind (hm : Ensures m s Q) (hf : ∀ b t, Q b t → Ensures (f b) t R) :
    Ensures (m >>= f) s R :=
  fun events => (hm events).bind fun b l hl => hf b l.state hl l.events

theorem state_bind {f : σ → Task σ ε γ} (h : Ensures (f s) s R) : Ensures (state >>= f) s R := h

theorem note_bind {f : Unit → Task σ ε γ} {e : Event} (h : Ensures (f ()) s R) :
    Ensures (note e >>= f) s R := fun events => h (e :: events)

theorem note {e : Event} {Q : Unit → σ → Prop} (h : Q () s) :
    Ensures (Task.note e : Task σ ε Unit) s Q := by
  intro _ _ _ run
  cases run
  exact h

theorem ofExcept_bind {r : Except δ β} {wrap : δ → ε} (h : ∀ b, r = .ok b → Ensures (f b) s R) :
    Ensures (ofExcept wrap r >>= f) s R := by
  cases r with
  | ok b => exact h b rfl
  | error e => exact fun _ _ _ run => by cases run

theorem edit {α : Type} {g : Graph α} {n : Edit α β} {wrap : EditError → ε}
    {Q : β → Graph α → Prop} (hn : GraphDispatch.Ensures n g Q) :
    Ensures (Task.edit wrap n) g Q := by
  intro events b l run
  unfold Task.edit at run
  split at run
  · rename_i c g' first
    cases run
    exact hn _ _ first
  · cases run

theorem discard (hm : Ensures m s Q) : Ensures (discard m) s fun _ t => ∃ b, Q b t :=
  fun events => (hm events).discard

theorem wrapError {f : ε → δ} (hm : Ensures m s Q) : Ensures (wrapError f m) s Q := by
  intro events b l run
  unfold Task.wrapError EStateM.adaptExcept at run
  split at run
  · cases run
  · cases run
    exact hm events _ _ ‹_›

theorem forM {l : List β} {f : β → Task σ ε PUnit} (I : List β → σ → Prop)
    (step : ∀ b l s, I (b :: l) s → Ensures (f b) s fun _ t => I l t) (h : I l s) :
    Ensures (l.forM f) s fun _ t => I [] t := by
  induction l generalizing s with
  | nil => exact pure h
  | cons b l ih => exact (step b l s h).bind fun _ t ht => ih ht

theorem foldlM {l : List β} {f : γ → β → Task σ ε γ} {c : γ} (I : List β → σ → Prop)
    (step : ∀ c b l s, I (b :: l) s → Ensures (f c b) s fun _ t => I l t) (h : I l s) :
    Ensures (l.foldlM f c) s fun _ t => I [] t := by
  induction l generalizing s c with
  | nil => exact pure h
  | cons b l ih =>
    rw [List.foldlM_cons]
    exact (step c b l s h).bind fun _ t ht => ih ht

end Ensures

theorem Keeps.ensures {P : σ → Prop} {m : Task σ ε β} {s : σ} (h : Keeps P m) (hs : P s) :
    Ensures m s fun _ t => P t := by
  intro events b l run
  have kept := h ⟨s, events⟩ hs
  rw [run] at kept
  exact kept

theorem Ensures.and {m : Task σ ε β} {s : σ} {Q R : β → σ → Prop} (hQ : Ensures m s Q)
    (hR : Ensures m s R) : Ensures m s fun b t => Q b t ∧ R b t :=
  fun events b t run => ⟨hQ events b t run, hR events b t run⟩

theorem Leads.ensures {m : Task σ ε β} {s : σ} {Q : β → σ → Prop} (hm : Leads m s Q) :
    Ensures m s Q := by
  intro events b l run
  obtain ⟨_, _, _, run', post⟩ := hm events
  rw [run] at run'
  cases run'
  exact post

/-- A run that succeeds ends as every success does. -/
theorem Leads.ensuring {m : Task σ ε β} {s : σ} {Q Q' : β → σ → Prop} (hm : Leads m s Q)
    (h : Ensures m s Q') : Leads m s Q' := by
  intro events
  obtain ⟨b, t, later, run, -⟩ := hm events
  exact ⟨b, t, later, run, h events b ⟨t, later⟩ run⟩

end Task

end GraphDispatch
