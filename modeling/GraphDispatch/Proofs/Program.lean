import GraphDispatch.Task

/-!
# Runs of programs

A program leaves a state behind also where it fails. `Keeps P m` says that a run
of `m` does not lose `P`, however it ends; it follows the shape of the program.
-/

namespace GraphDispatch

variable {ε δ σ β γ : Type}

/-- The state that a run leaves behind. -/
def finalState : EStateM.Result ε σ β → σ
  | .ok _ s => s
  | .error _ s => s

@[simp] theorem finalState_ok (b : β) (s : σ) :
    finalState (.ok b s : EStateM.Result ε σ β) = s := rfl

@[simp] theorem finalState_error (e : ε) (s : σ) :
    finalState (.error e s : EStateM.Result ε σ β) = s := rfl

section Equations

variable {m : EStateM ε σ β} {f : β → EStateM ε σ γ} {s t u : σ} {b : β} {c : γ} {e : ε}

theorem run_bind (m : EStateM ε σ β) (f : β → EStateM ε σ γ) (s : σ) :
    (m >>= f) s = match m s with
      | .ok b t => f b t
      | .error e t => .error e t := rfl

theorem run_pure (b : β) (s : σ) : (pure b : EStateM ε σ β) s = .ok b s := rfl

theorem run_throw (e : ε) (s : σ) : (throw e : EStateM ε σ β) s = .error e s := rfl

theorem run_get (s : σ) : (get : EStateM ε σ σ) s = .ok s s := rfl

theorem run_modify (f : σ → σ) (s : σ) :
    (modify f : EStateM ε σ PUnit) s = .ok ⟨⟩ (f s) := rfl

theorem run_discard (m : EStateM ε σ β) (s : σ) :
    (discard m) s = match m s with
      | .ok _ t => .ok () t
      | .error e t => .error e t := by
  simp only [discard, Functor.discard, Functor.mapConst, EStateM.map, Function.comp]
  cases m s <;> rfl

theorem bind_of_ok (h : m s = .ok b t) : (m >>= f) s = f b t := by
  rw [run_bind, h]

theorem bind_of_error (h : m s = .error e t) : (m >>= f) s = .error e t := by
  rw [run_bind, h]

theorem bind_eq_ok : (m >>= f) s = .ok c u ↔ ∃ b t, m s = .ok b t ∧ f b t = .ok c u := by
  cases h : m s with
  | ok b t =>
    rw [bind_of_ok h]
    exact ⟨fun hf => ⟨b, t, rfl, hf⟩, by rintro ⟨_, _, ⟨⟩, hf⟩; exact hf⟩
  | error e t => simp [bind_of_error h]

theorem discard_of_ok (h : m s = .ok b t) : (discard m) s = .ok () t := by
  rw [run_discard, h]

theorem discard_of_error (h : m s = .error e t) : (discard m) s = .error e t := by
  rw [run_discard, h]

theorem forM_cons_of_ok {l : List β} {f : β → EStateM ε σ PUnit} (h : f b s = .ok ⟨⟩ t) :
    (b :: l).forM f s = l.forM f t := bind_of_ok h

theorem forM_append_of_ok {l r : List β} {f : β → EStateM ε σ PUnit} (h : l.forM f s = .ok ⟨⟩ t) :
    (l ++ r).forM f s = r.forM f t := by
  induction l generalizing s with
  | nil =>
    cases h
    rfl
  | cons b l ih =>
    obtain ⟨⟨⟩, u, first, rest⟩ := bind_eq_ok.1 (show (f b >>= fun _ => l.forM f) s = _ from h)
    exact (bind_of_ok first).trans (ih rest)

/-- Checks that leave the state alone all pass, or the first that does not decides. -/
theorem forM_check {l : List β} {f : β → EStateM ε σ PUnit} {p : β → Prop}
    (passes : ∀ b, p b → f b s = .ok ⟨⟩ s) (fails : ∀ b, ¬p b → ∃ e, f b s = .error e s) :
    ((∀ b ∈ l, p b) → l.forM f s = .ok ⟨⟩ s) ∧
      ((¬∀ b ∈ l, p b) → ∃ e, l.forM f s = .error e s) := by
  induction l with
  | nil => exact ⟨fun _ => rfl, fun h => absurd (by simp) h⟩
  | cons b l ih =>
    by_cases hb : p b
    · rw [forM_cons_of_ok (passes b hb)]
      simpa [hb] using ih
    · obtain ⟨e, he⟩ := fails b hb
      exact ⟨fun h => absurd (h b List.mem_cons_self) hb, fun _ => ⟨e, bind_of_error he⟩⟩

/-- `I l` holds where the elements of `l` are still to come, and no step fails from there. -/
theorem forM_runs {l : List β} {f : β → EStateM ε σ PUnit} (I : List β → σ → Prop)
    (step : ∀ b l s, I (b :: l) s → ∃ t, f b s = .ok ⟨⟩ t ∧ I l t) (h : I l s) :
    ∃ t, l.forM f s = .ok ⟨⟩ t ∧ I [] t := by
  induction l generalizing s with
  | nil => exact ⟨s, rfl, h⟩
  | cons b l ih =>
    obtain ⟨t, first, ht⟩ := step b l s h
    rw [forM_cons_of_ok first]
    exact ih ht

end Equations

def Keeps (P : σ → Prop) (m : EStateM ε σ β) : Prop := ∀ s, P s → P (finalState (m s))

namespace Keeps

variable {P : σ → Prop} {m : EStateM ε σ β} {f : β → EStateM ε σ γ}

theorem pure (b : β) : Keeps P (Pure.pure b : EStateM ε σ β) := fun _ h => h

theorem throw (e : ε) : Keeps P (MonadExcept.throw e : EStateM ε σ β) := fun _ h => h

theorem get : Keeps P (MonadState.get : EStateM ε σ σ) := fun _ h => h

/-- `Q` holds at the end, whatever the first steps were, as they keep `P`. -/
theorem bind_leaves {Q : σ → Prop} (hm : Keeps P m) (weaken : ∀ s, P s → Q s)
    (hf : ∀ b s, P s → Q (finalState (f b s))) (s : σ) (hs : P s) :
    Q (finalState ((m >>= f) s)) := by
  have kept := hm s hs
  cases h : m s with
  | ok b t =>
    rw [bind_of_ok h]
    exact hf b t (by simpa [h] using kept)
  | error e t =>
    rw [bind_of_error h]
    exact weaken t (by simpa [h] using kept)

theorem bind (hm : Keeps P m) (hf : ∀ b, Keeps P (f b)) : Keeps P (m >>= f) :=
  hm.bind_leaves (fun _ hs => hs) hf

theorem get_bind {f : σ → EStateM ε σ γ} (hf : ∀ s, P s → Keeps P (f s)) :
    Keeps P (MonadState.get >>= f) := fun s hs => hf s hs s hs

theorem discard (hm : Keeps P m) : Keeps P (discard m) := by
  intro s hs
  have kept := hm s hs
  cases h : m s with
  | ok b t => rw [discard_of_ok h]; simpa [h] using kept
  | error e t => rw [discard_of_error h]; simpa [h] using kept

theorem ite {c : Prop} [Decidable c] {n : EStateM ε σ β} (hm : c → Keeps P m)
    (hn : ¬c → Keeps P n) : Keeps P (if c then m else n) := by
  split
  · exact hm ‹_›
  · exact hn ‹_›

theorem forM {l : List β} {f : β → EStateM ε σ PUnit} (h : ∀ b ∈ l, Keeps P (f b)) :
    Keeps P (l.forM f) := by
  induction l with
  | nil => exact pure _
  | cons b l ih =>
    refine bind (h b List.mem_cons_self) fun _ => ih fun c hc => ?_
    exact h c (List.mem_cons_of_mem _ hc)

theorem foldlM {l : List β} {f : γ → β → EStateM ε σ γ} (h : ∀ c, ∀ b ∈ l, Keeps P (f c b))
    (c : γ) : Keeps P (l.foldlM f c) := by
  induction l generalizing c with
  | nil => exact pure _
  | cons b l ih =>
    rw [List.foldlM_cons]
    refine bind (h c b List.mem_cons_self) fun d => ih (fun d a ha => ?_) d
    exact h d a (List.mem_cons_of_mem _ ha)

theorem filterMapM {l : List β} {f : β → EStateM ε σ (Option γ)} (h : ∀ b ∈ l, Keeps P (f b)) :
    Keeps P (l.filterMapM f) := by
  induction l with
  | nil => exact pure _
  | cons b l ih =>
    rw [List.filterMapM_cons]
    have rest := ih fun c hc => h c (List.mem_cons_of_mem _ hc)
    apply bind (h b List.mem_cons_self)
    intro o
    cases o with
    | none => exact rest
    | some c => exact bind rest fun _ => pure _

theorem adaptExcept {wrap : ε → δ} (hm : Keeps P m) :
    Keeps P (EStateM.adaptExcept wrap m) := by
  intro s hs
  have kept := hm s hs
  unfold EStateM.adaptExcept
  cases h : m s <;> simpa [h] using kept

end Keeps

namespace Task

/-- `Keeps` for the state of a task, whatever it reports. -/
def Keeps (P : σ → Prop) (m : Task σ ε β) : Prop := GraphDispatch.Keeps (fun l => P l.state) m

variable {P : σ → Prop}

theorem keeps_note (e : Event) : Keeps P (note e : Task σ ε Unit) := fun _ h => h

theorem keeps_state : Keeps P (state : Task σ ε σ) := fun _ h => h

theorem keeps_state_bind {f : σ → Task σ ε γ} (hf : ∀ s, P s → Keeps P (f s)) :
    Keeps P (state >>= f) := fun l hl => hf l.state hl l hl

theorem keeps_ofExcept {f : ε → δ} (r : Except ε β) : Keeps P (ofExcept f r : Task σ δ β) := by
  cases r <;> exact fun _ h => h

theorem keeps_wrapError {f : ε → δ} {m : Task σ ε β} (hm : Keeps P m) :
    Keeps P (wrapError f m) := hm.adaptExcept

theorem keeps_edit {α : Type} {P : Graph α → Prop} {wrap : EditError → ε} {m : Edit α β}
    (hm : GraphDispatch.Keeps P m) : Keeps P (edit wrap m) := by
  intro s hs
  have kept := hm s.state hs
  unfold edit
  cases h : m s.state <;> simpa [h] using kept

/-- Whatever was reported before, the task succeeds, and its result and the state it leaves
satisfy `Q`. -/
def Leads (m : Task σ ε β) (s : σ) (Q : β → σ → Prop) : Prop :=
  ∀ events, ∃ b t later, m ⟨s, events⟩ = .ok b ⟨t, later⟩ ∧ Q b t

section Leads

variable {m : Task σ ε β} {f : β → Task σ ε γ} {s : σ} {Q R : β → σ → Prop} {b : β}

theorem leads_pure (h : Q b s) : Leads (pure b : Task σ ε β) s Q :=
  fun events => ⟨b, s, events, rfl, h⟩

theorem leads_note {Q : Unit → σ → Prop} {e : Event} (h : Q () s) :
    Leads (note e : Task σ ε Unit) s Q :=
  fun events => ⟨(), s, e :: events, rfl, h⟩

theorem leads_edit {α : Type} {g g' : Graph α} {Q : β → Graph α → Prop} {n : Edit α β}
    {wrap : EditError → ε} (run : n g = .ok b g') (h : Q b g') : Leads (edit wrap n) g Q :=
  fun events => ⟨b, g', events, by simp only [edit, run], h⟩

theorem Leads.mono (hm : Leads m s Q) (h : ∀ b t, Q b t → R b t) : Leads m s R := by
  intro events
  obtain ⟨b, t, later, run, post⟩ := hm events
  exact ⟨b, t, later, run, h b t post⟩

theorem Leads.bind {R : γ → σ → Prop} (hm : Leads m s Q) (hf : ∀ b t, Q b t → Leads (f b) t R) :
    Leads (m >>= f) s R := by
  intro events
  obtain ⟨b, t, later, run, post⟩ := hm events
  obtain ⟨c, u, last, run', post'⟩ := hf b t post later
  exact ⟨c, u, last, (bind_of_ok run).trans run', post'⟩

theorem Leads.discard (hm : Leads m s Q) : Leads (discard m) s fun _ t => ∃ b, Q b t := by
  intro events
  obtain ⟨b, t, later, run, post⟩ := hm events
  exact ⟨(), t, later, discard_of_ok run, b, post⟩

theorem leads_wrapError {δ : Type} {f : ε → δ} (hm : Leads m s Q) : Leads (wrapError f m) s Q := by
  intro events
  obtain ⟨b, t, later, run, post⟩ := hm events
  exact ⟨b, t, later, by simp only [wrapError, EStateM.adaptExcept, run], post⟩

theorem leads_state_bind {f : σ → Task σ ε γ} {R : γ → σ → Prop} (h : Leads (f s) s R) :
    Leads (state >>= f) s R := h

theorem leads_note_bind {f : Unit → Task σ ε γ} {R : γ → σ → Prop} {e : Event}
    (h : Leads (f ()) s R) : Leads (note e >>= f) s R := fun events => h (e :: events)

theorem leads_ofExcept_bind {δ : Type} {wrap : δ → ε} {f : β → Task σ ε γ} {R : γ → σ → Prop}
    (h : Leads (f b) s R) : Leads (ofExcept wrap (.ok b) >>= f) s R := h

theorem leads_edit_bind {α : Type} {g g' : Graph α} {n : Edit α β} {wrap : EditError → ε}
    {f : β → Task (Graph α) ε γ} {R : γ → Graph α → Prop} (run : n g = .ok b g')
    (h : Leads (f b) g' R) : Leads (edit wrap n >>= f) g R := by
  intro events
  have first : edit wrap n ⟨g, events⟩ = .ok b ⟨g', events⟩ := by simp only [edit, run]
  obtain ⟨c, u, last, run', post⟩ := h events
  exact ⟨c, u, last, (bind_of_ok first).trans run', post⟩

/-- `I l` holds where the elements of `l` are still to come. -/
theorem leads_forM {l : List β} {f : β → Task σ ε PUnit} (I : List β → σ → Prop)
    (step : ∀ b l s, I (b :: l) s → Leads (f b) s fun _ t => I l t) (h : I l s) :
    Leads (l.forM f) s fun _ t => I [] t := by
  induction l generalizing s with
  | nil => exact leads_pure h
  | cons b l ih => exact (step b l s h).bind fun _ t ht => ih ht

end Leads

end Task

end GraphDispatch
