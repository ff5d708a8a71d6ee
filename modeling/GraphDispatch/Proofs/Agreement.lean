import GraphDispatch.Proofs.Program

/-!
# Two runs side by side

Programs agree if, from related states, both succeed with related results or both fail
with the same error. What the relation leaves open then has no influence on either.
-/

namespace GraphDispatch

variable {ε σ τ β γ β' γ' : Type}

/-- Both runs succeed, and `Q` holds of their results and the states they leave, or both fail
with the same error. -/
inductive SameOutcome (Q : β → γ → σ → τ → Prop) :
    EStateM.Result ε σ β → EStateM.Result ε τ γ → Prop where
  | ok {b c s t} : Q b c s t → SameOutcome Q (.ok b s) (.ok c t)
  | error {e s t} : SameOutcome Q (.error e s) (.error e t)

namespace SameOutcome

variable {Q : β → γ → σ → τ → Prop} {m : EStateM ε σ β} {n : EStateM ε τ γ} {s : σ} {t : τ}

theorem mono {Q' : β → γ → σ → τ → Prop} {r : EStateM.Result ε σ β} {q : EStateM.Result ε τ γ}
    (h : SameOutcome Q r q)
    (weaken : ∀ b c s t, r = .ok b s → q = .ok c t → Q b c s t → Q' b c s t) :
    SameOutcome Q' r q := by
  cases h with
  | ok post => exact .ok (weaken _ _ _ _ rfl rfl post)
  | error => exact .error

theorem exists_ok {b : β} {q : EStateM.Result ε τ γ} (h : SameOutcome Q (.ok b s) q) :
    ∃ c t, q = .ok c t ∧ Q b c s t := by
  cases h with
  | ok post => exact ⟨_, _, rfl, post⟩

theorem bind {Q' : β' → γ' → σ → τ → Prop} {f : β → EStateM ε σ β'} {k : γ → EStateM ε τ γ'}
    (h : SameOutcome Q (m s) (n t))
    (rest : ∀ b c s t, Q b c s t → SameOutcome Q' (f b s) (k c t)) :
    SameOutcome Q' ((m >>= f) s) ((n >>= k) t) := by
  rw [run_bind, run_bind]
  generalize m s = r, n t = q at h
  cases h with
  | ok post => exact rest _ _ _ _ post
  | error => exact .error

end SameOutcome

/-- Runs from states in relation `R` end alike, with results in relation `S`. -/
def Agree (R : σ → τ → Prop) (S : β → γ → Prop) (m : EStateM ε σ β) (n : EStateM ε τ γ) : Prop :=
  ∀ s t, R s t → SameOutcome (fun b c s t => S b c ∧ R s t) (m s) (n t)

namespace Agree

variable {R : σ → τ → Prop} {S : β → γ → Prop} {T : β' → γ' → Prop} {m : EStateM ε σ β}
  {n : EStateM ε τ γ}

theorem pure {b : β} {c : γ} (h : S b c) :
    Agree R S (Pure.pure b : EStateM ε σ β) (Pure.pure c : EStateM ε τ γ) :=
  fun _ _ hst => .ok ⟨h, hst⟩

theorem throw (e : ε) : Agree R S (MonadExcept.throw e : EStateM ε σ β)
    (MonadExcept.throw e : EStateM ε τ γ) := fun _ _ _ => .error

theorem update {f : σ → σ} {k : τ → τ} (h : ∀ s t, R s t → R (f s) (k t)) :
    Agree R Eq (modify f : EStateM ε σ PUnit) (modify k : EStateM ε τ PUnit) :=
  fun s t hst => .ok ⟨rfl, h s t hst⟩

theorem bind {f : β → EStateM ε σ β'} {k : γ → EStateM ε τ γ'} (hm : Agree R S m n)
    (hf : ∀ b c, S b c → Agree R T (f b) (k c)) : Agree R T (m >>= f) (n >>= k) :=
  fun s t hst => (hm s t hst).bind fun b c s' t' post => hf b c post.1 s' t' post.2

/-- The rest of both runs starts from the same result. -/
theorem next {m : EStateM ε σ β} {n : EStateM ε τ β} {f : β → EStateM ε σ β'}
    {k : β → EStateM ε τ γ'} (hm : Agree R Eq m n) (hf : ∀ b, Agree R T (f b) (k b)) :
    Agree R T (m >>= f) (n >>= k) :=
  hm.bind fun b _ same => same ▸ hf b

theorem get_bind {f : σ → EStateM ε σ β} {k : τ → EStateM ε τ γ}
    (h : ∀ s t, R s t → Agree R S (f s) (k t)) :
    Agree R S (MonadState.get >>= f) (MonadState.get >>= k) :=
  fun s t hst => h s t hst s t hst

theorem discard (hm : Agree R S m n) : Agree R Eq (discard m) (discard n) := by
  intro s t hst
  have ends := hm s t hst
  rw [run_discard, run_discard]
  generalize m s = r, n t = q at ends
  cases ends with
  | ok post => exact .ok ⟨rfl, post.2⟩
  | error => exact .error

variable {l : List β}

theorem forM {f : β → EStateM ε σ PUnit} {k : β → EStateM ε τ PUnit}
    (h : ∀ b ∈ l, Agree R Eq (f b) (k b)) : Agree R Eq (l.forM f) (l.forM k) := by
  induction l with
  | nil => exact pure rfl
  | cons b l ih =>
    refine (h b List.mem_cons_self).next fun _ => ih fun c hc => ?_
    exact h c (List.mem_cons_of_mem _ hc)

theorem foldlM {f : γ → β → EStateM ε σ γ} {k : γ → β → EStateM ε τ γ}
    (h : ∀ c, ∀ b ∈ l, Agree R Eq (f c b) (k c b)) (c : γ) :
    Agree R Eq (l.foldlM f c) (l.foldlM k c) := by
  induction l generalizing c with
  | nil => exact pure rfl
  | cons b l ih =>
    rw [List.foldlM_cons, List.foldlM_cons]
    refine (h c b List.mem_cons_self).next fun d => ih (fun d a ha => ?_) d
    exact h d a (List.mem_cons_of_mem _ ha)

theorem filterMapM {f : β → EStateM ε σ (Option γ)} {k : β → EStateM ε τ (Option γ)}
    (h : ∀ b ∈ l, Agree R Eq (f b) (k b)) : Agree R Eq (l.filterMapM f) (l.filterMapM k) := by
  induction l with
  | nil => exact pure rfl
  | cons b l ih =>
    rw [List.filterMapM_cons, List.filterMapM_cons]
    have rest := ih fun c hc => h c (List.mem_cons_of_mem _ hc)
    refine (h b List.mem_cons_self).next fun found => ?_
    cases found with
    | none => exact rest
    | some c => exact rest.next fun _ => pure rfl

end Agree

namespace Task

/-- `Agree` for the states of tasks, whatever was reported. -/
def Agree (R : σ → τ → Prop) (S : β → γ → Prop) (m : Task σ ε β) (n : Task τ ε γ) : Prop :=
  GraphDispatch.Agree (fun l k => R l.state k.state) S m n

variable {R : σ → τ → Prop} {S : β → γ → Prop}

theorem agree_note (e d : Event) : Agree R Eq (note e : Task σ ε Unit) (note d : Task τ ε Unit) :=
  fun _ _ hst => .ok ⟨rfl, hst⟩

theorem agree_state_bind {f : σ → Task σ ε β} {k : τ → Task τ ε γ}
    (h : ∀ s t, R s t → Agree R S (f s) (k t)) :
    Agree R S (state >>= f) (state >>= k) :=
  fun s t hst => h s.state t.state hst s t hst

theorem agree_edit {α α' : Type} {R : Graph α → Graph α' → Prop} {wrap : EditError → ε}
    {m : Edit α β} {n : Edit α' γ} (h : GraphDispatch.Agree R S m n) :
    Agree R S (edit wrap m) (edit wrap n) := by
  intro s t hst
  have ends := h s.state t.state hst
  unfold edit
  generalize m s.state = r, n t.state = q at ends
  cases ends with
  | ok post => exact .ok post
  | error => exact .error

end Task

end GraphDispatch
