import GraphDispatch.Dispatch.Override
import GraphDispatch.Proofs.Switches.Boundary

/-!
# Tables and what is written of them

Overrides that can be decoded win over the proposal, and a table that covers a graph
is written to it as an assignment of platforms.
-/

namespace GraphDispatch

variable {σ ε β γ : Type} {s : σ}

namespace Task

theorem leads_filterMapM {l : List β} {f : β → Task σ ε (Option γ)} (F : β → Option γ)
    (h : ∀ b ∈ l, Leads (f b) s fun r t => r = F b ∧ t = s) :
    Leads (l.filterMapM f) s fun r t => r = l.filterMap F ∧ t = s := by
  induction l with
  | nil => exact leads_pure ⟨rfl, rfl⟩
  | cons b l ih =>
    rw [List.filterMapM_cons]
    refine (h b List.mem_cons_self).bind ?_
    rintro _ _ ⟨rfl, rfl⟩
    have rest := ih fun c hc => h c (List.mem_cons_of_mem _ hc)
    cases found : F b with
    | none =>
      rw [List.filterMap_cons_none found]
      exact rest
    | some c =>
      refine rest.bind ?_
      rintro _ _ ⟨rfl, rfl⟩
      exact leads_pure ⟨(List.filterMap_cons_some found).symm, rfl⟩

/-- A task that lets something through has let every element through. -/
theorem filterMapM_ok {l : List β} {f : β → Task σ ε (Option γ)} {t u : Logged σ}
    {found : List γ} (run : l.filterMapM f t = .ok found u) :
    ∀ b ∈ l, ∃ before r after, f b before = .ok r after := by
  induction l generalizing t u found with
  | nil => exact fun b hb => by cases hb
  | cons a l ih =>
    rw [List.filterMapM_cons] at run
    obtain ⟨r, after, first, rest⟩ := bind_eq_ok.1 run
    intro b hb
    rcases List.mem_cons.1 hb with rfl | hb
    · exact ⟨t, r, after, first⟩
    · cases r with
      | none => exact ih rest b hb
      | some c =>
        obtain ⟨_, _, rest, -⟩ := bind_eq_ok.1 rest
        exact ih rest b hb

end Task

variable {α : Type} {g : Graph α}

namespace Overrides

/-- Every code for an operation of the graph is the code of a platform. -/
def Decodable (overrides : Overrides) (g : Graph α) : Prop :=
  ∀ op code, overrides.get? op = some code → op ∈ g.operations →
    ∃ p, Platform.ofCode? code = some p

theorem decodable_iff {overrides : Overrides} : overrides.Decodable g ↔
    ∀ e ∈ overrides.entries, e.1 ∈ g.operations → (Platform.ofCode? e.2).isSome = true := by
  simp only [Option.isSome_iff_exists]
  exact NameMap.forall_get?_iff

instance {overrides : Overrides} : Decidable (overrides.Decodable g) :=
  decidable_of_iff _ decodable_iff.symm

/-- The platform that the user asks for. -/
def asked (overrides : Overrides) (op : String) : Option Platform :=
  (overrides.get? op).bind Platform.ofCode?

theorem request_leads {op : String} {code : Int64}
    (decodable : op ∈ g.operations → ∃ p, Platform.ofCode? code = some p) :
    Task.Leads (request g op code) s fun r t =>
      r = (if op ∈ g.operations then (Platform.ofCode? code).map (op, ·) else none) ∧ t = s := by
  unfold request
  by_cases known : op ∈ g.operations
  · obtain ⟨p, hp⟩ := decodable known
    have contained : g.operations.contains op = true := known
    simp only [contained, Bool.not_true, Bool.false_eq_true, if_false, hp, known, if_true]
    exact Task.leads_pure ⟨rfl, rfl⟩
  · have contained : g.operations.contains op = false := NameMap.contains_eq_false_iff.2 known
    simp only [contained, Bool.not_false, if_true, known, if_false]
    exact Task.leads_note_bind (Task.leads_pure ⟨rfl, rfl⟩)

theorem force_leads (t : DispatchTable) (e : String × Platform) :
    Task.Leads (force t e) s fun r u => r = t.insert e.1 e.2 ∧ u = s := by
  unfold force
  cases t.get? e.1 with
  | none => exact Task.leads_pure ⟨rfl, rfl⟩
  | some previous =>
    dsimp only
    split
    · exact Task.leads_note_bind (Task.leads_pure ⟨rfl, rfl⟩)
    · exact Task.leads_pure ⟨rfl, rfl⟩

theorem forces_leads (l : List (String × Platform)) (t : DispatchTable) :
    Task.Leads (l.foldlM force t) s fun r u =>
      r = l.foldl (fun t e => t.insert e.1 e.2) t ∧ u = s := by
  induction l generalizing t with
  | nil => exact Task.leads_pure ⟨rfl, rfl⟩
  | cons e l ih =>
    rw [List.foldlM_cons]
    refine (force_leads t e).bind ?_
    rintro _ _ ⟨rfl, rfl⟩
    exact ih _

/-- The entry of an override as it is applied. -/
def applied (g : Graph α) (e : String × Int64) : Option (String × Platform) :=
  if e.1 ∈ g.operations then (Platform.ofCode? e.2).map (e.1, ·) else none

theorem applied_eq_some {e : String × Int64} {r : String × Platform} :
    applied g e = some r ↔ e.1 ∈ g.operations ∧ Platform.ofCode? e.2 = some r.2 ∧ e.1 = r.1 := by
  obtain ⟨op, p⟩ := r
  unfold applied
  split
  · simp [Option.map_eq_some_iff, *]
  · simp [*]

theorem find_applied {n : String} {l : List (String × Int64)}
    (decodable : ∀ e ∈ l, e.1 ∈ g.operations → ∃ p, Platform.ofCode? e.2 = some p) :
    NameMap.find n (l.filterMap (applied g)) =
      if n ∈ g.operations then (NameMap.find n l).bind Platform.ofCode? else none := by
  induction l with
  | nil => simp [NameMap.find]
  | cons e l ih =>
    have rest := ih fun e he => decodable e (List.mem_cons_of_mem _ he)
    cases found : applied g e with
    | none =>
      have unknown : e.1 ∉ g.operations := by
        intro known
        obtain ⟨p, hp⟩ := decodable e List.mem_cons_self known
        rw [(applied_eq_some (r := (e.1, p))).2 ⟨known, hp, rfl⟩] at found
        cases found
      rw [List.filterMap_cons_none found, rest, NameMap.find]
      by_cases hn : e.1 = n
      · subst hn
        rw [if_neg unknown, if_neg unknown]
      · rw [if_neg hn]
    | some r =>
      obtain ⟨known, code, name⟩ := applied_eq_some.1 found
      rw [List.filterMap_cons_some found, NameMap.find, NameMap.find, rest, ← name]
      by_cases hn : e.1 = n
      · subst hn
        rw [if_pos rfl, if_pos rfl, if_pos known, Option.bind_some, code]
      · rw [if_neg hn, if_neg hn]

theorem applied_nodup {l : List (String × Int64)} (nodup : (l.map (·.1)).Nodup) :
    ((l.filterMap (applied g)).map (·.1)).Nodup := by
  refine nodup.sublist ?_
  induction l with
  | nil => exact List.Sublist.slnil
  | cons e l ih =>
    have rest := ih (List.nodup_cons.1 nodup).2
    cases found : applied g e with
    | none =>
      rw [List.filterMap_cons_none found]
      exact rest.cons _
    | some r =>
      rw [List.filterMap_cons_some found, List.map_cons, List.map_cons,
        (applied_eq_some.1 found).2.2]
      exact rest.cons_cons _

/-- Overrides of operations of the graph win, all others count for nothing. -/
theorem apply_leads {overrides : Overrides} (decodable : overrides.Decodable g)
    (t : DispatchTable) :
    Task.Leads (overrides.apply g t) s fun r u => u = s ∧ ∀ n, r.get? n =
      (if n ∈ g.operations then overrides.asked n else none).or (t.get? n) := by
  have entries : ∀ e ∈ overrides.entries, e.1 ∈ g.operations →
      ∃ p, Platform.ofCode? e.2 = some p := NameMap.forall_get?_iff.1 decodable
  refine (Task.leads_filterMapM (applied g) fun e he => request_leads (entries e he)).bind ?_
  rintro _ _ ⟨rfl, rfl⟩
  refine (forces_leads _ t).mono ?_
  rintro _ _ ⟨rfl, rfl⟩
  refine ⟨rfl, fun n => ?_⟩
  rw [NameMap.get?_foldl_insert (applied_nodup overrides.names_nodup), find_applied entries]
  rfl

theorem decodable_of_apply {overrides : Overrides} {t r : DispatchTable} {u v : Logged σ}
    (run : overrides.apply g t u = .ok r v) : overrides.Decodable g := by
  intro op code found known
  obtain ⟨_, _, requests, -⟩ := bind_eq_ok.1 run
  obtain ⟨before, result, after, asked⟩ :=
    Task.filterMapM_ok requests (op, code) (NameMap.get?_eq_some_iff.1 found)
  have contained : g.operations.contains op = true := known
  simp only [request, contained, Bool.not_true, Bool.false_eq_true, if_false] at asked
  cases decoded : Platform.ofCode? code with
  | some p => exact ⟨p, rfl⟩
  | none =>
    rw [decoded] at asked
    cases asked

end Overrides

namespace DispatchTable

/-- The platforms of a table. -/
def platforms (t : DispatchTable) (op : String) : Platform := (t.get? op).getD default

theorem checkCoverage_ok {t : DispatchTable} (covers : ∀ op ∈ g.operations, op ∈ t) :
    t.checkCoverage g = .ok () := by
  have none : t.firstMissing? g = none := by
    unfold firstMissing?
    rw [List.find?_eq_none]
    intro op hop
    have contained : t.contains op = true := covers op (NameMap.mem_names.1 hop)
    simp [contained]
  unfold checkCoverage
  rw [none]
  rfl

/-- The graph with the entries `todo` of the table still to be written. -/
structure Writing (g : Graph α) (t : DispatchTable) (todo : List (String × Platform))
    (h : Graph α) : Prop where
  linked : h.Linked
  nodup : (todo.map (·.1)).Nodup
  entries : ∀ e ∈ todo, t.get? e.1 = some e.2
  content : h.content = { g.content with operations := h.operations }
  operations : ∀ n, h.getOperation? n = (g.getOperation? n).map fun o =>
    if n ∈ todo.map (·.1) then o else { o with platform := (t.get? n).getD o.platform }

theorem write_leads {t : DispatchTable} {e : String × Platform} {todo : List (String × Platform)}
    {h : Graph α} (writing : Writing g t (e :: todo) h) :
    Task.Leads (do
      if (← Task.state).operations.contains e.1 then
        Task.edit DispatchError.edit (Edit.setPlatform e.1 e.2)) h
      fun _ h' => Writing g t todo h' := by
  obtain ⟨fresh, nodup⟩ := List.nodup_cons.1 writing.nodup
  have entries : ∀ e ∈ todo, t.get? e.1 = some e.2 :=
    fun e he => writing.entries e (List.mem_cons_of_mem _ he)
  have other : ∀ n, n ≠ e.1 → (n ∈ (e :: todo).map (·.1) ↔ n ∈ todo.map (·.1)) := by
    intro n hn
    rw [List.map_cons, List.mem_cons]
    exact ⟨fun hmem => hmem.resolve_left hn, Or.inr⟩
  refine Task.leads_state_bind ?_
  split
  · rename_i known
    obtain ⟨h', run, linked, content⟩ := Edit.setPlatform_yields writing.linked known e.2
    have operations : h'.operations = h.operations.modify e.1 fun o => { o with platform := e.2 } :=
      congrArg Content.operations content
    refine Task.leads_edit run ⟨linked, nodup, entries, ?_, fun n => ?_⟩
    · rw [content, writing.content, operations]
    · rw [Graph.getOperation?, operations, NameMap.get?_modify]
      have before := writing.operations n
      rw [Graph.getOperation?] at before
      by_cases hn : n = e.1
      · subst hn
        rw [if_pos rfl, before]
        cases g.getOperation? e.1 <;> simp [fresh, writing.entries e List.mem_cons_self]
      · rw [if_neg hn, before]
        simp only [other n hn]
  · rename_i unknown
    refine Task.leads_pure ⟨writing.linked, nodup, entries, writing.content, fun n => ?_⟩
    rw [writing.operations]
    by_cases hn : n = e.1
    · subst hn
      have absent : h.getOperation? e.1 = none := NameMap.get?_eq_none_iff.2 unknown
      rw [writing.operations] at absent
      rw [Option.map_eq_none_iff.1 absent]
      rfl
    · simp only [other n hn]

/-- A table that covers the graph is an assignment of platforms. -/
theorem commit_leads (hg : g.Linked) {t : DispatchTable} (covers : ∀ op ∈ g.operations, op ∈ t) :
    Task.Leads t.commit g fun _ g' => g' = g.assign t.platforms := by
  refine Task.leads_state_bind ?_
  rw [checkCoverage_ok covers]
  have start : Writing g t t.entries g := by
    refine ⟨hg, t.names_nodup, fun e he => NameMap.get?_eq_some_iff.2 he, rfl, fun n => ?_⟩
    cases ho : g.getOperation? n with
    | none => rfl
    | some o =>
      have known := covers n (Graph.mem_operations_iff.2 ⟨o, ho⟩)
      have listed : n ∈ t.entries.map (·.1) := NameMap.mem_names.2 known
      rw [Option.map_some, if_pos listed]
  refine Task.leads_ofExcept_bind ?_
  refine (Task.leads_forM (Writing g t) (fun e l h writing => write_leads writing) start).mono ?_
  intro _ h written
  refine written.linked.ext (hg.assign _) ?_
  have operations : h.operations = (g.assign t.platforms).operations := by
    refine NameMap.ext_get? fun n => (written.operations n).trans ?_
    change _ = (g.operations.mapEntries _).get? n
    rw [NameMap.get?_mapEntries]
    apply Option.map_congr
    intro o ho
    obtain ⟨p, hp⟩ := NameMap.mem_iff.1 (covers n (Graph.mem_operations_iff.2 ⟨o, ho⟩))
    simp [platforms, hp]
  rw [written.content, operations]
  rfl

end DispatchTable

end GraphDispatch
