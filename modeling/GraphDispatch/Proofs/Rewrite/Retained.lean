import GraphDispatch.Proofs.Rewrite.Folds
import GraphDispatch.Proofs.Rewrite.Formatted

/-!
# What folding retains

Folding puts new variables into the slots of weights and biases. It goes by names, so it stops
half-way where a weight and a bias share one, and it reaches the first slot where that names
one of them. Where neither is the case it comes through and retains all other slots
(`batchNorms_retains`).
-/

namespace GraphDispatch

open GraphDispatch.Graph

variable {α : Type} {g g' g'' : Graph α}

namespace Rewrite

/-- Every operation of `g'` is one of `g`, but for what it reads as weight and bias and for what
it produces. -/
def Retains (g g' : Graph α) : Prop :=
  ∀ n o', g'.getOperation? n = some o' → ∃ o, g.getOperation? n = some o ∧ o'.type = o.type ∧
    o'.attributes = o.attributes ∧ ∀ i, i ≠ 1 → i ≠ 2 → o'.inputs[i]? = o.inputs[i]?

theorem Retains.refl (g : Graph α) : Retains g g :=
  fun _ o ho => ⟨o, ho, rfl, rfl, fun _ _ _ => rfl⟩

theorem Retains.trans (first : Retains g g') (second : Retains g' g'') : Retains g g'' := by
  intro n o'' ho''
  obtain ⟨o', ho', type', attributes', slots'⟩ := second n o'' ho''
  obtain ⟨o, ho, type, attributes, slots⟩ := first n o' ho'
  exact ⟨o, ho, type'.trans type, attributes'.trans attributes,
    fun i weight bias => (slots' i weight bias).trans (slots i weight bias)⟩

variable [Scalar α] {s t : Site α} {scaled : Tensor α} {data weight bias : String}

namespace Site.Folds

variable (h : s.Folds g g' scaled data weight bias)
include h

theorem firstSlot (distinct : s.linear.inputs.Nodup) :
    (s.fusion scaled).firstSlot data weight bias = data :=
  h.pair.firstSlot_of_nodup distinct

theorem retains (distinct : s.linear.inputs.Nodup) : Retains g g' := by
  intro n o' ho'
  rw [h.getOperation?_eq, h.firstSlot distinct] at ho'
  split at ho'
  · rename_i parent
    cases ho'
    refine ⟨s.linear, parent ▸ h.site.parent, rfl, rfl, fun i weight_ne bias_ne => ?_⟩
    rw [show s.linear.inputs = _ from h.pair.inputs]
    match i with
    | 0 => rfl
    | i + 3 =>
      have few : s.biasName.toList.length ≤ 1 := by cases s.biasName <;> simp
      simp [fusion]
      omega
  · split at ho'
    · cases ho'
    · exact ⟨o', ho', rfl, rfl, fun _ _ _ => rfl⟩

/-- The site behind the fold has the same linear operation with its new inputs. -/
theorem linear_behind (site : t.In g') (behind : t.intermediate = s.output) :
    t.linear.inputs = [(s.fusion scaled).firstSlot data weight bias, weight, bias] := by
  have made := site.made_intermediate h.after
  rw [behind] at made
  have parent := h.after.produces_unique made h.output_made.2
  have both := Option.some.inj (site.parent.symm.trans (parent ▸ h.parent_after))
  rw [both]

theorem not_shared_behind (site : t.In g') (behind : t.intermediate = s.output) : ¬t.Shared := by
  have inputs := h.linear_behind site behind
  simp [Shared, biasName, weightName, inputs, h.fused.distinct.symm]

theorem nodup_behind (distinct : s.linear.inputs.Nodup) (site : t.In g')
    (behind : t.intermediate = s.output) : t.linear.inputs.Nodup := by
  have known : data ∈ g.vars := by
    refine h.before.input_known h.site.parent ?_
    rw [show s.linear.inputs = _ from h.pair.inputs]
    exact List.mem_cons_self
  have weight_ne : data ≠ weight := fun same => h.fused.weight_fresh (same ▸ known)
  have bias_ne : data ≠ bias := fun same => h.fused.bias_fresh (same ▸ known)
  rw [h.linear_behind site behind, h.firstSlot distinct]
  simp [weight_ne, bias_ne, h.fused.distinct]

end Site.Folds

/-- The normalizations of `g` that can be folded, with what they are folded into. -/
def Foldable (g : Graph α) (s : Site α) : Prop :=
  s.In g ∧ s.normalization.type = "BatchNormalization"

/-- The error of a fold that stops half-way. -/
def Stops (g : Graph α) (e : RewriteError α) : Prop :=
  ∃ s, Foldable g s ∧ s.Shared ∧ e = .edit (.notRead s.parent s.weightName)

/-- A run that has started from `g` is at `h`, with the normalizations in `l` still to come. -/
structure Retaining (g : Graph α) (l : List String) (h : Graph α) : Prop where
  fits : AllValues Tensor.Fits h
  /-- The sites to come are still there. -/
  remain : ∀ s, Foldable g s → s.norm ∈ l → s.In h
  /-- No site with a shared variable has been passed. -/
  passed : ∀ s, Foldable g s → s.norm ∉ l → ¬s.Shared
  /-- New sites share no variable. -/
  shared : ∀ t : Site α, t.norm ∈ l → t.In h → t.Shared → Foldable g t
  distinct : (∀ s, Foldable g s → s.linear.inputs.Nodup) →
    ∀ t : Site α, t.norm ∈ l → t.In h → t.linear.inputs.Nodup
  retains : (∀ s, Foldable g s → s.linear.inputs.Nodup) → Retains g h

namespace Retaining

variable {h h' : Graph α} {l : List String}

theorem start (hg : g.Linked) (fits : AllValues Tensor.Fits g) :
    Retaining g (g.operationsOfType "BatchNormalization") g where
  fits := fits
  remain _ foldable _ := foldable.1
  passed _ foldable visited :=
    absurd (hg.mem_operationsOfType.2 ⟨_, foldable.1.norm, foldable.2⟩) visited
  shared _ waiting site _ := ⟨site, (Underway.start hg).type waiting site⟩
  distinct all _ waiting site := all _ ⟨site, (Underway.start hg).type waiting site⟩
  retains _ := .refl g

/-- A normalization that stays has no site in `g`. -/
theorem stay {n : String} (r : Retaining g (n :: l) h) (linked : h.Linked) (stays : Stays h n) :
    Retaining g l h where
  fits := r.fits
  remain s foldable waiting := r.remain s foldable (List.mem_cons_of_mem _ waiting)
  passed s foldable visited := by
    -- with a weight that fits its shape the normalization would have been folded
    have other : s.norm ≠ n := by
      rintro rfl
      have site := r.remain s foldable List.mem_cons_self
      have fits := r.fits.parameter linked site.weightValue
      obtain ⟨w, scaled⟩ := fits.scaleAlong_ok site.dims
      exact site.not_stays scaled stays
    exact r.passed s foldable (by simp [other, visited])
  shared t waiting := r.shared t (List.mem_cons_of_mem _ waiting)
  distinct all t waiting := r.distinct all t (List.mem_cons_of_mem _ waiting)
  retains := r.retains

theorem fold (hg : g.Linked) (r : Retaining g (s.norm :: l) h) (u : Underway g (s.norm :: l) h)
    (f : s.Folds h h' scaled data weight bias) : Retaining g l h' where
  fits := by
    refine f.allValues r.fits ?_ (Tensor.fits_list f.site.length_foldedBias)
    exact (r.fits.parameter f.before f.site.weightValue).scaled f.scaling
  remain s₀ foldable waiting := by
    have other : s₀.norm ≠ s.norm := fun same =>
      (List.nodup_cons.1 (u.nodup hg)).1 (same ▸ waiting)
    exact f.keeps foldable.2 (u.type List.mem_cons_self f.site)
      (r.remain s₀ foldable (List.mem_cons_of_mem _ waiting)) other
  passed s₀ foldable visited := by
    by_cases same : s₀.norm = s.norm
    · have linear := f.site.linear_eq (r.remain s₀ foldable (same ▸ List.mem_cons_self)) same
      have names : s₀.Shared ↔ s.Shared := by
        rw [Site.Shared, Site.biasName, Site.weightName, linear]
        rfl
      exact fun shared => f.apart (names.1 shared)
    · exact r.passed s₀ foldable (by simp [same, visited])
  shared t waiting site shared := by
    have type := (u.fold hg f).type waiting site
    refine r.shared t (List.mem_cons_of_mem _ waiting) (f.stems type site fun behind => ?_) shared
    exact f.not_shared_behind site behind shared
  distinct all t waiting site := by
    by_cases behind : t.intermediate = s.output
    · exact f.nodup_behind (r.distinct all s List.mem_cons_self f.site) site behind
    · have type := (u.fold hg f).type waiting site
      exact r.distinct all t (List.mem_cons_of_mem _ waiting) (f.stems type site behind)
  retains all :=
    (r.retains all).trans (f.retains (r.distinct all s List.mem_cons_self f.site))

end Retaining

theorem batchNorms_retaining (hg : g.Linked) (fits : AllValues Tensor.Fits g) :
    Task.Meets batchNorms g (fun _ g' => Underway g [] g' ∧ Retaining g [] g') (Stops g) := by
  refine batchNorms_meets hg (Retaining g) _ (.start hg fits) ?_ ?_ ?_
  · intro n l h u r stays
    exact r.stay u.linked stays
  · intro s l h h' scaled data weight bias u r f
    exact r.fold hg u f
  · intro s l h e u r site failed
    cases failed with
    | scaling error =>
      obtain ⟨w, scaled⟩ := (r.fits.parameter u.linked site.weightValue).scaleAlong_ok site.dims
      rw [scaled] at error
      cases error
    | shared shared => exact ⟨s, r.shared s List.mem_cons_self site shared, shared, rfl⟩

end Rewrite

variable [Scalar α]

/-- On a document with tensors that fit their shapes, folding stops half-way exactly where a
linear operation in front of a normalization has one variable as weight and bias. Elsewhere it
comes through, and where moreover the inputs of these operations are different variables, no
operation reads anything else in a slot that is not for a weight or a bias. -/
theorem batchNorms_retain {d : Document α} (built : d.build = .ok g)
    (fits : ∀ v ∈ d.vars, ∀ t, v.value = some t → t.Fits) :
    ((∃ s : Rewrite.Site α, Rewrite.Foldable g s ∧ s.Shared) → ∀ events, ∃ e later,
      process .batchNorms ⟨g, events⟩ = .error (.processing .batchNorms e) later ∧
        Rewrite.Stops g e) ∧
    ((∀ s : Rewrite.Site α, Rewrite.Foldable g s → ¬s.Shared) →
      Task.Leads (process .batchNorms) g fun _ g' =>
        (∀ s : Rewrite.Site α, Rewrite.Foldable g s → s.linear.inputs.Nodup) →
          Rewrite.Retains g g') := by
  have meets : Task.Meets (process .batchNorms) g
      (fun _ g' => Rewrite.Underway g [] g' ∧ Rewrite.Retaining g [] g')
      (fun e => ∃ r, e = FormatError.processing .batchNorms r ∧ Rewrite.Stops g r) :=
    process_meets (Rewrite.batchNorms_retaining (linked_of_build built)
      (Rewrite.allValues_of_build built fits)) fun r stops => ⟨r, rfl, stops⟩
  constructor
  · rintro ⟨s, foldable, shared⟩ events
    have unfinished : ∀ (n : Nat) g', ¬(Rewrite.Underway g [] g' ∧ Rewrite.Retaining g [] g') :=
      fun _ _ done => done.2.passed s foldable List.not_mem_nil shared
    obtain ⟨_, later, run, e, rfl, stops⟩ := meets.fails unfinished events
    exact ⟨e, later, run, stops⟩
  · intro unshared
    have finished : ∀ e, ¬∃ r, e = FormatError.processing .batchNorms r ∧ Rewrite.Stops g r := by
      rintro _ ⟨_, -, s, foldable, shared, -⟩
      exact unshared s foldable shared
    exact (meets.leads finished).mono fun _ g' done => done.2.retains

/-- A normalization behind a linear operation with the given inputs. -/
def gemmOn (inputs : List String) : Document Float32 where
  name := "net"
  inputs := ["x"]
  outputs := ["y"]
  vars := [⟨"x", none, false⟩, ⟨"w", some ⟨[1, 1], .floats [2]⟩, true⟩,
    ⟨"c", some ⟨[1], .floats [3]⟩, true⟩, ⟨"z", none, false⟩,
    ⟨"ones", some ⟨[1], .floats [1]⟩, true⟩, ⟨"y", none, false⟩]
  operations := [⟨"fc", "Gemm", ∅, inputs, ["z"], .unspecified⟩,
    ⟨"bn", "BatchNormalization", ∅, ["z", "ones", "ones", "ones", "ones"], ["y"], .unspecified⟩]

theorem gemmOn_fits (inputs : List String) : ∀ v ∈ (gemmOn inputs).vars, ∀ t, v.value = some t →
    t.Fits := by
  intro v hv t value
  simp only [gemmOn, List.mem_cons, List.not_mem_nil, or_false] at hv
  rcases hv with rfl | rfl | rfl | rfl | rfl | rfl
  all_goals
    cases value
  all_goals
    exact Tensor.fits_of_size rfl (by decide) (by decide)

theorem batchNorms_retain_x_w_c :
    (gemmOn ["x", "w", "c"]).build = .ok (gemmOn ["x", "w", "c"]).graph ∧
    Task.Leads (process .batchNorms) (gemmOn ["x", "w", "c"]).graph fun _ g' =>
      Rewrite.Retains (gemmOn ["x", "w", "c"]).graph g' := by
  have built : (gemmOn ["x", "w", "c"]).build = .ok (gemmOn ["x", "w", "c"]).graph := rfl
  have inputs : ∀ n o, (gemmOn ["x", "w", "c"]).graph.getOperation? n = some o →
      o.type ≠ "BatchNormalization" → o.inputs.Nodup :=
    NameMap.forall_get?_iff.2 (by decide)
  have distinct : ∀ s : Rewrite.Site Float32,
      Rewrite.Foldable (gemmOn ["x", "w", "c"]).graph s → s.linear.inputs.Nodup := by
    intro s foldable
    have type := (Rewrite.type_of_channelAxis foldable.1.channel).2
    exact inputs _ _ foldable.1.parent type
  refine ⟨built, ((batchNorms_retain built (gemmOn_fits _)).2 fun s foldable => ?_).mono ?_⟩
  · exact foldable.1.not_shared_of_nodup (distinct s foldable)
  · exact fun _ g' retains => retains distinct

/-- With a weight that is also the bias the run stops half-way, with one that is also the data
the first slot changes. -/
theorem batchNorms_follow_names :
    (gemmOn ["x", "w", "w"]).build = .ok (gemmOn ["x", "w", "w"]).graph ∧
    (gemmOn ["w", "w"]).build = .ok (gemmOn ["w", "w"]).graph ∧
    (∀ v ∈ (gemmOn []).vars, ∀ t, v.value = some t → t.Fits) ∧
    (∃ e later, process .batchNorms ⟨(gemmOn ["x", "w", "w"]).graph, []⟩ = .error e later ∧
      e = .processing .batchNorms (.edit (.notRead "fc" "w"))) ∧
    ∃ n once, process .batchNorms ⟨(gemmOn ["w", "w"]).graph, []⟩ = .ok n once ∧
      (once.state.getOperation? "fc").map (·.inputs) =
        some ["fc.fused_weight_0", "fc.fused_weight_0", "fc.fused_bias_0"] :=
  ⟨rfl, rfl, gemmOn_fits [], by decide +kernel, by decide +kernel⟩

end GraphDispatch
