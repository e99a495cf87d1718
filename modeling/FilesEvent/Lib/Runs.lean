import Mathlib.Algebra.GroupWithZero.Nat

/-! Runs of a partial step function. `step s e = none` means that the event
`e` cannot happen in the state `s`. An invariant is proved for one step and
holds along every run; `Meets` restricts a run to the steps that satisfy a
condition on the state before the step and its event. -/

namespace FilesEvent.Runs

variable {σ ε : Type _} {step : σ → ε → Option σ}

/-- The state after the events `es`, when each of them can happen in turn. -/
def run (step : σ → ε → Option σ) : σ → List ε → Option σ
  | s, [] => some s
  | s, e :: es => (step s e).bind fun s' => run step s' es

/-- Each step of the run of `es` from `s` satisfies `C` in the state before it. -/
def Meets (step : σ → ε → Option σ) (C : σ → ε → Prop) : σ → List ε → Prop
  | _, [] => True
  | s, e :: es => C s e ∧ ∀ s', step s e = some s' → Meets step C s' es

instance decidableMeets {C : σ → ε → Prop} [∀ s e, Decidable (C s e)] :
    ∀ (s : σ) (es : List ε), Decidable (Meets step C s es)
  | _, [] => isTrue trivial
  | s, e :: es =>
      have := fun s' => decidableMeets (C := C) s' es
      inferInstanceAs (Decidable (C s e ∧ ∀ s' ∈ step s e, Meets step C s' es))

theorem run_cons {s t : σ} {e : ε} {es : List ε} :
    run step s (e :: es) = some t ↔ ∃ s', step s e = some s' ∧ run step s' es = some t :=
  Option.bind_eq_some_iff

theorem run_append {s : σ} {as bs : List ε} :
    run step s (as ++ bs) = (run step s as).bind fun u => run step u bs := by
  induction as generalizing s with
  | nil => rfl
  | cons e as ih =>
    rw [List.cons_append, run, run, Option.bind_assoc]
    exact congrArg _ (funext fun s' => ih)

/-- Where every event can happen in every state, runs are folds. -/
theorem run_total (f : σ → ε → σ) (s : σ) (es : List ε) :
    run (fun s e => some (f s e)) s es = some (es.foldl f s) := by
  induction es generalizing s with
  | nil => rfl
  | cons e es ih => rw [run, Option.bind_some, ih, List.foldl_cons]

/-- What every step preserves holds at the end of every run. -/
theorem run_invariant {I : σ → Prop}
    (hstep : ∀ s e s', I s → step s e = some s' → I s')
    {s t : σ} {es : List ε} (hs : I s) (h : run step s es = some t) : I t := by
  induction es generalizing s with
  | nil => cases h; exact hs
  | cons e es ih =>
    obtain ⟨s', he, ht⟩ := run_cons.mp h
    exact ih (hstep s e s' hs he) ht

/-- Where each step of one machine is matched by a step of another on the same
event, so is each run. -/
theorem run_simulates {τ : Type _} {step' : τ → ε → Option τ} {R : σ → τ → Prop}
    (hstep : ∀ s e s' u, R s u → step s e = some s' → ∃ u', step' u e = some u' ∧ R s' u')
    {s t : σ} {u : τ} {es : List ε} (hR : R s u) (h : run step s es = some t) :
    ∃ v, run step' u es = some v ∧ R t v := by
  induction es generalizing s u with
  | nil =>
    cases h
    exact ⟨u, rfl, hR⟩
  | cons e es ih =>
    obtain ⟨s', he, ht⟩ := run_cons.mp h
    obtain ⟨u', hu', hR'⟩ := hstep s e s' u hR he
    obtain ⟨v, hv, hRv⟩ := ih hR' ht
    exact ⟨v, run_cons.mpr ⟨u', hu', hv⟩, hRv⟩

/-- Where moreover matching steps satisfy `C` and `D` together, so do whole runs. -/
theorem meets_iff_of_simulates {τ : Type _} {step' : τ → ε → Option τ} {R : σ → τ → Prop}
    {C : σ → ε → Prop} {D : τ → ε → Prop}
    (hstep : ∀ s e s' u, R s u → step s e = some s' →
      (C s e ↔ D u e) ∧ ∃ u', step' u e = some u' ∧ R s' u')
    {s t : σ} {u : τ} {es : List ε} (hR : R s u) (h : run step s es = some t) :
    Meets step C s es ↔ Meets step' D u es := by
  induction es generalizing s u with
  | nil => exact Iff.rfl
  | cons e es ih =>
    obtain ⟨s', he, ht⟩ := run_cons.mp h
    obtain ⟨hfirst, u', hu', hR'⟩ := hstep s e s' u hR he
    have hrest := ih hR' ht
    simp only [Meets, he, hu', Option.some.injEq, forall_eq']
    exact and_congr hfirst hrest

/-- What every step that satisfies `C` preserves holds along every run whose
steps all satisfy `C`. -/
theorem run_meets {I : σ → Prop} {C : σ → ε → Prop}
    (hstep : ∀ s e s', I s → C s e → step s e = some s' → I s')
    {s t : σ} {es : List ε} (hs : I s) (hC : Meets step C s es)
    (h : run step s es = some t) : I t := by
  induction es generalizing s with
  | nil => cases h; exact hs
  | cons e es ih =>
    obtain ⟨s', he, ht⟩ := run_cons.mp h
    exact ih (hstep s e s' hs hC.1 he) (hC.2 s' he) ht

/-- Where each step keeps `P` exactly if it satisfies `C`, the states of a run
satisfy `P` at every moment exactly if its steps all satisfy `C`. The invariant
`I` need only be kept by steps that satisfy `C`. -/
theorem always_iff_meets {I P : σ → Prop} {C : σ → ε → Prop}
    (hI : ∀ s e s', I s → C s e → step s e = some s' → I s')
    (hP : ∀ s e s', I s → P s → step s e = some s' → (P s' ↔ C s e))
    {s t : σ} {es : List ε} (hs : I s) (hPs : P s) (h : run step s es = some t) :
    (∀ as bs u, es = as ++ bs → run step s as = some u → P u) ↔ Meets step C s es := by
  induction es generalizing s with
  | nil =>
    refine iff_of_true (fun as bs u has hu => ?_) trivial
    obtain ⟨rfl, -⟩ := List.append_eq_nil_iff.mp has.symm
    cases hu
    exact hPs
  | cons e es ih =>
    obtain ⟨s', he, ht⟩ := run_cons.mp h
    have hfirst := hP s e s' hs hPs he
    constructor
    · intro hall
      have hs' : P s' := hall [e] es s' rfl (by simp [run, he])
      refine ⟨hfirst.mp hs', fun s'' he' => ?_⟩
      obtain rfl := Option.some.inj (he.symm.trans he')
      exact (ih (hI s e s' hs (hfirst.mp hs') he) hs' ht).mp fun as bs u has hu =>
        hall (e :: as) bs u (by rw [has, List.cons_append]) (run_cons.mpr ⟨s', he, hu⟩)
    · rintro ⟨hc, hrest⟩ as bs u has hu
      cases as with
      | nil =>
        cases hu
        exact hPs
      | cons a as =>
        rw [List.cons_append, List.cons.injEq] at has
        obtain ⟨rfl, htail⟩ := has
        obtain ⟨s'', he', hu⟩ := run_cons.mp hu
        obtain rfl := Option.some.inj (he.symm.trans he')
        exact (ih (hI s e s' hs hc he) (hfirst.mpr hc) ht).mpr (hrest s' he) as bs u htail hu

/-- A condition on events alone, met by every event of the list, is met by the run. -/
theorem meets_of_forall {C : σ → ε → Prop} {es : List ε} (h : ∀ e ∈ es, ∀ s, C s e) (s : σ) :
    Meets step C s es := by
  induction es generalizing s with
  | nil => trivial
  | cons e es ih =>
    exact ⟨h e (by simp) s, fun s' _ => ih (fun e' he' => h e' (by simp [he'])) s'⟩

theorem meets_iff {C : σ → ε → Prop} {s : σ} {es : List ε} :
    Meets step C s es ↔
      ∀ as e bs u, es = as ++ e :: bs → run step s as = some u → C u e := by
  induction es generalizing s with
  | nil => exact iff_of_true trivial fun as e bs u has => by simp at has
  | cons e es ih =>
    constructor
    · rintro ⟨hc, hrest⟩ as a bs u has hu
      cases as with
      | nil =>
        obtain ⟨rfl, -⟩ := List.cons.inj has
        obtain rfl := Option.some.inj hu
        exact hc
      | cons b as =>
        obtain ⟨rfl, htail⟩ := List.cons.inj has
        obtain ⟨s', he, hu⟩ := run_cons.mp hu
        exact ih.mp (hrest s' he) as a bs u htail hu
    · intro h
      refine ⟨h [] e es s rfl rfl, fun s' he => ih.mpr fun as a bs u has hu => ?_⟩
      exact h (e :: as) a bs u (by rw [has, List.cons_append]) (run_cons.mpr ⟨s', he, hu⟩)

theorem Meets.mono {C D : σ → ε → Prop} {s : σ} {es : List ε} (hC : Meets step C s es)
    (h : ∀ u e, C u e → D u e) : Meets step D s es :=
  meets_iff.mpr fun as e bs u has hu => h u e (meets_iff.mp hC as e bs u has hu)

theorem Meets.and {C D : σ → ε → Prop} {s : σ} {es : List ε} (hC : Meets step C s es)
    (hD : Meets step D s es) : Meets step (fun s e => C s e ∧ D s e) s es :=
  meets_iff.mpr fun as e bs u has hu =>
    ⟨meets_iff.mp hC as e bs u has hu, meets_iff.mp hD as e bs u has hu⟩

/-! ## What has occurred -/

/-- One of the steps of the run of `es` from `s` satisfies `C` for `k`. -/
def Occurred {κ : Type _} (step : σ → ε → Option σ) (C : σ → ε → κ → Prop) (s : σ) (es : List ε)
    (k : κ) : Prop :=
  ∃ as e bs u, es = as ++ e :: bs ∧ run step s as = some u ∧ C u e k

section Occurred

variable {κ : Type _} {C : σ → ε → κ → Prop}

theorem occurred_cons {s s' : σ} {e : ε} {es : List ε} (he : step s e = some s') (k : κ) :
    Occurred step C s (e :: es) k ↔ C s e k ∨ Occurred step C s' es k := by
  constructor
  · rintro ⟨as, a, bs, u, has, hu, hc⟩
    cases as with
    | nil =>
      obtain ⟨rfl, -⟩ := List.cons.inj has
      obtain rfl := Option.some.inj hu
      exact .inl hc
    | cons b as =>
      obtain ⟨rfl, htail⟩ := List.cons.inj has
      obtain ⟨v, hv, hu⟩ := run_cons.mp hu
      obtain rfl := Option.some.inj (he.symm.trans hv)
      exact .inr ⟨as, a, bs, u, htail, hu, hc⟩
  · rintro (hc | ⟨as, a, bs, u, has, hu, hc⟩)
    · exact ⟨[], e, es, s, rfl, rfl, hc⟩
    · exact ⟨e :: as, a, bs, u, by rw [has, List.cons_append], run_cons.mpr ⟨s', he, hu⟩, hc⟩

/-- An invariant of the state and of what has occurred before it: a step may use
what it adds itself. -/
theorem run_occurred {I : σ → (κ → Prop) → Prop}
    (hstep : ∀ s e s' K, I s K → step s e = some s' → I s' fun k => K k ∨ C s e k)
    {s t : σ} {es : List ε} (hs : I s fun _ => False) (h : run step s es = some t) :
    I t (Occurred step C s es) := by
  have hall : ∀ (es : List ε) (s : σ) (K : κ → Prop), I s K → run step s es = some t →
      I t fun k => K k ∨ Occurred step C s es k := by
    intro es
    induction es with
    | nil =>
      intro s K hI hrun
      obtain rfl := Option.some.inj hrun
      have hnone : ∀ k, ¬ Occurred step C s [] k := by
        rintro k ⟨as, e, bs, u, has, -⟩
        simp at has
      simpa only [hnone, or_false] using hI
    | cons e es ih =>
      intro s K hI hrun
      obtain ⟨s', he, ht⟩ := run_cons.mp hrun
      simpa only [occurred_cons he, or_assoc] using ih s' _ (hstep s e s' K hI he) ht
  simpa only [false_or] using hall es s _ hs h

end Occurred

/-- Where each step either leads to a state that satisfies `P`, for good, or pays
its cost out of the rank of the state, a run does not cost more than the rank
before it has reached `P`. -/
theorem run_rank {I P : σ → Prop} {C : σ → ε → Prop} {rank : σ → Nat} {cost : ε → Nat}
    (hstep : ∀ s e s', I s → C s e → step s e = some s' →
      I s' ∧ (P s → P s') ∧ (P s' ∨ rank s' + cost e ≤ rank s))
    {s t : σ} {es : List ε} (hs : I s) (hC : Meets step C s es) (h : run step s es = some t) :
    I t ∧ (P s → P t) ∧ (P t ∨ rank t + (es.map cost).sum ≤ rank s) := by
  induction es generalizing s with
  | nil =>
    cases h
    exact ⟨hs, id, .inr (Nat.le_refl _)⟩
  | cons e es ih =>
    obtain ⟨s', he, ht⟩ := run_cons.mp h
    obtain ⟨hs', hkeep, hpay⟩ := hstep s e s' hs hC.1 he
    obtain ⟨hI, hkeep', hpay'⟩ := ih hs' (hC.2 s' he) ht
    refine ⟨hI, hkeep' ∘ hkeep, ?_⟩
    rcases hpay with hP | hpay
    · exact .inl (hkeep' hP)
    · rcases hpay' with hP | hpay'
      · exact .inl hP
      · rw [List.map_cons, List.sum_cons]
        exact .inr (by omega)

end FilesEvent.Runs
