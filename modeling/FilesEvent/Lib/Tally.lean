import FilesEvent.Lib.Runs

/-! Runs that can always be taken, and sums over the steps of a run. Where no step takes more
from a rank of the state than it brings, no run does. -/

namespace FilesEvent.Runs

variable {σ ε : Type _} {step : σ → ε → Option σ}

/-- Where every step that satisfies `C` can be taken and preserves `I`, every run whose
steps would all satisfy `C` can be taken. -/
theorem run_defined {I : σ → Prop} {C : σ → ε → Prop}
    (hstep : ∀ s e, I s → C s e → ∃ s', step s e = some s' ∧ I s')
    {s : σ} {es : List ε} (hs : I s) (hC : Meets step C s es) :
    ∃ t, run step s es = some t ∧ I t := by
  induction es generalizing s with
  | nil => exact ⟨s, rfl, hs⟩
  | cons e es ih =>
    obtain ⟨s', he, hs'⟩ := hstep s e hs hC.1
    obtain ⟨t, ht, hI⟩ := ih hs' (hC.2 s' he)
    exact ⟨t, run_cons.mpr ⟨s', he, ht⟩, hI⟩

/-- What the invariant and `C` make sure of before each step. -/
theorem meets_of_invariant {I : σ → Prop} {C D : σ → ε → Prop}
    (hI : ∀ s e s', I s → C s e → step s e = some s' → I s') (hD : ∀ s e, I s → C s e → D s e)
    {s : σ} {es : List ε} (hs : I s) (hC : Meets step C s es) : Meets step D s es := by
  induction es generalizing s with
  | nil => trivial
  | cons e es ih => exact ⟨hD s e hs hC.1, fun s' he => ih (hI s e s' hs hC.1 he) (hC.2 s' he)⟩

/-- Two runs that meet the condition, one after the other. -/
theorem meets_append {C : σ → ε → Prop} {s t : σ} {as bs : List ε} (ha : Meets step C s as)
    (hr : run step s as = some t) (hb : Meets step C t bs) : Meets step C s (as ++ bs) := by
  induction as generalizing s with
  | nil =>
    cases hr
    exact hb
  | cons e as ih =>
    obtain ⟨s', he, hr'⟩ := run_cons.mp hr
    refine ⟨ha.1, fun s'' he' => ?_⟩
    obtain rfl := Option.some.inj (he.symm.trans he')
    exact ih (ha.2 s' he) hr'

/-- A first step that can be computed. -/
theorem meets_get {C : σ → ε → Prop} {s : σ} {e : ε} {es : List ε}
    (h : (step s e).isSome = true) (hc : C s e) (hes : Meets step C ((step s e).get h) es) :
    Meets step C s (e :: es) :=
  ⟨hc, fun s' he => by rwa [Option.get_of_eq_some h he] at hes⟩

/-- The sum over the steps of a run of what `f` gives for each. -/
def tally (step : σ → ε → Option σ) (f : σ → ε → Nat) : σ → List ε → Nat
  | _, [] => 0
  | s, e :: es => f s e + (step s e).elim 0 fun s' => tally step f s' es

theorem tally_cons {f : σ → ε → Nat} {s s' : σ} {e : ε} {es : List ε} (h : step s e = some s') :
    tally step f s (e :: es) = f s e + tally step f s' es := by
  rw [tally, h]
  rfl

/-- Where no step takes more from the rank of the state than it brings, no run does. -/
theorem tally_le {I : σ → Prop} {C : σ → ε → Prop} {rank : σ → Nat} {out into : σ → ε → Nat}
    (hstep : ∀ s e s', I s → C s e → step s e = some s' →
      I s' ∧ rank s' + out s e ≤ rank s + into s e)
    {s t : σ} {es : List ε} (hs : I s) (hC : Meets step C s es) (h : run step s es = some t) :
    rank t + tally step out s es ≤ rank s + tally step into s es := by
  induction es generalizing s with
  | nil =>
    cases h
    exact Nat.le_refl _
  | cons e es ih =>
    obtain ⟨s', he, ht⟩ := run_cons.mp h
    obtain ⟨hs', hfirst⟩ := hstep s e s' hs hC.1 he
    have hrest := ih hs' (hC.2 s' he) ht
    rw [tally_cons he, tally_cons he]
    omega

/-- Where every step keeps the balance, every run does. -/
theorem tally_eq {I : σ → Prop} {C : σ → ε → Prop} {rank : σ → Nat} {out into : σ → ε → Nat}
    (hstep : ∀ s e s', I s → C s e → step s e = some s' →
      I s' ∧ rank s' + out s e = rank s + into s e)
    {s t : σ} {es : List ε} (hs : I s) (hC : Meets step C s es) (h : run step s es = some t) :
    rank t + tally step out s es = rank s + tally step into s es := by
  induction es generalizing s with
  | nil =>
    cases h
    rfl
  | cons e es ih =>
    obtain ⟨s', he, ht⟩ := run_cons.mp h
    obtain ⟨hs', hfirst⟩ := hstep s e s' hs hC.1 he
    have hrest := ih hs' (hC.2 s' he) ht
    rw [tally_cons he, tally_cons he]
    omega

end FilesEvent.Runs
