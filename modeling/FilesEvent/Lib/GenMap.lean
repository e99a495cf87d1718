import Mathlib.Data.List.Induction
import Mathlib.Logic.Function.Basic

/-! A map with generations. Its keys are grouped into rows; from the first `put`
into a row on, the map counts how often each key of the row is removed. What a
list of calls leaves under a key is read off the list: the value by the last
call that puts or removes it, the generation by the removals since the row is in
use. -/

namespace FilesEvent

/-- What the map holds under each key, how often each has been removed, and the
rows in use. -/
structure GenMap (κ ρ σ : Type _) where
  held : κ → Option σ
  gen : κ → Nat
  used : ρ → Bool

namespace GenMap

variable {κ ρ σ : Type _} [DecidableEq κ] [DecidableEq ρ]

/-- A call; `put k none` leaves nothing under `k`. -/
inductive Call (κ σ : Type _)
  | put (k : κ) (v : Option σ)
  | get (k : κ)
  | remove (k : κ)

namespace Call

def key : Call κ σ → κ
  | .put k _ | .get k | .remove k => k

/-- The call decides what is under `k`. -/
def settles (k : κ) : Call κ σ → Bool
  | .put k' _ | .remove k' => k' = k
  | .get _ => false

def removes (k : κ) : Call κ σ → Bool
  | .remove k' => k' = k
  | _ => false

/-- The call puts something into the row `r`. -/
def opens (row : κ → ρ) (r : ρ) : Call κ σ → Bool
  | .put k _ => row k = r
  | _ => false

end Call

def empty : GenMap κ ρ σ := ⟨fun _ => none, fun _ => 0, fun _ => false⟩

def apply (row : κ → ρ) (g : GenMap κ ρ σ) : Call κ σ → GenMap κ ρ σ
  | .put k v => { g with held := Function.update g.held k v
                         used := Function.update g.used (row k) true }
  | .get _ => g
  | .remove k =>
      if g.used (row k) then { g with held := Function.update g.held k none
                                      gen := Function.update g.gen k (g.gen k + 1) }
      else g

/-- The map after the calls `cs`. -/
def after (row : κ → ρ) (cs : List (Call κ σ)) : GenMap κ ρ σ := cs.foldl (apply row) empty

/-- `v` has been put under `k`, and since then nothing has been put or removed there. -/
def LastPut (k : κ) (v : σ) (cs : List (Call κ σ)) : Prop :=
  ∃ as bs, cs = as ++ .put k (some v) :: bs ∧ ∀ c ∈ bs, c.settles k = false

/-- The removals of `k` from the first call on that puts something into its row. -/
def removals (row : κ → ρ) (k : κ) (cs : List (Call κ σ)) : Nat :=
  (cs.dropWhile fun c => !c.opens row (row k)).countP (·.removes k)

section Calls

variable {row : κ → ρ} {k : κ} {v : σ} {cs : List (Call κ σ)} {c : Call κ σ}

theorem after_concat : after row (cs ++ [c]) = (after row cs).apply row c := by
  rw [after, after, List.foldl_append, List.foldl_cons, List.foldl_nil]

theorem lastPut_concat :
    LastPut k v (cs ++ [c]) ↔
      c = .put k (some v) ∨ (c.settles k = false ∧ LastPut k v cs) := by
  constructor
  · rintro ⟨as, bs, heq, hbs⟩
    rcases List.eq_nil_or_concat bs with rfl | ⟨bs, b, rfl⟩
    · exact .inl (List.singleton_inj.mp (List.append_inj_right' heq rfl))
    · rw [List.concat_eq_append, ← List.cons_append, ← List.append_assoc] at heq
      rw [List.concat_eq_append] at hbs
      obtain rfl := List.singleton_inj.mp (List.append_inj_right' heq rfl)
      exact .inr ⟨hbs c (by simp), as, bs, List.append_inj_left' heq rfl,
        fun b hb => hbs b (by simp [hb])⟩
  · rintro (rfl | ⟨hc, as, bs, rfl, hbs⟩)
    · exact ⟨cs, [], rfl, by simp⟩
    · refine ⟨as, bs ++ [c], by simp, fun b hb => ?_⟩
      rcases List.mem_append.mp hb with hb | hb
      · exact hbs b hb
      · rwa [List.mem_singleton.mp hb]

/-- A row is in use once something has been put into it. -/
theorem used_after {r : ρ} : (after row cs).used r = cs.any (·.opens row r) := by
  induction cs using List.reverseRecOn with
  | nil => rfl
  | append_singleton cs c ih =>
    rw [after_concat, List.any_append, ← ih]
    cases c with
    | put k' v' =>
      simp only [apply, Function.update_apply, Call.opens, List.any_cons, List.any_nil]
      by_cases h : r = row k'
      · simp [h]
      · simp [h, Ne.symm h]
    | get k' => simp [apply, Call.opens]
    | remove k' =>
      simp only [apply, Call.opens, List.any_cons, List.any_nil, Bool.or_false]
      split <;> rfl

/-- Nothing is held in a row that is not in use. -/
theorem held_eq_none_of_not_used (h : (after row cs).used (row k) = false) :
    (after row cs).held k = none := by
  induction cs using List.reverseRecOn with
  | nil => rfl
  | append_singleton cs c ih =>
    rw [after_concat] at h ⊢
    cases c with
    | put k' v' =>
      simp only [apply, Function.update_apply] at h ⊢
      have hne : k ≠ k' := fun hk => by simp [hk] at h
      rw [if_neg hne]
      apply ih
      split at h
      · cases h
      · exact h
    | get k' => exact ih h
    | remove k' =>
      simp only [apply] at h ⊢
      split at h <;> rename_i hused
      · rw [if_pos hused]
        simp only [Function.update_apply]
        split
        · rfl
        · exact ih h
      · rw [if_neg hused]
        exact ih h

/-- The value under a key is the one last put there and not removed since. -/
theorem held_after : (after row cs).held k = some v ↔ LastPut k v cs := by
  induction cs using List.reverseRecOn with
  | nil => simp [after, empty, LastPut]
  | append_singleton cs c ih =>
    rw [lastPut_concat, ← ih, after_concat]
    cases c with
    | put k' v' =>
      simp only [apply, Function.update_apply, Call.settles, Call.put.injEq, decide_eq_false_iff_not]
      by_cases h : k = k'
      · simp [h]
      · simp [h, Ne.symm h]
    | get k' => simp [apply, Call.settles]
    | remove k' =>
      by_cases h : k = k'
      · subst h
        have hnone : ((after row cs).apply row (.remove k)).held k = none := by
          simp only [apply]
          split
          · simp
          · rename_i hused
            exact held_eq_none_of_not_used (eq_false_of_ne_true hused)
        simp [hnone, Call.settles]
      · have hsame : ((after row cs).apply row (.remove k')).held k = (after row cs).held k := by
          simp only [apply]
          split
          · simp [h]
          · rfl
        simp [hsame, Call.settles, Ne.symm h]

theorem removals_concat :
    removals row k (cs ++ [c]) = removals row k cs +
      if cs.any (·.opens row (row k)) && c.removes k then 1 else 0 := by
  induction cs with
  | nil =>
    have hput : c.opens row (row k) = true → c.removes k = false := by
      cases c <;> simp [Call.opens, Call.removes]
    cases ho : c.opens row (row k) with
    | true => simp [removals, ho, hput ho]
    | false => simp [removals, ho]
  | cons b cs ih =>
    simp only [removals] at ih ⊢
    cases hb : b.opens row (row k) with
    | true =>
      simp only [hb, List.cons_append, List.any_cons, Bool.true_or, Bool.true_and, Bool.not_true,
        Bool.false_eq_true, not_false_eq_true, List.dropWhile_cons_of_neg, List.countP_cons,
        List.countP_append, List.countP_nil]
      omega
    | false => simpa [hb] using ih

/-- The generation of a key counts its removals since the row is in use. -/
theorem gen_after : (after row cs).gen k = removals row k cs := by
  induction cs using List.reverseRecOn with
  | nil => rfl
  | append_singleton cs c ih =>
    rw [removals_concat, ← ih, ← used_after, after_concat]
    cases c with
    | put k' v' => simp [apply, Call.removes]
    | get k' => simp [apply, Call.removes]
    | remove k' =>
      simp only [apply, Call.removes]
      by_cases h : k = k'
      · subst h
        cases (after row cs).used (row k) <;> simp
      · split <;> simp [h, Ne.symm h]

/-- Once the row is in use every further removal of the key is counted. -/
theorem removals_append {as bs : List (Call κ σ)} (h : as.any (·.opens row (row k)) = true) :
    removals row k (as ++ bs) = removals row k as + bs.countP (·.removes k) := by
  induction bs using List.reverseRecOn with
  | nil => simp
  | append_singleton bs b ih =>
    rw [← List.append_assoc, removals_concat, ih, List.any_append, h, List.countP_append,
      List.countP_singleton]
    cases b.removes k <;> simp [Nat.add_assoc]

end Calls

end GenMap

end FilesEvent
