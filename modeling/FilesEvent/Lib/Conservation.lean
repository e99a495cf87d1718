import FilesEvent.Lib.Runs
import Mathlib.Algebra.BigOperators.Fin
import Mathlib.Algebra.BigOperators.Group.Finset.Piecewise
import Mathlib.Algebra.Order.Group.Multiset

/-! Conservation along a list of events. A state holds a bag of things; what an
event puts in and takes out are lists. If every event keeps the balance, so does the
whole list, and what went in once has come out once or is still there once. -/

namespace FilesEvent.Conservation
open Runs

variable {σ ε α : Type _} {step : σ → ε → σ}

/-- What the events `es` contribute to the list `f`, in order. -/
def collect (step : σ → ε → σ) (f : σ → ε → List α) : σ → List ε → List α
  | _, [] => []
  | s, e :: es => f s e ++ collect step f (step s e) es

/-- Where each event that satisfies `C` keeps the balance, a list of such events does. -/
theorem conserved (step : σ → ε → σ) (held : σ → Multiset α) (into out : σ → ε → List α)
    {C : σ → ε → Prop} (h : ∀ s e, C s e → held (step s e) + out s e = held s + into s e) {s : σ} {es : List ε}
    (hC : Meets (fun s e => some (step s e)) C s es) :
    held (es.foldl step s) + collect step out s es = held s + collect step into s es := by
  induction es generalizing s with
  | nil => rfl
  | cons e es ih =>
    have hfirst := h s e hC.1
    have hrest := ih (hC.2 (step s e) rfl)
    rw [List.foldl_cons, collect, collect, ← Multiset.coe_add, ← Multiset.coe_add]
    calc held (es.foldl step (step s e)) + (out s e + collect step out (step s e) es)
        = held (es.foldl step (step s e)) + collect step out (step s e) es + out s e := by
          rw [add_left_comm, add_comm]
      _ = held (step s e) + out s e + collect step into (step s e) es := by
          rw [hrest, add_right_comm]
      _ = held s + (into s e + collect step into (step s e) es) := by rw [hfirst, add_assoc]

/-- What has come out and what is left, of things that went in once each. -/
theorem once {held out into : Multiset α} (h : held + out = into) (hn : into.Nodup) :
    held.Nodup ∧ out.Nodup ∧
      ∀ a, a ∈ into ↔ (a ∈ out ∧ a ∉ held) ∨ (a ∈ held ∧ a ∉ out) := by
  obtain ⟨hheld, hout, hdisjoint⟩ := Multiset.nodup_add.mp (h ▸ hn)
  refine ⟨hheld, hout, fun a => ?_⟩
  have hboth : a ∈ held → a ∉ out := fun ha => Multiset.disjoint_left.mp hdisjoint ha
  rw [← h, Multiset.mem_add]
  constructor
  · rintro (ha | ha)
    · exact .inr ⟨ha, hboth ha⟩
    · exact .inl ⟨ha, fun hin => hboth hin ha⟩
  · rintro (⟨ha, -⟩ | ⟨ha, -⟩)
    · exact .inr ha
    · exact .inl ha

/-- Where what an event contributes does not depend on the state, nor does what
the events do. -/
theorem collect_const (f : ε → List α) (s : σ) (es : List ε) :
    collect step (fun _ e => f e) s es = es.flatMap f := by
  induction es generalizing s with
  | nil => rfl
  | cons e es ih => rw [collect, ih, List.flatMap_cons]

/-! ## Tables -/

variable {ι β M : Type _} [Fintype ι] [DecidableEq ι] [AddCommMonoid M]

/-- Changing one entry of a table changes a sum over the table in that entry only. -/
theorem sum_update (f : β → M) (g : ι → β) (i : ι) (b : β) :
    ∑ j, f (Function.update g i b j) + f (g i) = ∑ j, f (g j) + f b := by
  have hcomp : ∀ j, f (Function.update g i b j) = Function.update (fun j => f (g j)) i (f b) j := by
    intro j
    simp only [Function.update_apply]
    split <;> rfl
  rw [Finset.sum_congr rfl fun j _ => hcomp j, Finset.sum_update_of_mem (Finset.mem_univ i),
    ← Finset.add_sum_erase _ (fun j => f (g j)) (Finset.mem_univ i), Finset.sdiff_singleton_eq_erase]
  rw [add_right_comm, add_comm (f b), add_assoc, add_right_comm, add_assoc]

/-- The lists that the entries of a table give, one after the other, as a bag. -/
theorem coe_flatMap_finRange {n : Nat} (f : Fin n → List α) :
    (((List.finRange n).flatMap f : List α) : Multiset α) = ∑ i, (f i : Multiset α) := by
  rw [Fin.sum_univ_def]
  induction List.finRange n with
  | nil => rfl
  | cons i is ih => rw [List.flatMap_cons, List.map_cons, List.sum_cons, ← ih, Multiset.coe_add]

end FilesEvent.Conservation
