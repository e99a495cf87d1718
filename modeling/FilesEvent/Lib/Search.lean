import Mathlib.Data.List.Infix
import Mathlib.Data.Nat.Find

/-! Where a key occurs in a list, and its leftmost occurrence. -/

namespace FilesEvent.Search

variable {α : Type _}

/-- The key is found in `s` at position `p`. -/
def OccursAt (key s : List α) (p : Nat) : Prop := p ≤ s.length ∧ key <+: s.drop p

/-- The first position at which the key is found. -/
def Leftmost (key s : List α) (p : Nat) : Prop := OccursAt key s p ∧ ∀ q < p, ¬ OccursAt key s q

instance [DecidableEq α] (key s : List α) (p : Nat) : Decidable (OccursAt key s p) :=
  inferInstanceAs (Decidable (_ ∧ _))

instance [DecidableEq α] (key s : List α) (p : Nat) : Decidable (Leftmost key s p) :=
  inferInstanceAs (Decidable (_ ∧ _))

theorem OccursAt.add_length_le {key s : List α} {p : Nat} (h : OccursAt key s p) :
    p + key.length ≤ s.length := by
  have hle := h.2.length_le
  rw [List.length_drop] at hle
  have hp := h.1
  omega

theorem occursAt_iff_append {key s : List α} {p : Nat} :
    OccursAt key s p ↔ ∃ before after, before.length = p ∧ s = before ++ (key ++ after) := by
  constructor
  · rintro ⟨hp, after, hafter⟩
    refine ⟨s.take p, after, by rw [List.length_take]; omega, ?_⟩
    rw [hafter, List.take_append_drop]
  · rintro ⟨before, after, rfl, rfl⟩
    refine ⟨by simp, after, ?_⟩
    rw [List.drop_left]

/-- An occurrence is where the next elements are those of the key. -/
theorem occursAt_iff_take {key s : List α} {p : Nat} (h : p + key.length ≤ s.length) :
    OccursAt key s p ↔ (s.drop p).take key.length = key := by
  rw [OccursAt, List.prefix_iff_eq_take, eq_comm]
  exact and_iff_right (by omega)

theorem OccursAt.head {c : α} {key s : List α} {p : Nat} (h : OccursAt (c :: key) s p) :
    s[p]? = some c := by
  obtain ⟨rest, hrest⟩ := h.2
  rw [← Nat.add_zero p, ← List.getElem?_drop, ← hrest]
  rfl

theorem occursAt_zero {key s : List α} : OccursAt key s 0 ↔ key <+: s := by
  simp [OccursAt]

theorem occursAt_nil {key : List α} {p : Nat} : OccursAt key [] p ↔ p = 0 ∧ key = [] := by
  simp [OccursAt]

theorem occursAt_cons_succ {key s : List α} {c : α} {p : Nat} :
    OccursAt key (c :: s) (p + 1) ↔ OccursAt key s p := by
  simp [OccursAt]

theorem Leftmost.unique {key s : List α} {p q : Nat} (hp : Leftmost key s p)
    (hq : Leftmost key s q) : p = q := by
  rcases Nat.lt_trichotomy p q with h | h | h
  · exact absurd hp.1 (hq.2 p h)
  · exact h
  · exact absurd hq.1 (hp.2 q h)

theorem leftmost_zero {key s : List α} : Leftmost key s 0 ↔ key <+: s := by
  simp [Leftmost, occursAt_zero]

/-- Behind an element at which the key does not begin, the search goes on. -/
theorem leftmost_cons_succ {key s : List α} {c : α} {p : Nat} (h : ¬ key <+: c :: s) :
    Leftmost key (c :: s) (p + 1) ↔ Leftmost key s p := by
  unfold Leftmost
  rw [occursAt_cons_succ]
  refine and_congr_right fun _ => ⟨fun hall q hq => ?_, fun hall q hq => ?_⟩
  · rw [← occursAt_cons_succ (c := c)]
    exact hall (q + 1) (by omega)
  · cases q with
    | zero => rwa [occursAt_zero]
    | succ q => rw [occursAt_cons_succ]; exact hall q (by omega)

theorem exists_leftmost {key s : List α} (h : ∃ p, OccursAt key s p) : ∃ p, Leftmost key s p := by
  classical
  exact ⟨Nat.find h, Nat.find_spec h, fun _ hq => Nat.find_min h hq⟩

end FilesEvent.Search
