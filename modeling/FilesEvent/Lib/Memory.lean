import Mathlib.Data.List.Basic

/-! Memory without bounds, and loops that look for an element in it. A block is
the part of the memory that an array occupies; what the memory holds behind it is
not known. -/

namespace FilesEvent.Memory

variable {α : Type _}

/-- The memory begins with the block `b`. -/
def Shows (mem : Nat → α) (b : List α) : Prop := ∀ i < b.length, b[i]? = some (mem i)

/-- The `n` elements from address `a` on. -/
def window (mem : Nat → α) (a n : Nat) : List α := (List.range' a n).map mem

/-- A block with the element `d` behind it. -/
def ofBlock (d : α) (b : List α) : Nat → α := fun i => b.getD i d

/-- The loop that goes on from address `i` until the element there satisfies `p`:
the addresses it reads, and the one it stops at. -/
def scan (mem : Nat → α) (p : α → Bool) : Nat → Nat → Option (List Nat × Nat)
  | 0, _ => none
  | fuel + 1, i =>
      if p (mem i) then some ([i], i)
      else (scan mem p fuel (i + 1)).map fun r => (i :: r.1, r.2)

@[simp] theorem length_window (mem : Nat → α) (a n : Nat) : (window mem a n).length = n := by
  simp [window]

theorem shows_ofBlock (d : α) (b : List α) : Shows (ofBlock d b) b := by
  intro i hi
  simp [ofBlock, List.getD_eq_getElem?_getD, List.getElem?_eq_getElem hi]

theorem getElem?_window (mem : Nat → α) {a n i : Nat} (h : i < n) :
    (window mem a n)[i]? = some (mem (a + i)) := by
  simp [window, h]

/-- A window inside the block is a part of it. -/
theorem Shows.window {mem : Nat → α} {b : List α} (hm : Shows mem b) {a n : Nat}
    (h : a + n ≤ b.length) : window mem a n = (b.drop a).take n := by
  apply List.ext_getElem?
  intro i
  rw [List.getElem?_take, List.getElem?_drop]
  by_cases hi : i < n
  · rw [if_pos hi, getElem?_window mem hi, hm (a + i) (by omega)]
  · rw [if_neg hi, List.getElem?_eq_none]
    simpa using hi

/-- A scan ends at the first element that satisfies `p`, and has read everything
up to it. -/
theorem scan_stop {mem : Nat → α} {p : α → Bool} {fuel i k : Nat} {reads : List Nat}
    (h : scan mem p fuel i = some (reads, k)) :
    i ≤ k ∧ p (mem k) = true ∧ (∀ j, i ≤ j → j < k → p (mem j) = false) ∧
      ∀ j, j ∈ reads ↔ i ≤ j ∧ j ≤ k := by
  induction fuel generalizing i reads with
  | zero => cases h
  | succ fuel ih =>
    simp only [scan] at h
    split at h
    · rename_i hp
      obtain ⟨rfl, rfl⟩ := Prod.mk.inj (Option.some.inj h)
      refine ⟨Nat.le_refl i, hp, fun j hij hji => by omega, fun j => ?_⟩
      rw [List.mem_singleton]
      omega
    · rename_i hp
      obtain ⟨⟨reads', k'⟩, hr, heq⟩ := Option.map_eq_some_iff.mp h
      obtain ⟨rfl, rfl⟩ := Prod.mk.inj heq
      obtain ⟨hik, hk, hbefore, hreads⟩ := ih hr
      refine ⟨by omega, hk, fun j hij hjk => ?_, fun j => ?_⟩
      · rcases Nat.eq_or_lt_of_le hij with rfl | hlt
        · exact eq_false_of_ne_true hp
        · exact hbefore j hlt hjk
      · rw [List.mem_cons, hreads]
        omega

/-- It does end when there is such an element. -/
theorem exists_scan {mem : Nat → α} {p : α → Bool} (fuel : Nat) {i k : Nat} (hik : i ≤ k)
    (hk : p (mem k) = true) (hfuel : k < i + fuel) :
    ∃ reads k', scan mem p fuel i = some (reads, k') ∧ k' ≤ k := by
  induction fuel generalizing i with
  | zero => omega
  | succ fuel ih =>
    simp only [scan]
    split
    · exact ⟨_, i, rfl, hik⟩
    · rename_i hp
      have hne : i ≠ k := by
        rintro rfl
        exact hp hk
      obtain ⟨reads, k', hr, hle⟩ := ih (i := i + 1) (by omega) (by omega)
      exact ⟨i :: reads, k', by rw [hr]; rfl, hle⟩

/-- When the block holds such an element from `i` on, it ends inside the block. -/
theorem Shows.exists_scan {mem : Nat → α} {p : α → Bool} {b : List α} (hm : Shows mem b)
    {i : Nat} {c : α} (hc : c ∈ b.drop i) (hp : p c = true) :
    ∃ reads k, scan mem p b.length i = some (reads, k) ∧ k < b.length := by
  obtain ⟨j, hj⟩ := List.mem_iff_getElem?.mp hc
  rw [List.getElem?_drop] at hj
  have hlt := (List.getElem?_eq_some_iff.mp hj).1
  rw [hm _ hlt] at hj
  have hstop : p (mem (i + j)) = true := Option.some.inj hj ▸ hp
  obtain ⟨reads, k, hscan, hle⟩ := Memory.exists_scan b.length (Nat.le_add_right i j) hstop (by omega)
  exact ⟨reads, k, hscan, by omega⟩

/-- A scan that ended inside the block splits it there. -/
theorem Shows.drop_eq {mem : Nat → α} {p : α → Bool} {b : List α} (hm : Shows mem b)
    {fuel i k : Nat} {reads : List Nat} (h : scan mem p fuel i = some (reads, k))
    (hk : k < b.length) :
    b.drop i = Memory.window mem i (k - i) ++ mem k :: b.drop (k + 1) ∧
      ∀ c ∈ Memory.window mem i (k - i), p c = false := by
  obtain ⟨hik, -, hbefore, -⟩ := scan_stop h
  constructor
  · obtain ⟨hk', hget⟩ := List.getElem?_eq_some_iff.mp (hm k hk)
    have hrest : (b.drop i).drop (k - i) = mem k :: b.drop (k + 1) := by
      rw [List.drop_drop, Nat.add_sub_cancel' hik, ← hget, List.drop_eq_getElem_cons]
    rw [hm.window (by omega), ← hrest, List.take_append_drop]
  · intro c hc
    obtain ⟨j, hj, rfl⟩ := List.mem_map.mp hc
    rw [List.mem_range'_1] at hj
    exact hbefore j hj.1 (by omega)

end FilesEvent.Memory
