import Mathlib.Data.Prod.Lex
import Mathlib.Order.Lex
import Mathlib.Algebra.GroupWithZero.Nat

/-! `struct timeval` and the macros of `sys/time.h`. -/

namespace FilesEvent.Net

structure Timeval where
  sec : Int
  usec : Int
  deriving DecidableEq, Repr

namespace Timeval

/-- What the clock gives, and what every computed time is to be. -/
def Valid (t : Timeval) : Prop := 0 ≤ t.usec ∧ t.usec < 1000000

instance (t : Timeval) : Decidable (Valid t) := inferInstanceAs (Decidable (_ ∧ _))

/-- What a caller may pass as a delay. A full second of microseconds is carried. -/
def Delay (t : Timeval) : Prop := 0 ≤ t.sec ∧ 0 ≤ t.usec ∧ t.usec ≤ 1000000

instance (t : Timeval) : Decidable (Delay t) := inferInstanceAs (Decidable (_ ∧ _ ∧ _))

def micros (t : Timeval) : Int := t.sec * 1000000 + t.usec

/-- `timercmp(a, b, <)`. -/
def lt (a b : Timeval) : Bool :=
  if a.sec = b.sec then decide (a.usec < b.usec) else decide (a.sec < b.sec)

/-- `timeradd`. -/
def add (a b : Timeval) : Timeval :=
  if a.usec + b.usec ≥ 1000000 then ⟨a.sec + b.sec + 1, a.usec + b.usec - 1000000⟩
  else ⟨a.sec + b.sec, a.usec + b.usec⟩

/-- `timersub`. -/
def sub (a b : Timeval) : Timeval :=
  if a.usec - b.usec < 0 then ⟨a.sec - b.sec - 1, a.usec - b.usec + 1000000⟩
  else ⟨a.sec - b.sec, a.usec - b.usec⟩

theorem lt_iff {a b : Timeval} : a.lt b ↔ a.sec < b.sec ∨ a.sec = b.sec ∧ a.usec < b.usec := by
  unfold lt
  split
  next h => simp [h]
  next h => simp [h]

theorem lt_iff_micros {a b : Timeval} (ha : a.Valid) (hb : b.Valid) :
    a.lt b ↔ a.micros < b.micros := by
  obtain ⟨ha₀, ha₁⟩ := ha
  obtain ⟨hb₀, hb₁⟩ := hb
  rw [lt_iff, micros, micros]
  omega

theorem micros_inj {a b : Timeval} (ha : a.Valid) (hb : b.Valid) (h : a.micros = b.micros) :
    a = b := by
  obtain ⟨ha₀, ha₁⟩ := ha
  obtain ⟨hb₀, hb₁⟩ := hb
  rw [micros, micros] at h
  cases a
  cases b
  simp only [mk.injEq] at *
  omega

theorem micros_add (a b : Timeval) : (a.add b).micros = a.micros + b.micros := by
  unfold add
  split <;> simp only [micros] <;> omega

theorem micros_sub (a b : Timeval) : (a.sub b).micros = a.micros - b.micros := by
  unfold sub
  split <;> simp only [micros] <;> omega

theorem Valid.add {a b : Timeval} (ha : a.Valid) (hb : b.Delay) : (a.add b).Valid := by
  obtain ⟨ha₀, ha₁⟩ := ha
  obtain ⟨-, hb₀, hb₁⟩ := hb
  unfold Timeval.add
  split <;> constructor <;> simp only <;> omega

theorem Valid.sub {a b : Timeval} (ha : a.Valid) (hb : b.Valid) : (a.sub b).Valid := by
  obtain ⟨ha₀, ha₁⟩ := ha
  obtain ⟨hb₀, hb₁⟩ := hb
  unfold Timeval.sub
  split <;> constructor <;> simp only <;> omega

/-- Times that are all moved by one offset keep their order. -/
theorem lt_sub {a b off : Timeval} (ha : a.Valid) (hb : b.Valid) (ho : off.Valid) :
    (a.sub off).lt (b.sub off) ↔ a.lt b := by
  rw [lt_iff_micros (ha.sub ho) (hb.sub ho), lt_iff_micros ha hb, micros_sub, micros_sub]
  omega

theorem lt_irrefl (t : Timeval) : t.lt t = false := by
  simp [lt]

theorem delay_sub {a b : Timeval} (ha : a.Valid) (hb : b.Valid) (h : a.lt b) : (b.sub a).Delay := by
  have hv := hb.sub ha
  refine ⟨?_, hv.1, hv.2.le⟩
  rw [lt_iff_micros ha hb] at h
  have hm := micros_sub b a
  obtain ⟨h₀, h₁⟩ := hv
  rw [micros] at hm
  omega

/-- The wait until a later time ends at that time. -/
theorem add_sub_cancel {a b : Timeval} (ha : a.Valid) (hb : b.Valid) (h : a.lt b) :
    a.add (b.sub a) = b := by
  refine micros_inj (ha.add (delay_sub ha hb h)) hb ?_
  rw [micros_add, micros_sub]
  omega

theorem add_zero {a : Timeval} (ha : a.Valid) : a.add ⟨0, 0⟩ = a := by
  obtain ⟨-, h⟩ := ha
  rw [add, if_neg (by simp only; omega)]
  simp

end Timeval

end FilesEvent.Net
