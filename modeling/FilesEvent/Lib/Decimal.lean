import Mathlib.Algebra.GroupWithZero.Nat
import Mathlib.Data.List.TakeWhile
import Mathlib.Data.Int.Notation

/-! Decimal numbers as `printf("%d")` prints them and `atoi` reads them. -/

namespace FilesEvent.Decimal

def isDigit (c : UInt8) : Bool := 48 ≤ c && c ≤ 57
def isSpace (c : UInt8) : Bool := c = 32 || 9 ≤ c && c ≤ 13

/-- The digits at the start of a text, as a number. -/
def digitsValue (s : List UInt8) : Nat :=
  (s.takeWhile isDigit).foldl (fun n c => 10 * n + (c.toNat - 48)) 0

/-- `atoi`, for numbers that an `int` can hold. -/
def atoi (s : List UInt8) : Int :=
  match s.dropWhile isSpace with
  | [] => 0
  | c :: t =>
      if c = 45 then -(digitsValue t : Int)
      else if c = 43 then digitsValue t
      else digitsValue (c :: t)

/-- The bytes of an ASCII text. -/
def bytes (s : List Char) : List UInt8 := s.map fun c => UInt8.ofNat c.toNat

def decimal (n : Int) : List UInt8 := bytes (toString n).toList

/-- The digits of a natural number. -/
def digits (n : Nat) : List UInt8 := bytes (Nat.toDigits 10 n)

theorem decimal_of_nonneg {n : Int} (h : 0 ≤ n) : decimal n = digits n.toNat := by
  rw [decimal, Int.toString_eq_repr, Int.repr_eq_if, if_pos h, Nat.toList_repr, digits]

theorem decimal_of_neg {n : Int} (h : n < 0) : decimal n = 45 :: digits n.natAbs := by
  rw [decimal, Int.toString_eq_repr, Int.repr_eq_if, if_neg (by omega), String.toList_append,
    Nat.toList_repr, digits, show (-n).toNat = n.natAbs by omega]
  rfl

theorem isDigit_iff {c : UInt8} : isDigit c = true ↔ 48 ≤ c.toNat ∧ c.toNat ≤ 57 := by
  simp [isDigit, UInt8.le_iff_toNat_le]

/-- A digit is neither white space nor a sign. -/
theorem eq_false_of_isDigit {c : UInt8} (h : isDigit c = true) :
    isSpace c = false ∧ c ≠ 45 ∧ c ≠ 43 := by
  have hc := isDigit_iff.mp h
  refine ⟨?_, ?_, ?_⟩
  · simp only [isSpace, Bool.or_eq_false_iff, Bool.and_eq_false_iff, decide_eq_false_iff_not,
      UInt8.le_iff_toNat_le]
    refine ⟨?_, .inr ?_⟩
    · rintro rfl
      exact absurd h (by decide)
    · have : (13 : UInt8).toNat = 13 := rfl
      omega
  · rintro rfl
    exact absurd h (by decide)
  · rintro rfl
    exact absurd h (by decide)

theorem toNat_of_isDigit {c : Char} (h : c.isDigit = true) :
    (UInt8.ofNat c.toNat).toNat = c.toNat ∧ isDigit (UInt8.ofNat c.toNat) = true := by
  have hc : 48 ≤ c.toNat ∧ c.toNat ≤ 57 := Char.isDigit_iff_toNat.mp h
  have hnat : (UInt8.ofNat c.toNat).toNat = c.toNat := by
    rw [UInt8.toNat_ofNat']
    omega
  exact ⟨hnat, isDigit_iff.mpr (hnat.symm ▸ hc)⟩

theorem isDigit_of_mem_digits {n : Nat} {c : UInt8} (h : c ∈ digits n) : isDigit c = true := by
  obtain ⟨d, hd, rfl⟩ := List.mem_map.mp h
  exact (toNat_of_isDigit (Nat.isDigit_of_mem_toDigits (by decide) (by decide) hd)).2

theorem foldl_bytes (s : List Char) (hs : ∀ c ∈ s, c.isDigit = true) (init : Nat) :
    (bytes s).foldl (fun n c => 10 * n + (c.toNat - 48)) init = Nat.ofDigitChars 10 s init := by
  induction s generalizing init with
  | nil => rfl
  | cons c s ih =>
    rw [Nat.ofDigitChars_cons, ← ih fun d hd => hs d (List.mem_cons_of_mem _ hd)]
    simp only [bytes, List.map_cons, List.foldl_cons, (toNat_of_isDigit (hs c (by simp))).1]
    rfl

theorem digitsValue_digits (n : Nat) {rest : List UInt8}
    (hrest : ∀ c ∈ rest.head?, isDigit c = false) : digitsValue (digits n ++ rest) = n := by
  have htw : (digits n ++ rest).takeWhile isDigit = digits n := by
    rw [List.takeWhile_append_of_pos fun c hc => isDigit_of_mem_digits hc]
    cases rest with
    | nil => simp
    | cons c rest => simp [hrest c rfl]
  rw [digitsValue, htw, digits, foldl_bytes _ fun c hc =>
    Nat.isDigit_of_mem_toDigits (by decide) (by decide) hc, Nat.ofDigitChars_ten_toDigits]

/-- What is printed is read back, up to whatever follows that is no digit. -/
theorem atoi_decimal (n : Int) {rest : List UInt8} (hrest : ∀ c ∈ rest.head?, isDigit c = false) :
    atoi (decimal n ++ rest) = n := by
  rcases Int.lt_or_le n 0 with h | h
  · rw [decimal_of_neg h, atoi, List.cons_append, List.dropWhile_cons_of_neg (by decide)]
    simp only [if_true, digitsValue_digits _ hrest]
    omega
  · have hne : digits n.toNat ≠ [] := by simp [digits, bytes, Nat.toDigits_ne_nil]
    obtain ⟨c, t, hct⟩ := List.exists_cons_of_ne_nil hne
    have hc : isDigit c = true := isDigit_of_mem_digits (n := n.toNat) (by simp [hct])
    obtain ⟨hspace, hminus, hplus⟩ := eq_false_of_isDigit hc
    have hval := digitsValue_digits n.toNat hrest
    rw [decimal_of_nonneg h, atoi]
    rw [hct] at hval ⊢
    rw [List.cons_append, List.dropWhile_cons_of_neg (by simp [hspace])]
    simp only [if_neg hminus, if_neg hplus]
    rw [← List.cons_append, hval]
    omega

theorem length_decimal_le {n : Int} {k : Nat} (hk : 0 < k) (h : n.natAbs < 10 ^ k) :
    (decimal n).length ≤ k + 1 := by
  have hlen : ∀ m, m < 10 ^ k → (digits m).length ≤ k := fun m hm => by
    rw [digits, bytes, List.length_map]
    exact (Nat.length_toDigits_le_iff (by decide) hk).mpr hm
  rcases Int.lt_or_le n 0 with hn | hn
  · rw [decimal_of_neg hn, List.length_cons]
    exact Nat.succ_le_succ (hlen _ h)
  · rw [decimal_of_nonneg hn]
    have := hlen n.toNat (by omega)
    omega

theorem mem_decimal {n : Int} {c : UInt8} (h : c ∈ decimal n) : c = 45 ∨ isDigit c = true := by
  rcases Int.lt_or_le n 0 with hn | hn
  · rw [decimal_of_neg hn] at h
    exact (List.mem_cons.mp h).imp_right isDigit_of_mem_digits
  · rw [decimal_of_nonneg hn] at h
    exact .inr (isDigit_of_mem_digits h)

end FilesEvent.Decimal
