/-! Bytes, 32-bit words and machine integers. Words are little endian. A
memory block is a list of bytes; a store that runs past its end keeps the
part that fits. -/

namespace FilesEvent.Bytes

/-- The four bytes of the 32-bit word `n`. -/
def le32 (n : Nat) : List UInt8 :=
  [UInt8.ofNat n, UInt8.ofNat (n / 256), UInt8.ofNat (n / 65536), UInt8.ofNat (n / 16777216)]

/-- The 32-bit word at the start of a block. -/
def rd32 : List UInt8 → Nat
  | a :: b :: c :: d :: _ =>
      a.toNat + 256 * b.toNat + 65536 * c.toNat + 16777216 * d.toNat
  | _ => 0

/-- A 32-bit value stored into an `int`. -/
def asInt (n : Nat) : Int := Int.bmod n 4294967296

/-- An `int` sum, wrapped to 32 bits. -/
def wrapInt (i : Int) : Int := Int.bmod i 4294967296

/-- An `int` converted to `unsigned int`. -/
def asWord (i : Int) : Nat := (i % 4294967296).toNat

/-- An `int` converted to a 64-bit `size_t`. -/
def asSize (i : Int) : Nat := (i % 18446744073709551616).toNat

/-- A block of `n` zero bytes. -/
def zeros (n : Nat) : List UInt8 := List.replicate n 0

/-- `bs` stored into the block `m` from offset `off` on. -/
def writeAt {α : Type _} (m : List α) (off : Nat) (bs : List α) : List α :=
  m.take off ++ bs.take (m.length - off) ++ m.drop (off + bs.length)

@[simp] theorem length_zeros (n : Nat) : (zeros n).length = n := List.length_replicate

@[simp] theorem length_le32 (n : Nat) : (le32 n).length = 4 := rfl

theorem rd32_le32 (n : Nat) (rest : List UInt8) : rd32 (le32 n ++ rest) = n % 4294967296 := by
  simp only [le32, List.cons_append, rd32, UInt8.toNat_ofNat']
  omega

theorem rd32_lt (bs : List UInt8) : rd32 bs < 4294967296 := by
  unfold rd32
  split
  · rename_i a b c d _
    have := a.toNat_lt
    have := b.toNat_lt
    have := c.toNat_lt
    have := d.toNat_lt
    omega
  · omega

theorem rd32_take (bs : List UInt8) {n : Nat} (h : 4 ≤ n) : rd32 (bs.take n) = rd32 bs := by
  obtain ⟨k, rfl⟩ : ∃ k, n = k + 4 := ⟨n - 4, by omega⟩
  match bs with
  | [] => simp
  | [_] => simp
  | [_, _] => simp
  | [_, _, _] => simp
  | _ :: _ :: _ :: _ :: _ => simp [rd32]

theorem asInt_of_lt {n : Nat} (h : n < 2147483648) : asInt n = n := by
  unfold asInt
  rw [Int.bmod_eq_of_le] <;> omega

theorem asInt_neg {n : Nat} (h : 2147483648 ≤ n) (h' : n < 4294967296) :
    asInt n = (n : Int) - 4294967296 := by
  unfold asInt
  rw [Int.bmod_def]
  omega

theorem wrapInt_of_bounds {i : Int} (h : -2147483648 ≤ i) (h' : i < 2147483648) :
    wrapInt i = i := by
  unfold wrapInt
  rw [Int.bmod_eq_of_le] <;> omega

theorem asSize_of_nonneg {i : Int} (h : 0 ≤ i) (h' : i < 18446744073709551616) :
    asSize i = i.toNat := by
  unfold asSize
  rw [Int.emod_eq_of_lt h h']

theorem asSize_neg {i : Int} (h : i < 0) (h' : -2147483648 ≤ i) :
    18446744071562067968 ≤ asSize i := by
  unfold asSize
  omega

/-- A size stored into an `int` is read as no larger one, or as one beyond 2 ^ 63. -/
theorem asSize_asInt (n : Nat) : asSize (asInt n) ≤ n ∨ 9223372036854775808 < asSize (asInt n) := by
  unfold asSize asInt
  rw [Int.bmod_def]
  omega

@[simp] theorem length_writeAt {α : Type _} (m : List α) (off : Nat) (bs : List α) :
    (writeAt m off bs).length = m.length := by
  simp only [writeAt, List.length_append, List.length_take, List.length_drop]
  omega

/-- A store inside the block leaves the bytes before it and shows its own. -/
theorem take_writeAt {α : Type _} {m : List α} {off : Nat} {bs : List α}
    (h : off + bs.length ≤ m.length) :
    (writeAt m off bs).take (off + bs.length) = m.take off ++ bs := by
  have ht : bs.take (m.length - off) = bs := List.take_of_length_le (by omega)
  have hlen : (m.take off ++ bs).length = off + bs.length := by
    rw [List.length_append, List.length_take]
    omega
  rw [writeAt, ht, List.take_append_of_le_length (by omega)]
  exact List.take_of_length_le (by omega)

/-- It leaves the bytes behind it. -/
theorem drop_writeAt {α : Type _} {m : List α} {off k : Nat} {bs : List α}
    (h : off + bs.length ≤ k) (hk : k ≤ m.length) : (writeAt m off bs).drop k = m.drop k := by
  have ht : bs.take (m.length - off) = bs := List.take_of_length_le (by omega)
  have hlen : (m.take off ++ bs).length = off + bs.length := by simp; omega
  rw [writeAt, ht, List.drop_append, List.drop_of_length_le (by omega), List.nil_append, hlen,
    List.drop_drop, show off + bs.length + (k - (off + bs.length)) = k by omega]

/-- A store at the start of the block, inside it. -/
theorem writeAt_zero {α : Type _} {m bs : List α} (h : bs.length ≤ m.length) :
    writeAt m 0 bs = bs ++ m.drop bs.length := by
  simp [writeAt, List.take_of_length_le h]

theorem getElem?_writeAt {α : Type _} (m : List α) (off : Nat) (bs : List α) (i : Nat) :
    (writeAt m off bs)[i]? =
      if off ≤ i ∧ i < off + bs.length ∧ i < m.length then bs[i - off]? else m[i]? := by
  unfold writeAt
  rw [List.getElem?_append, List.getElem?_append, List.getElem?_take, List.getElem?_take,
    List.getElem?_drop, List.length_append, List.length_take, List.length_take]
  rcases Nat.lt_or_ge i m.length with hi | hi
  · by_cases hoff : i < off
    · rw [if_pos (by omega), if_pos (by omega), if_pos hoff, if_neg (by omega)]
    · by_cases hin : i < off + bs.length
      · rw [if_pos (by omega), if_neg (by omega), if_pos (by omega), if_pos ⟨by omega, hin, hi⟩,
          Nat.min_eq_left (by omega)]
      · rw [if_neg (by omega), if_neg (by omega)]
        exact congrArg (fun j => m[j]?) (by omega)
  · -- behind the block
    rw [if_neg (by omega), if_neg (by omega), List.getElem?_eq_none (by omega),
      List.getElem?_eq_none hi]

/-- A store into the beginning of a block is the beginning of the store. -/
theorem writeAt_take {α : Type _} (m : List α) (off k : Nat) (bs : List α) :
    writeAt (m.take k) off bs = (writeAt m off bs).take k := by
  apply List.ext_getElem?
  intro i
  rw [getElem?_writeAt, List.getElem?_take, List.getElem?_take, List.length_take, getElem?_writeAt]
  by_cases hi : i < k
  · rw [if_pos hi, if_pos hi]
    simp only [Nat.lt_min, hi, true_and]
  · rw [if_neg hi, if_neg hi, if_neg (by omega)]

@[simp] theorem writeAt_nil {α : Type _} (m : List α) (off : Nat) : writeAt m off [] = m := by
  simp [writeAt]

end FilesEvent.Bytes
