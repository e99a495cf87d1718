import Mathlib.Algebra.GroupWithZero.Nat
import FilesEvent.Lib.Bytes

/-! `struct evbuffer` of `net/buffer.c`: the bytes of the buffer are one stretch of a
block, which grows by doubling. -/

namespace FilesEvent

open Bytes (asInt writeAt)

/-- `struct evbuffer`; `orig_buffer` is the block it points to, and `buffer` an
offset in it. A `BufferCache` sets no callback. -/
structure Evbuffer where
  orig_buffer : Option (List UInt8)
  buffer : Nat
  misalign : Nat
  totallen : Nat
  off : Nat

namespace Evbuffer

/-- `evbuffer_new`. -/
def new : Evbuffer := ⟨none, 0, 0, 0, 0⟩

def block (b : Evbuffer) : List UInt8 := b.orig_buffer.getD []

/-- The bytes of the buffer. -/
def content (b : Evbuffer) : List UInt8 := (b.block.drop b.buffer).take b.off

/-- `evbuffer_align`. -/
def align (b : Evbuffer) : Evbuffer :=
  { b with orig_buffer := b.orig_buffer.map fun block => writeAt block 0 b.content
           buffer := 0
           misalign := 0 }

/-- `length <<= 1` until `length` reaches `need`. -/
def grow (need : Nat) : Nat → Nat → Option Nat
  | 0, _ => none
  | fuel + 1, length =>
      if length < need then grow need fuel (length * 2 % 18446744073709551616) else some length

/-- A successful `realloc`; the allocator leaves the bytes `fresh` behind the old ones. -/
def realloc (fresh : Nat → UInt8) (block : List UInt8) (length : Nat) : List UInt8 :=
  block.take length ++ (List.range (length - block.length)).map fresh

/-- `evbuffer_expand`; `none` where the loop does not end. -/
def expand (fresh : Nat → UInt8) (b : Evbuffer) (datlen : Nat) : Option Evbuffer :=
  let need := (b.misalign + b.off + datlen) % 18446744073709551616
  if need ≤ b.totallen then some b
  else if datlen ≤ b.misalign then some b.align
  else
    -- 64 doublings leave nothing of `length`
    (grow need 65 (if b.totallen < 256 then 256 else b.totallen)).map fun length =>
      let b := if b.buffer ≠ 0 then b.align else b
      { b with orig_buffer := some (realloc fresh b.block length)
               buffer := 0
               totallen := length }

/-- `evbuffer_add`; `none` also where `memcpy` leaves one of the two blocks. -/
def add (fresh : Nat → UInt8) (b : Evbuffer) (data : List UInt8) (datlen : Nat) : Option Evbuffer :=
  let need := (b.misalign + b.off + datlen) % 18446744073709551616
  (if b.totallen < need then b.expand fresh datlen else some b).bind fun b =>
    if b.buffer + b.off + datlen ≤ b.block.length ∧ datlen ≤ data.length then
      some { b with orig_buffer := b.orig_buffer.map fun block =>
                      writeAt block (b.buffer + b.off) (data.take datlen)
                    off := b.off + datlen }
    else none

/-- `evbuffer_drain`. -/
def drain (b : Evbuffer) (len : Nat) : Evbuffer :=
  if b.off ≤ len then { b with off := 0, buffer := 0, misalign := 0 }
  else { b with buffer := b.buffer + len, misalign := b.misalign + len, off := b.off - len }

/-- `evbuffer_remove`, with the bytes copied out. -/
def remove (b : Evbuffer) (datlen : Nat) : Evbuffer × List UInt8 × Int :=
  let nread := if b.off ≤ datlen then b.off else datlen
  (b.drain nread, (b.block.drop b.buffer).take nread, asInt nread)

/-- A NUL stored behind the bytes. -/
def terminate (b : Evbuffer) : Evbuffer :=
  { b with orig_buffer := b.orig_buffer.map fun block => writeAt block (b.buffer + b.off) [0] }

def isLineEnd (c : UInt8) : Bool := c = 13 || c = 10

/-- The index at which the search of `evbuffer_readline` stops, from `i` on; `none`
where the index, an `unsigned int`, begins again at 0, and the search with it. -/
def lineEnd : List UInt8 → Nat → Option Nat
  | [], i => some i
  | c :: data, i =>
      if isLineEnd c then some i
      else if i + 1 = 4294967296 then none
      else lineEnd data (i + 1)

/-- `evbuffer_readline`, with the line; `none` where it does not return. -/
def readline (b : Evbuffer) : Option (Evbuffer × Option (List UInt8)) :=
  (lineEnd b.content 0).bind fun i =>
    if i = b.off then some (b, none)
    else if i + 1 = 4294967296 then none -- `malloc( 0 )` for a line of 4 GiB
    else
      let second := b.content.getD (i + 1) 0
      let i' := if i < b.off - 1 ∧ isLineEnd second ∧ second ≠ b.content.getD i 0 then i + 1 else i
      some (b.drain ((i' + 1) % 4294967296), some (b.content.take i))

/-! ## The doubling loop -/

theorem grow_ge {need fuel length n : Nat} (h : grow need fuel length = some n) : need ≤ n := by
  induction fuel generalizing length with
  | zero => cases h
  | succ fuel ih =>
    rw [grow] at h
    split at h
    · exact ih h
    · cases h
      omega

theorem grow_lt {need fuel length n : Nat} (hl : length < 18446744073709551616)
    (h : grow need fuel length = some n) : n < 18446744073709551616 := by
  induction fuel generalizing length with
  | zero => cases h
  | succ fuel ih =>
    rw [grow] at h
    split at h
    · exact ih (Nat.mod_lt _ (by decide)) h
    · cases h
      exact hl

theorem grow_eq_none_iff {need fuel length : Nat} (hl : length < 18446744073709551616) :
    grow need fuel length = none ↔
      ∀ j < fuel, length * 2 ^ j % 18446744073709551616 < need := by
  induction fuel generalizing length with
  | zero => exact iff_of_true rfl fun j hj => absurd hj (Nat.not_lt_zero j)
  | succ fuel ih =>
    have hstep : ∀ j, length * 2 % 18446744073709551616 * 2 ^ j % 18446744073709551616 =
        length * 2 ^ (j + 1) % 18446744073709551616 := by
      intro j
      rw [Nat.mod_mul_mod, Nat.mul_assoc, Nat.pow_succ']
    rw [grow]
    constructor
    · intro h j hj
      split at h
      · rename_i hlt
        cases j with
        | zero => rwa [Nat.pow_zero, Nat.mul_one, Nat.mod_eq_of_lt hl]
        | succ j =>
          rw [← hstep]
          exact (ih (Nat.mod_lt _ (by decide))).mp h j (by omega)
      · cases h
    · intro h
      have hlt := h 0 (by omega)
      rw [Nat.pow_zero, Nat.mul_one, Nat.mod_eq_of_lt hl] at hlt
      rw [if_pos hlt, ih (Nat.mod_lt _ (by decide))]
      intro j hj
      rw [hstep]
      exact h (j + 1) (by omega)

/-- A loop that is not over after 64 doublings never is. -/
theorem grow_forever {need length : Nat} (hl : length < 18446744073709551616)
    (h : grow need 65 length = none) (fuel : Nat) : grow need fuel length = none := by
  rw [grow_eq_none_iff hl] at h ⊢
  intro j _
  rcases Nat.lt_or_ge j 65 with hj | hj
  · exact h j hj
  · have hzero : length * 2 ^ j % 18446744073709551616 = 0 := by
      obtain ⟨k, rfl⟩ := Nat.exists_eq_add_of_le (show 64 ≤ j by omega)
      rw [Nat.pow_add, ← Nat.mul_assoc, Nat.mul_right_comm]
      exact Nat.mul_mod_left _ _
    have hlast := h 64 (by decide)
    omega

/-- Sizes that the address space has room for are reached. -/
theorem exists_grow (fuel : Nat) {need length : Nat} (hneed : need ≤ 9223372036854775808)
    (h : need ≤ length * 2 ^ fuel) : ∃ n, grow need (fuel + 1) length = some n := by
  induction fuel generalizing length with
  | zero =>
    rw [Nat.pow_zero, Nat.mul_one] at h
    exact ⟨length, by rw [grow, if_neg (by omega)]⟩
  | succ fuel ih =>
    rw [grow]
    split
    · rename_i hlt
      have hdouble : length * 2 % 18446744073709551616 = length * 2 := Nat.mod_eq_of_lt (by omega)
      rw [hdouble]
      apply ih
      rwa [Nat.mul_assoc, ← Nat.pow_succ']
    · exact ⟨length, rfl⟩

/-! ## What the operations keep -/

/-- The bytes of the buffer are a stretch of the block. -/
structure Ok (b : Evbuffer) : Prop where
  sized : b.totallen < 18446744073709551616
  nonempty : b.orig_buffer.isSome = true → 0 < b.totallen
  aligned : b.buffer = b.misalign
  allocated : b.block.length = b.totallen
  fits : b.misalign + b.off ≤ b.totallen

theorem ok_new : new.Ok := ⟨by decide, nofun, rfl, rfl, Nat.le_refl 0⟩

section Keep

variable {b b' : Evbuffer} {fresh : Nat → UInt8} {datlen : Nat}

theorem Ok.length_content (h : b.Ok) : b.content.length = b.off := by
  have hblock := h.allocated
  have hfits := h.fits
  rw [content, List.length_take, List.length_drop, h.aligned]
  omega

theorem block_align (b : Evbuffer) : b.align.block = writeAt b.block 0 b.content := by
  cases horig : b.orig_buffer with
  | none => simp [align, block, content, horig]
  | some block => simp [align, Evbuffer.block, horig]

theorem Ok.align (h : b.Ok) : b.align.Ok where
  sized := h.sized
  nonempty := by simpa [Evbuffer.align] using h.nonempty
  aligned := rfl
  allocated := by
    rw [block_align, Bytes.length_writeAt, h.allocated]
    rfl
  fits := Nat.le_trans (Nat.add_le_add_right (Nat.zero_le b.misalign) b.off) h.fits

theorem Ok.content_align (h : b.Ok) : b.align.content = b.content := by
  have hlen := h.length_content
  have hfit : 0 + b.content.length ≤ b.block.length := by
    have := h.allocated
    have := h.fits
    omega
  have htake := Bytes.take_writeAt hfit
  rw [Nat.zero_add, List.take_zero, List.nil_append, hlen] at htake
  rw [content, block_align]
  exact htake

theorem length_realloc {block : List UInt8} {length : Nat} (h : block.length ≤ length) :
    (realloc fresh block length).length = length := by
  rw [realloc, List.length_append, List.length_map, List.length_range, List.length_take]
  omega

theorem take_realloc {block : List UInt8} {length n : Nat} (h : block.length ≤ length)
    (hn : n ≤ block.length) : (realloc fresh block length).take n = block.take n := by
  rw [realloc, List.take_of_length_le h, List.take_append_of_le_length hn]

/-- Bytes at the start of a block are moved to a block of `length` bytes. -/
theorem Ok.moved (h : b.Ok) (hmis : b.misalign = 0) {length : Nat} (hle : b.totallen ≤ length)
    (hpos : 0 < length) (hlt : length < 18446744073709551616) :
    let b' : Evbuffer := { b with orig_buffer := some (realloc fresh b.block length)
                                  buffer := 0
                                  totallen := length }
    b'.Ok ∧ b'.content = b.content := by
  have hfits := h.fits
  have hallocated := h.allocated
  have hblock : b.block.length ≤ length := hallocated ▸ hle
  constructor
  · exact ⟨hlt, fun _ => hpos, hmis.symm, length_realloc hblock, Nat.le_trans hfits hle⟩
  · have hin : b.off ≤ b.block.length := by omega
    rw [content, content, h.aligned, hmis]
    exact take_realloc hblock hin

/-- `evbuffer_expand` makes room behind the bytes, which it leaves as they are. -/
structure Expanded (b : Evbuffer) (datlen : Nat) (b' : Evbuffer) : Prop where
  ok : b'.Ok
  off : b'.off = b.off
  content : b'.content = b.content
  room : b.misalign + b.off + datlen < 18446744073709551616 →
    b'.misalign + b'.off + datlen ≤ b'.totallen

theorem Ok.expand (h : b.Ok) (he : b.expand fresh datlen = some b') : Expanded b datlen b' := by
  simp only [Evbuffer.expand] at he
  split at he
  · rename_i hneed
    cases he
    exact ⟨h, rfl, rfl, fun hlt => by rwa [Nat.mod_eq_of_lt hlt] at hneed⟩
  · rename_i hneed
    split at he
    · rename_i hmis
      cases he
      have hfits := h.fits
      refine ⟨h.align, rfl, h.content_align, fun _ => ?_⟩
      change 0 + b.off + datlen ≤ b.totallen
      omega
    · obtain ⟨length, hgrow, rfl⟩ := Option.map_eq_some_iff.mp he
      have hge := grow_ge hgrow
      have hle : b.totallen ≤ length := by omega
      have hsized := h.sized
      have hlength : length < 18446744073709551616 := grow_lt (by split <;> omega) hgrow
      split
      · obtain ⟨hok, hcontent⟩ := h.align.moved rfl hle (by omega) hlength
        refine ⟨hok, rfl, hcontent.trans h.content_align, fun hneed => ?_⟩
        rw [Nat.mod_eq_of_lt hneed] at hge
        change 0 + b.off + datlen ≤ length
        omega
      · rename_i hbuf
        have hmis : b.misalign = 0 := h.aligned ▸ Classical.not_not.mp hbuf
        obtain ⟨hok, hcontent⟩ := h.moved hmis hle (by omega) hlength
        refine ⟨hok, rfl, hcontent, fun hneed => ?_⟩
        rw [Nat.mod_eq_of_lt hneed] at hge
        exact hge

/-- `evbuffer_add` puts the bytes behind the others. -/
theorem Ok.add (h : b.Ok) {data : List UInt8} (ha : b.add fresh data datlen = some b') :
    b'.Ok ∧ b'.content = b.content ++ data.take datlen := by
  obtain ⟨c, hc, hstore⟩ := Option.bind_eq_some_iff.mp ha
  obtain ⟨hok, hcontent⟩ : c.Ok ∧ c.content = b.content := by
    split at hc
    · exact ⟨(h.expand hc).ok, (h.expand hc).content⟩
    · cases hc
      exact ⟨h, rfl⟩
  split at hstore
  · rename_i hfit
    cases hstore
    have hblock : ∀ k, (c.orig_buffer.map fun block =>
        writeAt block k (data.take datlen)).getD [] = writeAt c.block k (data.take datlen) := by
      intro k
      cases horig : c.orig_buffer <;> simp [block, horig, writeAt]
    have hlen : (data.take datlen).length = datlen := List.length_take_of_le hfit.2
    constructor
    · refine ⟨hok.sized, by simpa using hok.nonempty, hok.aligned, ?_, ?_⟩
      · rw [block, hblock, Bytes.length_writeAt, hok.allocated]
      · change c.misalign + (c.off + datlen) ≤ c.totallen
        rw [← hok.aligned, ← hok.allocated]
        omega
    · have hin : c.buffer + c.off + (data.take datlen).length ≤ c.block.length := by
        rw [hlen]
        exact hfit.1
      have hwrite := Bytes.take_writeAt hin
      rw [hlen, Nat.add_assoc] at hwrite
      rw [← hcontent, content, block, hblock, List.take_drop, hwrite, content, List.take_drop,
        List.drop_append_of_le_length]
      change c.buffer ≤ _
      rw [List.length_take]
      omega
  · cases hstore

theorem exists_expand (b : Evbuffer) (fresh : Nat → UInt8)
    (hsize : b.misalign + b.off + datlen ≤ 9223372036854775808) :
    ∃ c, b.expand fresh datlen = some c := by
  have hneed : (b.misalign + b.off + datlen) % 18446744073709551616 =
      b.misalign + b.off + datlen := Nat.mod_eq_of_lt (by omega)
  obtain ⟨n, hn⟩ : ∃ n, grow (b.misalign + b.off + datlen) 65
      (if b.totallen < 256 then 256 else b.totallen) = some n := by
    apply exists_grow 64 hsize
    split <;> omega
  simp only [Evbuffer.expand, hneed, hn, Option.map_some]
  split
  · exact ⟨_, rfl⟩
  · split <;> exact ⟨_, rfl⟩

/-- It returns unless the block would grow beyond 2 ^ 63 bytes. -/
theorem Ok.exists_add (h : b.Ok) (fresh : Nat → UInt8) {data : List UInt8}
    (hdata : datlen ≤ data.length)
    (hsize : b.misalign + b.off + datlen ≤ 9223372036854775808) :
    ∃ b', b.add fresh data datlen = some b' := by
  have hneed : (b.misalign + b.off + datlen) % 18446744073709551616 =
      b.misalign + b.off + datlen := Nat.mod_eq_of_lt (by omega)
  obtain ⟨c, hc, hok, hroom⟩ : ∃ c,
      (if b.totallen < b.misalign + b.off + datlen then b.expand fresh datlen else some b) = some c ∧
        c.Ok ∧ c.misalign + c.off + datlen ≤ c.totallen := by
    split
    · obtain ⟨c, hc⟩ := exists_expand b fresh hsize
      exact ⟨c, hc, (h.expand hc).ok, (h.expand hc).room (by omega)⟩
    · exact ⟨b, rfl, h, by omega⟩
  refine ⟨_, Option.bind_eq_some_iff.mpr ⟨c, by rw [hneed]; exact hc, if_pos ⟨?_, hdata⟩⟩⟩
  rw [hok.aligned, hok.allocated]
  exact hroom

theorem Ok.drain (h : b.Ok) (len : Nat) : (b.drain len).Ok := by
  have haligned := h.aligned
  have hfits := h.fits
  unfold Evbuffer.drain
  split
  · exact ⟨h.sized, h.nonempty, rfl, h.allocated, Nat.zero_le _⟩
  · refine ⟨h.sized, h.nonempty, ?_, h.allocated, ?_⟩
    · change b.buffer + len = b.misalign + len
      omega
    · change b.misalign + len + (b.off - len) ≤ b.totallen
      omega

/-- `evbuffer_drain` drops bytes from the front. -/
theorem content_drain (b : Evbuffer) (len : Nat) : (b.drain len).content = b.content.drop len := by
  unfold Evbuffer.drain
  split
  · rename_i hle
    rw [List.drop_of_length_le]
    · simp [content]
    · rw [content, List.length_take]
      omega
  · rw [content, content, List.drop_take, List.drop_drop]
    rfl

theorem Ok.terminate (h : b.Ok) : b.terminate.Ok where
  sized := h.sized
  nonempty := by simpa [Evbuffer.terminate] using h.nonempty
  aligned := h.aligned
  allocated := by
    have hblock := h.allocated
    cases horig : b.orig_buffer with
    | none => simpa [Evbuffer.terminate, block, horig] using hblock
    | some block => simpa [Evbuffer.terminate, Evbuffer.block, horig] using hblock
  fits := h.fits

theorem Ok.remove (h : b.Ok) (datlen : Nat) : (b.remove datlen).1.Ok := h.drain _

/-- `evbuffer_readline` drops bytes from the front, if anything. -/
theorem readline_drains {line : Option (List UInt8)} (h : b.readline = some (b', line)) :
    b' = b ∨ ∃ len, b' = b.drain len := by
  obtain ⟨i, -, hi⟩ := Option.bind_eq_some_iff.mp h
  split at hi
  · cases hi
    exact .inl rfl
  · split at hi
    · cases hi
    · cases hi
      exact .inr ⟨_, rfl⟩

theorem Ok.readline (h : b.Ok) {line : Option (List UInt8)} (hr : b.readline = some (b', line)) :
    b'.Ok := by
  rcases readline_drains hr with rfl | ⟨len, rfl⟩
  · exact h
  · exact h.drain len

end Keep

end Evbuffer

end FilesEvent
