import Mathlib.Data.Nat.Log
import FilesEvent.ByteQueues

/-! Where the content of a cache lies in its block. The block is always a power of two,
and the calls alone tell how large it is: an append that reaches behind its end moves the
content to its front, if that makes the room, or else gets the least power of two from 256
on that the content needs where it lies. A terminator is stored behind a block exactly if
the content of a cache ends with it when it is shown. -/

namespace FilesEvent

open Bytes (asInt asSize)
open Runs (run Meets)

/-- The content of a cache and where it begins in a block of `block` bytes, which is 0
where nothing has been allocated. -/
structure Extent where
  content : List UInt8
  start : Nat
  block : Nat

namespace Extent

def stop (x : Extent) : Nat := x.start + x.content.length

def new : Extent := ⟨[], 0, 0⟩

/-- The content ends where the block does. -/
def Ends (x : Extent) : Prop := 0 < x.block ∧ x.stop = x.block

instance (x : Extent) : Decidable x.Ends := inferInstanceAs (Decidable (_ ∧ _))

/-- The block for content that ends at `stop`. -/
def blockFor (stop : Nat) : Nat := 2 ^ max 8 (Nat.clog 2 stop)

def append (x : Extent) (bytes : List UInt8) : Extent :=
  if x.stop + bytes.length ≤ x.block then { x with content := x.content ++ bytes }
  else
    { content := x.content ++ bytes
      start := 0
      block := if bytes.length ≤ x.start then x.block else blockFor (x.stop + bytes.length) }

/-- Without its first `len` bytes. -/
def drop (x : Extent) (len : Nat) : Extent :=
  if x.content.length ≤ len then { x with content := [], start := 0 }
  else { x with content := x.content.drop len, start := x.start + len }

/-- The block is a power of two that an address can reach. -/
def Sized (x : Extent) : Prop := x.block = 0 ∨ ∃ k, 8 ≤ k ∧ x.block = 2 ^ k

theorem sized_append {x : Extent} (h : x.Sized) (bytes : List UInt8) : (x.append bytes).Sized := by
  unfold append
  split
  · exact h
  · dsimp only [Sized]
    split
    · exact h
    · exact .inr ⟨_, Nat.le_max_left _ _, rfl⟩

theorem sized_drop {x : Extent} (h : x.Sized) (len : Nat) : (x.drop len).Sized := by
  unfold drop
  split <;> exact h

/-! ## Caches that are only appended to -/

theorem le_blockFor (n : Nat) : n ≤ blockFor n :=
  Nat.le_trans (Nat.le_pow_clog Nat.one_lt_two n)
    (Nat.pow_le_pow_right Nat.two_pos (Nat.le_max_right _ _))

/-- More content that has room in the block would not have asked for another. -/
theorem blockFor_of_le {m n : Nat} (hmn : m ≤ n) (hn : n ≤ blockFor m) :
    blockFor n = blockFor m := by
  have hle : Nat.clog 2 n ≤ max 8 (Nat.clog 2 m) := (Nat.clog_le_iff_le_pow Nat.one_lt_two).mpr hn
  have hge : Nat.clog 2 m ≤ Nat.clog 2 n := Nat.clog_mono_right 2 hmn
  rw [blockFor, blockFor]
  congr 1
  omega

/-- The content at the front of the least block. -/
def compact (q : List UInt8) : Extent := ⟨q, 0, if q = [] then 0 else blockFor q.length⟩

theorem append_compact (q bytes : List UInt8) :
    (compact q).append bytes = compact (q ++ bytes) := by
  by_cases hbytes : bytes = []
  · have hfits : (compact q).stop ≤ (compact q).block := by
      by_cases hq : q = []
      · simp [compact, stop, hq]
      · simpa [compact, stop, hq] using le_blockFor q.length
    rw [hbytes, append, List.length_nil, Nat.add_zero, if_pos hfits, List.append_nil,
      List.append_nil]
  · have hpos := List.length_pos_of_ne_nil hbytes
    by_cases hq : q = []
    · simp [compact, append, stop, hq, hbytes]
    · by_cases hfits : q.length + bytes.length ≤ blockFor q.length
      · have hsame := blockFor_of_le (Nat.le_add_right _ _) hfits
        simp [compact, append, stop, hq, hfits, hsame]
      · simp [compact, append, stop, hq, hfits, hbytes]

theorem appends_compact (bs : List (List UInt8)) (q : List UInt8) :
    bs.foldl append (compact q) = compact (q ++ bs.flatten) := by
  induction bs generalizing q with
  | nil => simp
  | cons bytes bs ih => rw [List.foldl_cons, append_compact, ih, List.flatten_cons, List.append_assoc]

/-- A cache that is only appended to is full exactly if its size is one of 256, 512,
1024, and so on. -/
theorem ends_appends_iff (bs : List (List UInt8)) :
    (bs.foldl append new).Ends ↔ ∃ k, 8 ≤ k ∧ bs.flatten.length = 2 ^ k := by
  rw [show new = compact [] from rfl, appends_compact, List.nil_append]
  generalize bs.flatten = q
  by_cases hq : q = []
  · refine iff_of_false (fun h => absurd h.1 (by simp [compact, hq])) ?_
    rintro ⟨k, -, hk⟩
    rw [hq, List.length_nil] at hk
    exact absurd hk.symm (Nat.ne_of_gt (Nat.two_pow_pos k))
  · have hpos : 0 < blockFor q.length := Nat.two_pow_pos _
    simp only [Ends, compact, stop, if_neg hq, hpos, true_and, Nat.zero_add]
    constructor
    · exact fun h => ⟨_, Nat.le_max_left _ _, h⟩
    · rintro ⟨k, hk, hlen⟩
      rw [blockFor, hlen, Nat.clog_pow 2 k Nat.one_lt_two, max_eq_right hk]

end Extent

/-! ## The calls -/

/-- How many bytes `getLine` takes off the content, if there is a line. -/
def lineLen (content : List UInt8) : Option Nat :=
  (Evbuffer.lineEnd content 0).bind fun i =>
    if i = content.length then none
    else
      let second := content.getD (i + 1) 0
      let i' := if i < content.length - 1 ∧ Evbuffer.isLineEnd second ∧ second ≠ content.getD i 0
        then i + 1 else i
      some ((i' + 1) % 4294967296)

/-- How many bytes of a content an `append` of its cache takes: an `int` that is not
positive asks for those before the first NUL. -/
def shownLen (content : List UInt8) : Nat :=
  let len := asInt content.length
  asSize (if len ≤ 0 then asInt (BufferCache.strlen content) else len)

/-- What a call does to where the contents lie. -/
def CacheCall.place (xs : List Extent) : CacheCall → List Extent
  | .construct => xs ++ [.new]
  | .append i buffer _ => xs.modify i (·.append buffer)
  | .appendCache i j _ =>
      let shown := (xs.getD j .new).content
      if 0 < shown.length then xs.modify i (·.append (shown.take (shownLen shown))) else xs
  | .erase i len => xs.modify i (·.drop (asSize len))
  | .reset i => xs.modify i fun x => x.drop (asSize (asInt x.content.length))
  | .getBuffer _ => xs
  | .getLine i => xs.modify i fun x => ((lineLen x.content).map x.drop).getD x
  | .take i len => xs.modify i (·.drop (asSize (len - 1)))
  | .takeCache i => xs.set i .new ++ [xs.getD i .new]

/-- The content that the call shows does not end with its block, and `take` gets a
buffer that is not empty. -/
def CacheCall.Spares (xs : List Extent) : CacheCall → Prop
  | .appendCache _ j _ => ∀ x ∈ xs[j]?, 0 < x.content.length → ¬ x.Ends
  | .getBuffer i => ∀ x ∈ xs[i]?, ¬ x.Ends
  | .take _ len => 0 < len
  | _ => True

instance (xs : List Extent) : ∀ c : CacheCall, Decidable (c.Spares xs)
  | .appendCache _ j _ =>
      inferInstanceAs (Decidable (∀ x ∈ xs[j]?, 0 < x.content.length → ¬ x.Ends))
  | .getBuffer i => inferInstanceAs (Decidable (∀ x ∈ xs[i]?, ¬ x.Ends))
  | .take _ len => inferInstanceAs (Decidable (0 < len))
  | .construct | .append .. | .erase .. | .reset _ | .getLine _ | .takeCache _ => isTrue trivial

/-! ## The doubling loop -/

namespace Evbuffer

theorem grow_zero {need : Nat} (hneed : 0 < need) (fuel : Nat) : grow need fuel 0 = none := by
  induction fuel with
  | zero => rfl
  | succ fuel ih => rw [grow, if_pos hneed, Nat.zero_mul, Nat.zero_mod, ih]

/-- Doubling stops at the first power of two that is large enough. -/
theorem grow_two_pow {need fuel k n : Nat} (hk : k < 64) (h : grow need fuel (2 ^ k) = some n) :
    n = 2 ^ max k (Nat.clog 2 need) := by
  induction fuel generalizing k with
  | zero => cases h
  | succ fuel ih =>
    rw [grow] at h
    split at h
    · rename_i hlt
      have hclog : k < Nat.clog 2 need := (Nat.lt_clog_iff_pow_lt Nat.one_lt_two).mpr hlt
      rw [← Nat.pow_succ] at h
      rcases Nat.lt_or_ge (k + 1) 64 with hk' | hk'
      · rw [Nat.mod_eq_of_lt (Nat.pow_lt_pow_right Nat.one_lt_two hk')] at h
        rw [ih hk' h, max_eq_right hclog, max_eq_right (Nat.le_of_lt hclog)]
      · -- the next doubling leaves nothing
        obtain rfl : k = 63 := by omega
        rw [grow_zero (Nat.lt_of_le_of_lt (Nat.zero_le _) hlt)] at h
        cases h
    · rename_i hge
      obtain rfl := Option.some.inj h
      rw [max_eq_left ((Nat.clog_le_iff_le_pow Nat.one_lt_two).mpr (Nat.not_lt.mp hge))]

variable {b b' : Evbuffer} {fresh : Nat → UInt8} {data : List UInt8} {datlen : Nat}

def extent (b : Evbuffer) : Extent := ⟨b.content, b.misalign, b.totallen⟩

theorem Ok.stop_extent (h : b.Ok) : b.extent.stop = b.misalign + b.off :=
  congrArg (b.misalign + ·) h.length_content

/-- A block of `2 ^ k` bytes has an address for each of them. -/
theorem Ok.block_lt (h : b.Ok) (hs : b.extent.Sized) :
    b.totallen = 0 ∨ ∃ k, 8 ≤ k ∧ k < 64 ∧ b.totallen = 2 ^ k := by
  rcases hs with hzero | ⟨k, hk, hblock⟩
  · exact .inl hzero
  · refine .inr ⟨k, hk, ?_, hblock⟩
    have hsized := h.sized
    rw [show b.totallen = 2 ^ k from hblock] at hsized
    exact (Nat.pow_lt_pow_iff_right Nat.one_lt_two).mp hsized

/-- A new block is the least power of two from 256 on that is large enough. -/
theorem Ok.grow_block (h : b.Ok) (hs : b.extent.Sized) {need n : Nat} (hneed : b.totallen < need)
    (hgrow : grow need 65 (if b.totallen < 256 then 256 else b.totallen) = some n) :
    n = Extent.blockFor need := by
  rcases h.block_lt hs with hzero | ⟨k, hk, hk', hblock⟩
  · rw [hzero, if_pos (by decide)] at hgrow
    exact grow_two_pow (k := 8) (by decide) hgrow
  · have h256 : ¬ 2 ^ k < 256 := Nat.not_lt.mpr (Nat.pow_le_pow_right Nat.two_pos hk)
    have hclog : k < Nat.clog 2 need :=
      (Nat.lt_clog_iff_pow_lt Nat.one_lt_two).mpr (hblock ▸ hneed)
    rw [hblock, if_neg h256] at hgrow
    rw [grow_two_pow hk' hgrow, Extent.blockFor, max_eq_right (Nat.le_of_lt hclog),
      max_eq_right (Nat.le_of_lt (Nat.lt_of_le_of_lt hk hclog))]

/-! ## The operations of the `evbuffer` -/

theorem Ok.block_le (h : b.Ok) (hs : b.extent.Sized) : b.totallen ≤ 9223372036854775808 := by
  rcases h.block_lt hs with hzero | ⟨k, -, hk, hblock⟩
  · omega
  · rw [hblock]
    exact Nat.pow_le_pow_right Nat.two_pos (Nat.le_of_lt_succ hk)

theorem Ok.extent_drain (h : b.Ok) (len : Nat) : (b.drain len).extent = b.extent.drop len := by
  have hcontent := content_drain b len
  have hlen := h.length_content
  rw [extent, Extent.drop, hcontent]
  by_cases hle : b.off ≤ len
  · rw [if_pos (show b.extent.content.length ≤ len from hlen ▸ hle), Evbuffer.drain, if_pos hle,
      List.drop_of_length_le (hlen ▸ hle)]
    rfl
  · rw [if_neg (show ¬ b.extent.content.length ≤ len from hlen ▸ hle), Evbuffer.drain, if_neg hle]
    rfl

/-- `evbuffer_expand`, before the bytes are copied. -/
theorem Ok.expand_extent (h : b.Ok) (hs : b.extent.Sized)
    (hneed : b.misalign + b.off + datlen < 18446744073709551616)
    (hlt : b.totallen < b.misalign + b.off + datlen) (he : b.expand fresh datlen = some b') :
    b'.misalign = 0 ∧ b'.totallen =
      if datlen ≤ b.misalign then b.totallen
      else Extent.blockFor (b.misalign + b.off + datlen) := by
  simp only [Evbuffer.expand, Nat.mod_eq_of_lt hneed, if_neg (Nat.not_le.mpr hlt)] at he
  split at he
  · rename_i hmis
    obtain rfl := Option.some.inj he
    rw [if_pos hmis]
    exact ⟨rfl, rfl⟩
  · rename_i hmis
    obtain ⟨length, hgrow, rfl⟩ := Option.map_eq_some_iff.mp he
    rw [if_neg hmis]
    refine ⟨?_, h.grow_block hs hlt hgrow⟩
    split
    · rfl
    · rename_i hbuf
      exact h.aligned ▸ Classical.not_not.mp hbuf

/-- `evbuffer_add`, as far as the block is concerned. -/
theorem Ok.extent_add (h : b.Ok) (hs : b.extent.Sized) (hdata : datlen ≤ 9223372036854775808)
    (ha : b.add fresh data datlen = some b') :
    b'.extent = b.extent.append (data.take datlen) := by
  have hcontent := (h.add ha).2
  have hblock := h.block_le hs
  have hfits := h.fits
  obtain ⟨c, hc, hstore⟩ := Option.bind_eq_some_iff.mp ha
  split at hstore
  · rename_i hfit
    obtain rfl := Option.some.inj hstore
    have hlen : (data.take datlen).length = datlen := List.length_take_of_le hfit.2
    rw [Extent.append, hlen, h.stop_extent, extent, hcontent]
    split at hc
    · rename_i hlt
      -- the sum of the sizes does not wrap, or it would not be larger than the block
      have hneed : b.misalign + b.off + datlen < 18446744073709551616 := by
        rcases Nat.lt_or_ge (b.misalign + b.off + datlen) 18446744073709551616 with hsmall | hlarge
        · exact hsmall
        · have hwrap : b.misalign + b.off + datlen = 18446744073709551616 := by omega
          rw [hwrap, Nat.mod_self] at hlt
          exact absurd hlt (Nat.not_lt_zero _)
      rw [Nat.mod_eq_of_lt hneed] at hlt
      obtain ⟨hmis, htotal⟩ := h.expand_extent hs hneed hlt hc
      rw [if_neg (show ¬ b.misalign + b.off + datlen ≤ b.extent.block from Nat.not_le.mpr hlt)]
      simp only [hmis, htotal]
      rfl
    · obtain rfl := Option.some.inj hc
      have hin : b.misalign + b.off + datlen ≤ b.totallen := by
        rw [← h.aligned, ← h.allocated]
        exact hfit.1
      rw [if_pos (show b.misalign + b.off + datlen ≤ b.extent.block from hin)]
      rfl
  · cases hstore

theorem le_of_add (h : b.add fresh data datlen = some b') : datlen ≤ data.length := by
  obtain ⟨c, -, hstore⟩ := Option.bind_eq_some_iff.mp h
  split at hstore
  · rename_i hfit
    exact hfit.2
  · cases hstore

theorem Ok.readline_extent (h : b.Ok) {line : Option (List UInt8)}
    (hr : b.readline = some (b', line)) :
    b'.extent = ((lineLen b.content).map b.extent.drop).getD b.extent := by
  obtain ⟨i, hi, hread⟩ := Option.bind_eq_some_iff.mp hr
  have hlen := h.length_content
  rw [lineLen, hi, Option.bind_some, hlen]
  split at hread
  · rename_i hend
    obtain ⟨rfl, -⟩ := Prod.mk.inj (Option.some.inj hread)
    rw [if_pos hend]
    rfl
  · rename_i hend
    split at hread
    · cases hread
    · obtain ⟨rfl, -⟩ := Prod.mk.inj (Option.some.inj hread)
      rw [if_neg hend, h.extent_drain]
      rfl

end Evbuffer

namespace BufferCache

variable {b b' buffer : BufferCache} {fresh : Nat → UInt8}

def extent (b : BufferCache) : Extent := b.mBuffer.extent

/-- A full block is one whose content ends with it. -/
theorem full_iff (b : BufferCache) : b.Full ↔ b.extent.Ends := by
  have hallocated := b.ok.allocated
  have hnonempty := b.ok.nonempty
  rw [Full, Extent.Ends, extent, b.ok.stop_extent]
  refine and_congr_left fun _ => ⟨hnonempty, fun hpos => ?_⟩
  change 0 < b.mBuffer.totallen at hpos
  rw [← hallocated, Evbuffer.block] at hpos
  cases horig : b.mBuffer.orig_buffer with
  | none => simp [horig] at hpos
  | some block => rfl

theorem extent_getBuffer (b : BufferCache) : b.getBuffer.1.extent = b.extent := by
  have hcontent := content_getBuffer b
  unfold getBuffer at hcontent ⊢
  split
  · rename_i horig
    rw [horig] at hcontent
    exact congrArg (Extent.mk · b.mBuffer.misalign b.mBuffer.totallen) hcontent
  · rfl

theorem strlen_le (s : List UInt8) : strlen s ≤ s.length :=
  (List.takeWhile_sublist _).length_le

/-- A string that is cut off at a NUL is as long as before. -/
theorem strlen_take {s : List UInt8} {n : Nat} (h : ∀ c ∈ s[n]?, c = 0) :
    strlen (s.take n) = strlen s := by
  induction s generalizing n with
  | nil => rw [List.take_nil]
  | cons c s ih =>
    cases n with
    | zero =>
      obtain rfl := h c rfl
      rfl
    | succ n =>
      have hs := ih (n := n) h
      unfold strlen at hs ⊢
      rw [List.take_succ_cons, List.takeWhile_cons, List.takeWhile_cons]
      split
      · rw [List.length_cons, List.length_cons, hs]
      · rfl

/-- The bytes that `getBuffer` shows have a NUL behind the content, or end there. -/
theorem strlen_shown (b : BufferCache) : strlen b.getBuffer.2.1 = strlen b.content := by
  rw [← getBuffer_take b]
  refine (strlen_take fun c hc => ?_).symm
  unfold getBuffer at hc
  split at hc
  · rename_i block horig
    simp only [Evbuffer.terminate, Evbuffer.block, horig, Option.map_some, Option.getD_some,
      List.getElem?_drop, Bytes.getElem?_writeAt, getSize, Option.mem_def] at hc
    split at hc
    · simpa using hc.symm
    · rename_i hout
      rw [List.getElem?_eq_none (by simp at hout; omega)] at hc
      cases hc
  · exact List.mem_singleton.mp (List.mem_of_getElem? hc)

theorem length_shown_le (hs : b.extent.Sized) : b.getBuffer.2.1.length ≤ 9223372036854775808 := by
  have hblock := b.ok.block_le hs
  have hallocated := b.ok.allocated
  unfold getBuffer
  split
  · rw [List.length_drop, b.ok.terminate.allocated]
    exact Nat.le_trans (Nat.sub_le _ _) hblock
  · exact Nat.le_of_ble_eq_true rfl

/-- `append` of bytes, as far as the block is concerned. -/
theorem extent_append {bytes : List UInt8} {len : Int} (hs : b.extent.Sized)
    (hbytes : bytes.length ≤ 9223372036854775808) (h : b.append fresh bytes len = some b') :
    asSize (if len ≤ 0 then asInt (strlen bytes) else len) ≤ bytes.length ∧
      b'.extent = b.extent.append
        (bytes.take (asSize (if len ≤ 0 then asInt (strlen bytes) else len))) := by
  have hadd : b.mBuffer.add fresh bytes
      (asSize (if len ≤ 0 then asInt (strlen bytes) else len)) = some b'.mBuffer := by
    rw [← add_map, ← append, h, Option.map_some]
  have hle := Evbuffer.le_of_add hadd
  exact ⟨hle, b.ok.extent_add hs (Nat.le_trans hle hbytes) hadd⟩

/-- An `int` beyond every block would not be copied, and any other one is no larger
than the content. -/
theorem shownLen_le {q : List UInt8} (h : shownLen q ≤ 9223372036854775808) :
    shownLen q ≤ q.length := by
  have hstrlen := strlen_le q
  unfold shownLen at h ⊢
  dsimp only at h ⊢
  split at h
  · rename_i hneg
    rw [if_pos hneg]
    rcases Bytes.asSize_asInt (strlen q) with hsmall | hlarge <;> omega
  · rename_i hpos
    rw [if_neg hpos]
    rcases Bytes.asSize_asInt q.length with hsmall | hlarge <;> omega

/-- `append` of another cache takes the bytes of its content. -/
theorem extent_appendCache (hs : b.extent.Sized) (hb : buffer.extent.Sized)
    (h : (b.appendCache fresh buffer).1 = some b') :
    b'.extent = (if 0 < buffer.content.length
      then b.extent.append (buffer.content.take (shownLen buffer.content)) else b.extent) ∧
        (b.appendCache fresh buffer).2.1.extent = buffer.extent := by
  have hlen := buffer.length_content
  by_cases hpos : 0 < buffer.getSize
  · simp only [appendCache, if_pos hpos] at h ⊢
    have hshown := length_shown_le hb
    have hlen' : asSize (if asInt buffer.getSize ≤ 0 then asInt (strlen buffer.getBuffer.2.1)
        else asInt buffer.getSize) = shownLen buffer.content := by
      rw [strlen_shown, ← hlen]
      rfl
    obtain ⟨hle, happend⟩ := extent_append hs hshown h
    rw [hlen'] at hle happend
    have hcontent := shownLen_le (Nat.le_trans hle hshown)
    have htake : buffer.getBuffer.2.1.take (shownLen buffer.content) =
        buffer.content.take (shownLen buffer.content) := by
      rw [← getBuffer_take buffer, List.take_take, getBuffer_take, Nat.min_eq_left]
      rw [← hlen]
      exact hcontent
    refine ⟨?_, extent_getBuffer buffer⟩
    rw [hlen, if_pos hpos, happend, htake]
  · simp only [appendCache, if_neg hpos] at h ⊢
    obtain rfl := Option.some.inj h
    rw [hlen, if_neg hpos]
    exact ⟨rfl, trivial⟩

theorem extent_getLine {line : Option (List UInt8)} (h : b.getLine = some (b', line)) :
    b'.extent = ((lineLen b.content).map b.extent.drop).getD b.extent := by
  have hread := b.getLine_map
  rw [h] at hread
  exact b.ok.readline_extent hread.symm

/-- `evbuffer_remove` of more than there is takes it all. -/
theorem extent_take (b : BufferCache) (len : Int) :
    (b.take len).1.extent = b.extent.drop (asSize (len - 1)) := by
  have hlen : b.extent.content.length = b.mBuffer.off := b.ok.length_content
  by_cases hle : b.mBuffer.off ≤ asSize (len - 1)
  · have hdrain : (b.take len).1.extent = b.extent.drop b.mBuffer.off := by
      simp only [take, Evbuffer.remove, if_pos hle]
      exact b.ok.extent_drain _
    have hall : b.extent.content.length ≤ asSize (len - 1) := hlen ▸ hle
    rw [hdrain, Extent.drop, Extent.drop, if_pos (Nat.le_of_eq hlen), if_pos hall]
  · simp only [take, Evbuffer.remove, if_neg hle]
    exact b.ok.extent_drain _

end BufferCache

/-! ## Any number of caches -/

/-- Blocks that are powers of two stay so, whatever is called. -/
theorem CacheCall.sized_place {xs : List Extent} (h : ∀ x ∈ xs, x.Sized) (c : CacheCall) :
    ∀ x ∈ c.place xs, x.Sized := by
  have hmodify : ∀ {f : Extent → Extent}, (∀ x, x.Sized → (f x).Sized) →
      ∀ (i : Nat), ∀ x ∈ xs.modify i f, x.Sized := by
    intro f hf i x hx
    obtain ⟨k, hk⟩ := List.mem_iff_getElem?.mp hx
    rw [List.getElem?_modify] at hk
    obtain ⟨y, hy, rfl⟩ := Option.map_eq_some_iff.mp hk
    have hsized := h y (List.mem_of_getElem? hy)
    split
    · exact hf y hsized
    · exact hsized
  have hget : ∀ i, (xs.getD i .new).Sized := by
    intro i
    rw [List.getD_eq_getElem?_getD]
    cases hi : xs[i]? with
    | none => exact .inl rfl
    | some x => exact h x (List.mem_of_getElem? hi)
  cases c with
  | construct =>
    intro x hx
    rcases List.mem_append.mp hx with hx | hx
    · exact h x hx
    · rw [List.mem_singleton.mp hx]
      exact .inl rfl
  | append i buffer fresh => exact hmodify (fun x hx => Extent.sized_append hx _) i
  | appendCache i j fresh =>
    simp only [place]
    split
    · exact hmodify (fun x hx => Extent.sized_append hx _) i
    · exact h
  | erase i len => exact hmodify (fun x hx => Extent.sized_drop hx _) i
  | reset i => exact hmodify (fun x hx => Extent.sized_drop hx _) i
  | getBuffer i => exact h
  | getLine i =>
    refine hmodify (fun x hx => ?_) i
    cases lineLen x.content with
    | none => exact hx
    | some len => exact Extent.sized_drop hx len
  | take i len => exact hmodify (fun x hx => Extent.sized_drop hx _) i
  | takeCache i =>
    intro x hx
    rcases List.mem_append.mp hx with hx | hx
    · rcases List.mem_or_eq_of_mem_set hx with hx | rfl
      · exact h x hx
      · exact .inl rfl
    · rw [List.mem_singleton.mp hx]
      exact hget i

namespace Caches

variable {s s' t : Caches} {c : CacheCall} {cs : List CacheCall}

def extents (s : Caches) : List Extent := s.objects.map BufferCache.extent

/-- A call leaves room for the terminators exactly if the extents do. -/
theorem leavesRoom_iff (s : Caches) (c : CacheCall) : s.LeavesRoom c ↔ c.Spares s.extents := by
  cases c with
  | appendCache i j fresh =>
    simp [LeavesRoom, CacheCall.Spares, extents, BufferCache.full_iff, ← BufferCache.length_content,
      BufferCache.extent, Evbuffer.extent, BufferCache.content]
  | getBuffer i => simp [LeavesRoom, CacheCall.Spares, extents, BufferCache.full_iff]
  | _ => exact Iff.rfl

/-- A call that returns moves the contents as the calls alone tell. -/
theorem extents_call (hs : ∀ b ∈ s.objects, b.extent.Sized) (h : s.call c = some s')
    (hret : s'.stuck = false) : s'.extents = c.place s.extents := by
  have hsized : ∀ {i : Nat} {b : BufferCache}, s.objects[i]? = some b → b.extent.Sized :=
    fun hget => hs _ (List.mem_of_getElem? hget)
  have hextent : ∀ {i : Nat} {b : BufferCache}, s.objects[i]? = some b →
      s.extents.getD i .new = b.extent := by
    intro i b hget
    rw [List.getD_eq_getElem?_getD, extents, List.getElem?_map, hget]
    rfl
  cases c with
  | construct =>
    obtain rfl := Option.some.inj h
    exact List.map_append
  | append i buffer fresh =>
    simp only [call] at h
    split at h
    · rename_i hlen
      obtain ⟨b, hget, rfl⟩ := Option.map_eq_some_iff.mp h
      obtain ⟨b', hb'⟩ := exists_of_put hret
      have happend := (BufferCache.extent_append (hsized hget) (by omega) hb').2
      rw [if_neg (by omega), Bytes.asSize_of_nonneg (by omega) (by omega), Int.toNat_natCast,
        List.take_length] at happend
      rw [hb']
      exact map_put BufferCache.extent _ hget happend
    · cases h
  | appendCache i j fresh =>
    simp only [call] at h
    split at h
    · rename_i hne
      obtain ⟨b, hi, h⟩ := Option.bind_eq_some_iff.mp h
      obtain ⟨buffer, hj, rfl⟩ := Option.map_eq_some_iff.mp h
      obtain ⟨b', hb'⟩ := exists_of_put hret
      obtain ⟨happend, hsame⟩ := BufferCache.extent_appendCache (hsized hi) (hsized hj) hb'
      have hi' : (s.put j (some (b.appendCache fresh buffer).2.1)
          (b.appendCache fresh buffer).2.2).objects[i]? = some b :=
        (List.getElem?_set_ne (Ne.symm hne)).trans hi
      have hput := map_put BufferCache.extent [] (f := fun x => if 0 < buffer.content.length
        then x.append (buffer.content.take (shownLen buffer.content)) else x) hi' happend
      have hcontent : (s.extents.getD j .new).content = buffer.content := by
        rw [hextent hj]
        rfl
      rw [hb', extents, hput, map_put_same BufferCache.extent _ hj hsame, CacheCall.place]
      simp only [hcontent]
      split
      · rfl
      · exact List.modify_id ..
    · cases h
  | erase i len =>
    simp only [call] at h
    split at h
    · obtain ⟨b, hget, rfl⟩ := Option.map_eq_some_iff.mp h
      exact map_put BufferCache.extent _ hget (b.ok.extent_drain _)
    · cases h
  | reset i =>
    obtain ⟨b, hget, rfl⟩ := Option.map_eq_some_iff.mp h
    refine map_put BufferCache.extent _ hget ?_
    rw [show b.extent.content.length = b.getSize from b.length_content]
    exact b.ok.extent_drain _
  | getBuffer i =>
    obtain ⟨b, hget, rfl⟩ := Option.map_eq_some_iff.mp h
    exact map_put_same BufferCache.extent _ hget b.extent_getBuffer
  | getLine i =>
    obtain ⟨b, hget, rfl⟩ := Option.map_eq_some_iff.mp h
    obtain ⟨b', hb'⟩ := exists_of_put hret
    obtain ⟨⟨b', line⟩, hline, rfl⟩ := Option.map_eq_some_iff.mp hb'
    rw [hline]
    exact map_put BufferCache.extent _ hget (BufferCache.extent_getLine hline)
  | take i len =>
    simp only [call] at h
    split at h
    · obtain ⟨b, hget, rfl⟩ := Option.map_eq_some_iff.mp h
      exact map_put BufferCache.extent _ hget (b.extent_take len)
    · cases h
  | takeCache i =>
    obtain ⟨b, hget, rfl⟩ := Option.map_eq_some_iff.mp h
    rw [CacheCall.place, hextent hget, extents, List.map_append, List.map_set]
    rfl

/-- At every moment of every run every terminator has been stored in bounds if and only
if no call shows a content that ends with its block, as the calls alone place them, and
each `take` gets a buffer that is not empty. -/
theorem bounded_iff (h : run step start cs = some t) :
    (∀ as bs u, cs = as ++ bs → run step start as = some u → u.Bounded) ↔
      Meets (fun xs c => some (c.place xs)) (fun xs c => c.Spares xs) [] cs := by
  rw [bounded_iff_leavesRoom h]
  refine Runs.meets_iff_of_simulates
    (R := fun s xs => s.stuck = false → s.extents = xs ∧ ∀ x ∈ xs, x.Sized) ?_ ?_ h
  · intro s c s' xs hR hstep
    unfold step at hstep
    split at hstep
    · cases hstep
    · rename_i hrun
      obtain ⟨rfl, hsized⟩ := hR (eq_false_of_ne_true hrun)
      refine ⟨leavesRoom_iff s c, _, rfl, fun hret => ⟨?_, c.sized_place hsized⟩⟩
      refine extents_call (fun b hb => ?_) hstep hret
      exact hsized _ (List.mem_map_of_mem hb)
  · exact fun _ => ⟨rfl, by simp⟩

/-- One object is filled, shown and partly read; the rest is appended to another. -/
def readAndMove : List CacheCall :=
  [.construct, .append 0 [65, 66, 10, 67, 68] (fun _ => 0), .getBuffer 0, .getLine 0, .construct,
    .appendCache 1 0 (fun _ => 0), .take 1 2]

theorem bounded_iff_readAndMove :
    ∃ t, run step start readAndMove = some t ∧
      ∀ as bs u, readAndMove = as ++ bs → run step start as = some u → u.Bounded := by
  obtain ⟨t, ht⟩ : ∃ t, run step start readAndMove = some t :=
    Option.isSome_iff_exists.mp (by decide +kernel)
  exact ⟨t, ht, (bounded_iff ht).mpr (by decide +kernel)⟩

/-- 256 bytes fill the first block, and `getBuffer` stores the NUL behind it. -/
theorem not_bounded_fullBlock :
    ∃ t, run step start [.construct, .append 0 (List.replicate 256 65) (fun _ => 0), .getBuffer 0] =
      some t ∧ t.stores = [⟨256, 1, 256⟩] ∧ ¬ t.Bounded := by
  have hstores : (run step start
      [.construct, .append 0 (List.replicate 256 65) (fun _ => 0), .getBuffer 0]).map (·.stores) =
        some [⟨256, 1, 256⟩] := by
    decide +kernel
  obtain ⟨t, ht, hst⟩ := Option.map_eq_some_iff.mp hstores
  refine ⟨t, ht, hst, fun hall => ?_⟩
  exact absurd (hall ⟨256, 1, 256⟩ (by rw [hst]; exact List.mem_singleton_self _)) (by decide)

end Caches

end FilesEvent
