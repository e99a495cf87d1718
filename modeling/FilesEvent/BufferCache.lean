import FilesEvent.Evbuffer
import FilesEvent.Lib.Memory
import FilesEvent.Lib.Search

/-! `BufferCache`, the buffer that keeps its content in an `evbuffer`, and its search
for a key. -/

namespace FilesEvent

open Bytes (asInt asSize)
open Memory (Shows window)
open Search (OccursAt Leftmost)

structure BufferCache where
  mBuffer : Evbuffer
  ok : mBuffer.Ok

/-- A store of `count` bytes from the index `first` of an array of `size` bytes on. -/
structure Store where
  first : Int
  count : Nat
  size : Nat
  deriving DecidableEq

def Store.InBounds (s : Store) : Prop := s.count = 0 ∨ (0 ≤ s.first ∧ s.first + s.count ≤ s.size)

instance (s : Store) : Decidable s.InBounds := inferInstanceAs (Decidable (_ ∨ _))

/-- A call of `memchr` or `memcmp` that looks at `count` bytes from `first` on. -/
structure Look where
  first : Nat
  count : Nat

namespace BufferCache

/-- The constructor. -/
def new : BufferCache := ⟨Evbuffer.new, Evbuffer.ok_new⟩

def getSize (b : BufferCache) : Nat := b.mBuffer.off

def content (b : BufferCache) : List UInt8 := b.mBuffer.content

/-- `strlen` of what is stored at `s`. -/
def strlen (s : List UInt8) : Nat := (s.takeWhile (· ≠ 0)).length

/-- `evbuffer_add` to `mBuffer`. -/
def add (fresh : Nat → UInt8) (b : BufferCache) (data : List UInt8) (datlen : Nat) :
    Option BufferCache :=
  match h : b.mBuffer.add fresh data datlen with
  | some mBuffer => some ⟨mBuffer, (b.ok.add h).1⟩
  | none => none

/-- `append` of the bytes at `buffer`; `none` where it does not return. -/
def append (fresh : Nat → UInt8) (b : BufferCache) (buffer : List UInt8) (len : Int) :
    Option BufferCache :=
  let len := if len ≤ 0 then asInt (strlen buffer) else len
  b.add fresh buffer (asSize len)

/-- `getBuffer`, with what is stored where it points to, and the store it makes. -/
def getBuffer (b : BufferCache) : BufferCache × List UInt8 × List Store :=
  match b.mBuffer.orig_buffer with
  | some block =>
      let t : BufferCache := ⟨b.mBuffer.terminate, b.ok.terminate⟩
      (t, t.mBuffer.block.drop t.mBuffer.buffer, [⟨b.mBuffer.buffer + b.getSize, 1, block.length⟩])
  | none => (b, [0], [])

/-- `append` of the content of another cache, with that one after its `getBuffer`. -/
def appendCache (fresh : Nat → UInt8) (b buffer : BufferCache) :
    Option BufferCache × BufferCache × List Store :=
  if 0 < buffer.getSize then
    let shown := buffer.getBuffer
    (b.append fresh shown.2.1 (asInt buffer.getSize), shown.1, shown.2.2)
  else (some b, buffer, [])

def erase (b : BufferCache) (len : Int) : BufferCache :=
  ⟨b.mBuffer.drain (asSize len), b.ok.drain _⟩

def reset (b : BufferCache) : BufferCache := b.erase (asInt b.getSize)

/-- `getLine`; `none` where it does not return. -/
def getLine (b : BufferCache) : Option (BufferCache × Option (List UInt8)) :=
  match h : b.mBuffer.readline with
  | some (mBuffer, line) => some (⟨mBuffer, b.ok.readline h⟩, line)
  | none => none

/-- `take` into a buffer of `len` bytes, with what is copied, the result and the stores. -/
def take (b : BufferCache) (len : Int) : BufferCache × List UInt8 × Int × List Store :=
  let r := b.mBuffer.remove (asSize (len - 1))
  let bytes := r.2.1
  let ret := r.2.2
  (⟨r.1, b.ok.remove _⟩, bytes, ret, [⟨0, bytes.length, len.toNat⟩, ⟨ret, 1, len.toNat⟩])

/-- `take` of the whole content: this cache, with a new buffer, and the one returned. -/
def takeCache (b : BufferCache) : BufferCache × BufferCache := (new, b)

/-! ## The content -/

theorem length_content (b : BufferCache) : b.content.length = b.getSize := b.ok.length_content

theorem add_map (fresh : Nat → UInt8) (b : BufferCache) (data : List UInt8) (datlen : Nat) :
    (b.add fresh data datlen).map (·.mBuffer) = b.mBuffer.add fresh data datlen := by
  unfold add
  split
  · rename_i h
    exact h.symm
  · rename_i h
    exact h.symm

/-- `append` puts the bytes behind the content. -/
theorem content_append {fresh : Nat → UInt8} {b b' : BufferCache} {buffer : List UInt8} {len : Int}
    (hlen : 0 < len) (h : b.append fresh buffer len = some b') :
    b'.content = b.content ++ buffer.take (asSize len) := by
  rw [append, if_neg (Int.not_le.mpr hlen)] at h
  have hadd : b.mBuffer.add fresh buffer (asSize len) = some b'.mBuffer := by
    rw [← add_map, h, Option.map_some]
  exact (b.ok.add hadd).2

/-- It returns unless the block would grow beyond 2 ^ 63 bytes. -/
theorem exists_append (fresh : Nat → UInt8) (b : BufferCache) {buffer : List UInt8}
    (hpos : 0 < buffer.length) (hlen : buffer.length < 2147483648)
    (hsize : b.mBuffer.misalign + b.getSize + buffer.length ≤ 9223372036854775808) :
    ∃ b', b.append fresh buffer buffer.length = some b' := by
  have hdatlen : asSize (buffer.length : Int) = buffer.length := by
    rw [Bytes.asSize_of_nonneg (by omega) (by omega), Int.toNat_natCast]
  obtain ⟨mBuffer, hadd⟩ := b.ok.exists_add fresh (Nat.le_refl buffer.length) hsize
  rw [← add_map] at hadd
  obtain ⟨b', hb', -⟩ := Option.map_eq_some_iff.mp hadd
  refine ⟨b', ?_⟩
  rw [append, if_neg (by omega), hdatlen, hb']

/-- `erase` drops bytes from the front of the content. -/
theorem content_erase (b : BufferCache) (len : Int) :
    (b.erase len).content = b.content.drop (asSize len) := Evbuffer.content_drain _ _

/-- `take` copies the first bytes of the content and leaves the others. -/
theorem content_take (b : BufferCache) (len : Int) :
    (b.take len).2.1 ++ (b.take len).1.content = b.content := by
  generalize hnread : (if b.mBuffer.off ≤ asSize (len - 1) then b.mBuffer.off
    else asSize (len - 1)) = nread
  have hle : nread ≤ b.mBuffer.off := by
    rw [← hnread]
    split <;> omega
  have hcopied : (b.take len).2.1 = b.content.take nread := by
    rw [content, Evbuffer.content, List.take_take, Nat.min_eq_left hle, ← hnread]
    rfl
  have hleft : (b.take len).1.content = b.content.drop nread := by
    rw [← hnread]
    exact Evbuffer.content_drain _ _
  rw [hcopied, hleft, List.take_append_drop]

/-! ## The search -/

/-- The memory from `buffer->buffer` on; what is behind the block is not known. -/
def data (b : BufferCache) (behind : Nat → UInt8) (i : Nat) : UInt8 :=
  (b.mBuffer.block.drop b.mBuffer.buffer).getD i (behind i)

/-- The first of `n` bytes from `s` on that is `c`. -/
def memchr (mem : Nat → UInt8) (s : Nat) (c : UInt8) (n : Nat) : Option Nat :=
  ((window mem s n).findIdx? (· == c)).map (s + ·)

/-- Whether the `len` bytes at `p` are those of `what`. -/
def memcmp (mem : Nat → UInt8) (p : Nat) (what : List UInt8) (len : Nat) : Bool :=
  window mem p len == what.take len

/-- The loop of `find`; positions are offsets from `buffer->buffer`. -/
def findLoop (mem : Nat → UInt8) (off : Nat) (what : List UInt8) (len : Nat) :
    Nat → Nat → Nat → Option (List Look × Option Nat)
  | 0, _, _ => none
  | fuel + 1, search, remain =>
      if len ≤ remain then
        let n := remain - len + 1
        match memchr mem search (what.headD 0) n with
        | none => some ([⟨search, n⟩], none)
        | some p =>
            if memcmp mem p what len then some ([⟨search, n⟩, ⟨p, len⟩], some p)
            else
              let search' := p + 1
              let remain' := asSize ((off : Int) - search')
              (findLoop mem off what len fuel search' remain').map fun r =>
                (⟨search, n⟩ :: ⟨p, len⟩ :: r.1, r.2)
      else some ([], none)

/-- `find`, with its looks at the content and the position it returns; `none` where
it takes more turns than there are bytes, and one. -/
def find (b : BufferCache) (behind : Nat → UInt8) (key : List UInt8) (len : Nat) :
    Option (List Look × Option Nat) :=
  findLoop (b.data behind) b.getSize key len (b.getSize + 1) 0 b.getSize

theorem shows_content (b : BufferCache) (behind : Nat → UInt8) :
    Shows (b.data behind) b.content := by
  intro i hi
  have hi : i < b.mBuffer.off := Nat.lt_of_lt_of_eq hi b.length_content
  have hblock := b.ok.allocated
  have hfits := b.ok.fits
  have hlt : i < (b.mBuffer.block.drop b.mBuffer.buffer).length := by
    rw [List.length_drop, b.ok.aligned]
    omega
  rw [content, Evbuffer.content, List.getElem?_take, if_pos hi, data,
    List.getD_eq_getElem?_getD, List.getElem?_eq_getElem hlt, Option.getD_some]

/-- What a search for `key` in `s` finds; it looks only at the first `size` bytes. -/
structure Finds (key s : List UInt8) (size : Nat) (r : List Look × Option Nat) : Prop where
  leftmost : ∀ p, r.2 = some p ↔ Leftmost key s p
  absent : r.2 = none ↔ ∀ p, ¬ OccursAt key s p
  inside : ∀ l ∈ r.1, l.first + l.count ≤ size

theorem finds_of_absent {key s : List UInt8} {size : Nat} {looks : List Look}
    (h : ∀ p, ¬ OccursAt key s p) (hl : ∀ l ∈ looks, l.first + l.count ≤ size) :
    Finds key s size (looks, none) where
  leftmost p := by simp [Leftmost, h p]
  absent := iff_of_true rfl h
  inside := hl

theorem finds_of_leftmost {key s : List UInt8} {size p : Nat} {looks : List Look}
    (h : Leftmost key s p) (hl : ∀ l ∈ looks, l.first + l.count ≤ size) :
    Finds key s size (looks, some p) where
  leftmost q := by
    rw [Option.some.injEq]
    exact ⟨fun hq => hq ▸ h, fun hq => h.unique hq⟩
  absent := iff_of_false (by simp) fun hall => hall p h.1
  inside := hl

/-- Further looks before those of a search do not change what it finds. -/
theorem Finds.after {key s : List UInt8} {size : Nat} {r : List Look × Option Nat}
    (h : Finds key s size r) {looks : List Look} (hl : ∀ l ∈ looks, l.first + l.count ≤ size) :
    Finds key s size (looks ++ r.1, r.2) where
  leftmost := h.leftmost
  absent := h.absent
  inside l hin := (List.mem_append.mp hin).elim (hl l) (h.inside l)

/-- `memcmp` inside the content tells whether the key is there. -/
theorem memcmp_iff {mem : Nat → UInt8} {key s : List UInt8} (hm : Shows mem s) {p : Nat}
    (h : p + key.length ≤ s.length) : memcmp mem p key key.length = true ↔ OccursAt key s p := by
  rw [memcmp, hm.window h, List.take_length, beq_iff_eq, Search.occursAt_iff_take h]

/-- `memchr` inside the content finds the first of the bytes that is `c`. -/
theorem memchr_cases {mem : Nat → UInt8} {s : List UInt8} (hm : Shows mem s) {a n : Nat}
    (h : a + n ≤ s.length) (c : UInt8) :
    (memchr mem a c n = none ∧ ∀ q, a ≤ q → q < a + n → s[q]? ≠ some c) ∨
      ∃ p, memchr mem a c n = some p ∧ a ≤ p ∧ p < a + n ∧
        ∀ q, a ≤ q → q < p → s[q]? ≠ some c := by
  rw [memchr, hm.window h]
  have hget : ∀ q, a ≤ q → q < a + n → ((s.drop a).take n)[q - a]? = s[q]? := by
    intro q haq hqn
    rw [List.getElem?_take, if_pos (by omega), List.getElem?_drop]
    exact congrArg (fun i => s[i]?) (by omega)
  cases hidx : ((s.drop a).take n).findIdx? (· == c) with
  | none =>
    refine .inl ⟨rfl, fun q haq hqn hq => ?_⟩
    rw [List.findIdx?_eq_none_iff] at hidx
    have hmem : c ∈ (s.drop a).take n := List.mem_of_getElem? ((hget q haq hqn).trans hq)
    simpa using hidx c hmem
  | some k =>
    rw [List.findIdx?_eq_some_iff_getElem] at hidx
    obtain ⟨hk, -, hbefore⟩ := hidx
    have hkn : k < n := by
      rw [List.length_take] at hk
      omega
    refine .inr ⟨a + k, rfl, by omega, by omega, fun q haq hqk hq => ?_⟩
    have hne := hbefore (q - a) (by omega)
    rw [← hget q haq (by omega), List.getElem?_eq_getElem (by omega), Option.some.injEq] at hq
    simp [hq] at hne

/-- The search goes on behind the places where the key is not. -/
theorem findLoop_finds {mem : Nat → UInt8} {s : List UInt8} (hm : Shows mem s) (c : UInt8)
    (key : List UInt8) (hsize : s.length < 18446744073709551616) (fuel : Nat) {search : Nat}
    (hs : search ≤ s.length) (hfuel : s.length - search < fuel)
    (hbefore : ∀ q < search, ¬ OccursAt (c :: key) s q) :
    ∃ r, findLoop mem s.length (c :: key) (c :: key).length fuel search (s.length - search) = some r ∧
      Finds (c :: key) s s.length r := by
  induction fuel generalizing search with
  | zero => omega
  | succ fuel ih =>
    rw [findLoop]
    split
    · rename_i hlen
      have hkey : 0 < (c :: key).length := Nat.succ_pos _
      have hwindow : search + (s.length - search - (c :: key).length + 1) ≤ s.length := by omega
      -- the key begins with its first byte, and ends inside the content
      have hlate : ∀ q, OccursAt (c :: key) s q →
          search ≤ q ∧ q < search + (s.length - search - (c :: key).length + 1) ∧ s[q]? = some c := by
        intro q hq
        have hle := hq.add_length_le
        have hge : search ≤ q := Nat.not_lt.mp fun hlt => hbefore q hlt hq
        exact ⟨hge, by omega, hq.head⟩
      rcases memchr_cases hm hwindow c with ⟨hnone, hno⟩ | ⟨p, hp, hsp, hpn, hno⟩
      · simp only [List.headD_cons, hnone]
        refine ⟨_, rfl, finds_of_absent (fun q hq => ?_) ?_⟩
        · obtain ⟨hge, hlt, hget⟩ := hlate q hq
          exact hno q hge hlt hget
        · simpa using hwindow
      · have hfirst : ∀ q < p, ¬ OccursAt (c :: key) s q := by
          intro q hq hocc
          obtain ⟨hge, -, hget⟩ := hlate q hocc
          exact hno q hge hq hget
        have hfit : p + (c :: key).length ≤ s.length := by omega
        have hlooks : ∀ l ∈ [(⟨search, s.length - search - (c :: key).length + 1⟩ : Look),
            ⟨p, (c :: key).length⟩], l.first + l.count ≤ s.length := by
          simpa using ⟨hwindow, hfit⟩
        simp only [List.headD_cons, hp]
        split
        · rename_i heq
          exact ⟨_, rfl, finds_of_leftmost ⟨(memcmp_iff hm hfit).mp heq, hfirst⟩ hlooks⟩
        · rename_i hne
          have hremain : asSize ((s.length : Int) - (p + 1 : Nat)) = s.length - (p + 1) := by
            rw [Bytes.asSize_of_nonneg (by omega) (by omega)]
            omega
          have hnext : ∀ q < p + 1, ¬ OccursAt (c :: key) s q := by
            intro q hq
            rcases Nat.lt_succ_iff_lt_or_eq.mp hq with hlt | rfl
            · exact hfirst q hlt
            · exact fun hocc => hne ((memcmp_iff hm hfit).mpr hocc)
          have hle : p + 1 ≤ s.length := by omega
          obtain ⟨r, hr, hfinds⟩ := ih hle (by omega) hnext
          rw [hremain, hr]
          exact ⟨_, rfl, hfinds.after hlooks⟩
    · rename_i hlen
      refine ⟨_, rfl, finds_of_absent (fun q hq => ?_) (by simp)⟩
      have hle := hq.add_length_le
      exact hbefore q (by omega) hq

/-- For every content and every key that is not empty `find` ends, returns the
leftmost occurrence or none, and has looked at nothing behind the content. -/
theorem find_finds (b : BufferCache) (behind : Nat → UInt8) {key : List UInt8} (hkey : key ≠ []) :
    ∃ r, b.find behind key key.length = some r ∧ Finds key b.content b.getSize r := by
  obtain ⟨c, key, rfl⟩ := List.exists_cons_of_ne_nil hkey
  have hlen := b.length_content
  have hfits := b.ok.fits
  have hsized := b.ok.sized
  have hsize : b.content.length < 18446744073709551616 := by
    have : b.content.length = b.mBuffer.off := hlen
    omega
  have h := findLoop_finds (b.shows_content behind) c key hsize (b.content.length + 1)
    (Nat.zero_le _) (by omega) (fun q hq => absurd hq (Nat.not_lt_zero q))
  rw [hlen, Nat.sub_zero] at h
  exact h

/-- A false start inside the occurrence, which ends with the content. -/
theorem find_finds_overlap :
    let b := (new.append (fun _ => 0) [1, 1, 2] 3).getD new
    ∃ r, b.find (fun _ => 2) [1, 2] 2 = some r ∧ Finds [1, 2] b.content b.getSize r :=
  find_finds _ (fun _ => 2) (by decide)

end BufferCache

end FilesEvent
