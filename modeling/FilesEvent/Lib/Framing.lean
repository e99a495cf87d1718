import FilesEvent.Lib.Bytes
import FilesEvent.Lib.PrefixCode

/-! Length-prefixed frames read from a non-blocking stream socket. A frame is
a header of fixed size followed by as many bytes as a field of the header says.
The receiver collects it in one buffer over any number of `recv` calls: first
the header, then the payload behind it. `Holds` says which part of a frame the
receiver holds; `readFrame_cases` says what one read callback can do. -/

namespace FilesEvent.Framing
open Bytes PrefixCode

/-! ## The socket -/

/-- What the system does with a `recv` call: `avail k` when at most `k + 1`
bytes have arrived, `eagain` for a failure, `eof` when the peer has closed. -/
inductive RecvResult
  | avail (k : Nat)
  | eagain
  | eof
  deriving DecidableEq, Repr

structure Recvd where
  ret : Int
  bytes : List UInt8
  inbox : List UInt8

/-- `recv` asked for `asked` bytes; `inbox` is the stream not yet received. -/
def recv (inbox : List UInt8) (asked : Nat) (r : RecvResult) : Recvd :=
  if asked = 0 then ⟨0, [], inbox⟩
  else
    match r with
    | .eagain => ⟨-1, [], inbox⟩
    | .eof => ⟨0, [], inbox⟩
    | .avail k =>
        let bs := inbox.take (min (k + 1) asked)
        if bs = [] then ⟨-1, [], inbox⟩
        else ⟨bs.length, bs, inbox.drop (min (k + 1) asked)⟩

theorem recv_cases (inbox : List UInt8) (asked : Nat) (r : RecvResult) :
    ((recv inbox asked r).ret ≤ 0 ∧ (recv inbox asked r).bytes = [] ∧
      (recv inbox asked r).inbox = inbox) ∨
    ((recv inbox asked r).bytes ≠ [] ∧ (recv inbox asked r).bytes.length ≤ asked ∧
      (recv inbox asked r).ret = (recv inbox asked r).bytes.length ∧
      inbox = (recv inbox asked r).bytes ++ (recv inbox asked r).inbox) := by
  unfold recv
  split
  · exact .inl ⟨by simp, rfl, rfl⟩
  · cases r with
    | eagain => exact .inl ⟨by simp, rfl, rfl⟩
    | eof => exact .inl ⟨by simp, rfl, rfl⟩
    | avail k =>
      simp only
      split
      · exact .inl ⟨by simp, rfl, rfl⟩
      · rename_i hbs
        refine .inr ⟨hbs, by simp only [List.length_take]; omega, rfl, ?_⟩
        exact (List.take_append_drop _ inbox).symm

/-- Only the end of the stream, or asking for nothing, makes `recv` return 0. -/
theorem eof_of_recv_zero {inbox : List UInt8} {asked : Nat} {r : RecvResult}
    (ha : asked ≠ 0) (h : (recv inbox asked r).ret = 0) : r = .eof := by
  unfold recv at h
  rw [if_neg ha] at h
  cases r with
  | eagain => simp at h
  | eof => rfl
  | avail k =>
    simp only at h
    split at h
    · simp at h
    · rename_i hbs
      simp only [Int.natCast_eq_zero, List.length_eq_zero_iff] at h
      exact absurd h hbs

/-! ## Frames -/

/-- A header of `h` bytes and the payload length it announces, an `int`. -/
structure Format where
  h : Nat
  h_pos : 0 < h
  len : List UInt8 → Int
  len_take : ∀ b, len (b.take h) = len b
  len_int : ∀ b, -2147483648 ≤ len b ∧ len b < 2147483648

namespace Format

variable (F : Format)

/-- A header and the announced number of bytes behind it. -/
def IsFrame (f : List UInt8) : Prop := F.h ≤ f.length ∧ (f.length : Int) = F.h + F.len f

instance (f : List UInt8) : Decidable (F.IsFrame f) :=
  inferInstanceAs (Decidable (_ ∧ _))

theorem len_append {p : List UInt8} (hp : F.h ≤ p.length) (x : List UInt8) :
    F.len (p ++ x) = F.len p := by
  rw [← F.len_take (p ++ x), List.take_append_of_le_length hp, F.len_take]

theorem prefixFree : PrefixFree F.IsFrame where
  ne_nil w hw := by
    rintro rfl
    have := F.h_pos
    simp [IsFrame] at hw
    omega
  unique v w x y hv hw h := by
    have hlen : F.len v = F.len w := by
      rw [← F.len_append hv.1 x, h, F.len_append hw.1 y]
    have hvw : v.length = w.length := by have := hv.2; have := hw.2; omega
    exact List.append_inj_left h hvw

end Format

/-! ## The receiver -/

/-- The part of a receiver that frames go through: `head` tells whether the
header is being read, `has` counts the bytes of this phase received so far, and
`total` is the announced length of the payload, which is stored behind the header. -/
structure Rx where
  buf : List UInt8
  head : Bool
  has : Int
  total : Int

/-- The destination of one `recv`: an offset, the number of bytes asked for,
the size of the buffer, and the number of bytes delivered. -/
structure Ask where
  off : Int
  cnt : Nat
  size : Nat
  stored : Nat
  deriving DecidableEq, Repr

/-- The destination range lies inside the buffer. -/
def Ask.Inside (a : Ask) : Prop := 0 ≤ a.off ∧ a.off + a.cnt ≤ a.size

instance (a : Ask) : Decidable a.Inside := inferInstanceAs (Decidable (_ ∧ _))

/-- What one `recv` of a receiver did; `done` when it completed its phase. -/
structure RxStep where
  ret : Int
  rx : Rx
  inbox : List UInt8
  ask : Ask
  done : Bool

def readHead (F : Format) (x : Rx) (inbox : List UInt8) (r : RecvResult) : RxStep :=
  let asked := asSize (F.h - x.has)
  let g := recv inbox asked r
  let ask : Ask := ⟨x.has, asked, x.buf.length, g.bytes.length⟩
  if 0 < g.ret then
    let buf := writeAt x.buf x.has.toNat g.bytes
    if x.has + g.ret = F.h then ⟨g.ret, ⟨buf, false, 0, F.len buf⟩, g.inbox, ask, true⟩
    else ⟨g.ret, { x with buf, has := x.has + g.ret }, g.inbox, ask, false⟩
  else ⟨g.ret, x, g.inbox, ask, false⟩

def readPack (F : Format) (x : Rx) (inbox : List UInt8) (r : RecvResult) : RxStep :=
  let asked := asSize (x.total - x.has)
  let g := recv inbox asked r
  let ask : Ask := ⟨F.h + x.has, asked, x.buf.length, g.bytes.length⟩
  if 0 < g.ret then
    let buf := writeAt x.buf (F.h + x.has).toNat g.bytes
    ⟨g.ret, { x with buf, has := x.has + g.ret }, g.inbox, ask,
      decide (x.has + g.ret = x.total)⟩
  else ⟨g.ret, x, g.inbox, ask, false⟩

/-- One read callback: `done` when it completed a whole frame. -/
structure FrameStep where
  ret : Int
  rx : Rx
  inbox : List UInt8
  asks : List Ask
  done : Bool

/-- The header phase goes on to the payload in the same callback. -/
def readFrame (F : Format) (x : Rx) (inbox : List UInt8) (r₁ r₂ : RecvResult) : FrameStep :=
  if x.head then
    let s := readHead F x inbox r₁
    if s.done then
      let s' := readPack F s.rx s.inbox r₂
      ⟨s'.ret, s'.rx, s'.inbox, [s.ask, s'.ask], s'.done⟩
    else ⟨s.ret, s.rx, s.inbox, [s.ask], false⟩
  else
    let s := readPack F x inbox r₁
    ⟨s.ret, s.rx, s.inbox, [s.ask], s.done⟩

section

variable {F : Format} {x : Rx} {inbox : List UInt8} {r₁ r₂ : RecvResult}

theorem readFrame_of_body (h : x.head = false) :
    readFrame F x inbox r₁ r₂ =
      ⟨(readPack F x inbox r₁).ret, (readPack F x inbox r₁).rx, (readPack F x inbox r₁).inbox,
        [(readPack F x inbox r₁).ask], (readPack F x inbox r₁).done⟩ := by
  simp [readFrame, h]

theorem readFrame_of_head (h : x.head = true) (hd : (readHead F x inbox r₁).done = false) :
    readFrame F x inbox r₁ r₂ =
      ⟨(readHead F x inbox r₁).ret, (readHead F x inbox r₁).rx, (readHead F x inbox r₁).inbox,
        [(readHead F x inbox r₁).ask], false⟩ := by
  simp [readFrame, h, hd]

theorem readFrame_of_head_done (h : x.head = true) (hd : (readHead F x inbox r₁).done = true)
    {s : RxStep} (hs : readPack F (readHead F x inbox r₁).rx (readHead F x inbox r₁).inbox r₂ = s) :
    readFrame F x inbox r₁ r₂ =
      ⟨s.ret, s.rx, s.inbox, [(readHead F x inbox r₁).ask, s.ask], s.done⟩ := by
  simp [readFrame, h, hd, hs]

end

/-! ## What the receiver stores -/

@[simp] theorem readHead_length (F : Format) (x : Rx) (inbox : List UInt8) (r : RecvResult) :
    (readHead F x inbox r).rx.buf.length = x.buf.length := by
  unfold readHead
  simp only
  split
  · split <;> simp
  · rfl

@[simp] theorem readPack_length (F : Format) (x : Rx) (inbox : List UInt8) (r : RecvResult) :
    (readPack F x inbox r).rx.buf.length = x.buf.length := by
  unfold readPack
  simp only
  split <;> simp

/-- The buffer keeps its size. -/
@[simp] theorem readFrame_length (F : Format) (x : Rx) (inbox : List UInt8) (r₁ r₂ : RecvResult) :
    (readFrame F x inbox r₁ r₂).rx.buf.length = x.buf.length := by
  unfold readFrame
  simp only
  split
  · split <;> simp
  · simp

/-- The receiver with only the first `k` bytes of its buffer. -/
def Rx.cut (k : Nat) (x : Rx) : Rx := { x with buf := x.buf.take k }

section

variable {F : Format} {k : Nat} (x : Rx) (inbox : List UInt8)

/-- A receiver whose buffer holds the header reads on in the same way if its
buffer is cut short. -/
theorem readHead_cut (hk : F.h ≤ k) (r : RecvResult) :
    (readHead F (x.cut k) inbox r).ret = (readHead F x inbox r).ret ∧
      (readHead F (x.cut k) inbox r).rx = (readHead F x inbox r).rx.cut k ∧
      (readHead F (x.cut k) inbox r).inbox = (readHead F x inbox r).inbox ∧
      (readHead F (x.cut k) inbox r).done = (readHead F x inbox r).done := by
  have hlen : ∀ b : List UInt8, F.len (b.take k) = F.len b := fun b => by
    rw [← F.len_take, List.take_take, Nat.min_eq_left hk, F.len_take]
  simp only [readHead, Rx.cut, writeAt_take, hlen]
  split
  · split <;> exact ⟨rfl, rfl, rfl, rfl⟩
  · exact ⟨rfl, rfl, rfl, rfl⟩

theorem readPack_cut (r : RecvResult) :
    (readPack F (x.cut k) inbox r).ret = (readPack F x inbox r).ret ∧
      (readPack F (x.cut k) inbox r).rx = (readPack F x inbox r).rx.cut k ∧
      (readPack F (x.cut k) inbox r).inbox = (readPack F x inbox r).inbox ∧
      (readPack F (x.cut k) inbox r).done = (readPack F x inbox r).done := by
  simp only [readPack, Rx.cut, writeAt_take]
  split <;> exact ⟨rfl, rfl, rfl, rfl⟩

end

/-- The destination range lies in front of the offset `k`. -/
def Ask.Before (k : Nat) (a : Ask) : Prop := 0 ≤ a.off ∧ a.off + a.cnt ≤ k

theorem length_recv_bytes_le (inbox : List UInt8) (asked : Nat) (r : RecvResult) :
    (recv inbox asked r).bytes.length ≤ asked := by
  rcases recv_cases inbox asked r with ⟨-, hbs, -⟩ | ⟨-, hle, -, -⟩
  · simp [hbs]
  · exact hle

section

variable {F : Format} {x : Rx} {inbox : List UInt8} {k : Nat}

theorem readHead_drop {r : RecvResult} (h : (readHead F x inbox r).ask.Before k)
    (hk : k ≤ x.buf.length) : (readHead F x inbox r).rx.buf.drop k = x.buf.drop k := by
  have hle := length_recv_bytes_le inbox (asSize (F.h - x.has)) r
  unfold readHead at h ⊢
  simp only at h ⊢
  split
  · rename_i hpos
    rw [if_pos hpos] at h
    have hstore : x.has.toNat + (recv inbox (asSize (F.h - x.has)) r).bytes.length ≤ k := by
      split at h <;> (obtain ⟨h₀, h₁⟩ := h; simp only at h₀ h₁; omega)
    split <;> exact drop_writeAt hstore hk
  · rfl

theorem readPack_drop {r : RecvResult} (h : (readPack F x inbox r).ask.Before k)
    (hk : k ≤ x.buf.length) : (readPack F x inbox r).rx.buf.drop k = x.buf.drop k := by
  have hle := length_recv_bytes_le inbox (asSize (x.total - x.has)) r
  unfold readPack at h ⊢
  simp only at h ⊢
  split
  · rename_i hpos
    rw [if_pos hpos] at h
    obtain ⟨h₀, h₁⟩ := h
    simp only at h₀ h₁
    exact drop_writeAt (by omega) hk
  · rfl

/-- A callback leaves the bytes behind the ranges it asks for. -/
theorem readFrame_drop {r₁ r₂ : RecvResult}
    (h : ∀ a ∈ (readFrame F x inbox r₁ r₂).asks, a.Before k) (hk : k ≤ x.buf.length) :
    (readFrame F x inbox r₁ r₂).rx.buf.drop k = x.buf.drop k := by
  unfold readFrame at h ⊢
  simp only at h ⊢
  split
  · rename_i hhead
    rw [if_pos hhead] at h
    split
    · rename_i hdone
      rw [if_pos hdone] at h
      rw [readPack_drop (h _ (by simp)) (by simpa using hk)]
      exact readHead_drop (h _ (by simp)) hk
    · rename_i hdone
      rw [if_neg hdone] at h
      exact readHead_drop (h _ (by simp)) hk
  · rename_i hhead
    rw [if_neg hhead] at h
    exact readPack_drop (h _ (by simp)) hk

end

/-! ## What the receiver holds -/

/-- The receiver has read the beginning `p` of a header. -/
structure AtHead (F : Format) (x : Rx) (p : List UInt8) : Prop where
  head : x.head = true
  has : x.has = p.length
  lt : p.length < F.h
  cap : F.h ≤ x.buf.length
  buf : x.buf.take p.length = p

/-- The receiver has read a whole header and a proper part of its payload. -/
structure InBody (F : Format) (x : Rx) (p : List UInt8) : Prop where
  head : x.head = false
  ge : F.h ≤ p.length
  has : x.has = p.length - F.h
  total : x.total = F.len p
  lt : p.length < F.h + F.len p
  cap : F.h + F.len p ≤ x.buf.length
  buf : x.buf.take p.length = p

/-- The receiver has just read the header `q`, whatever length it announces. -/
structure Opened (F : Format) (x : Rx) (q : List UInt8) : Prop where
  head : x.head = false
  len : q.length = F.h
  has : x.has = 0
  total : x.total = F.len q
  cap : F.h ≤ x.buf.length
  buf : x.buf.take F.h = q

/-- The receiver holds the beginning `p` of a frame, and not the whole frame. -/
def Holds (F : Format) (x : Rx) (p : List UInt8) : Prop := AtHead F x p ∨ InBody F x p

/-- The announced payload is neither empty nor too large for the buffer. -/
def Fits (F : Format) (size : Nat) (q : List UInt8) : Prop := 0 < F.len q ∧ F.h + F.len q ≤ size

theorem Opened.inBody {F : Format} {x : Rx} {q : List UInt8} (h : Opened F x q)
    (hq : Fits F x.buf.length q) : InBody F x q where
  head := h.head
  ge := Nat.le_of_eq h.len.symm
  has := by rw [h.has, h.len]; omega
  total := h.total
  lt := by rw [h.len]; have := hq.1; omega
  cap := hq.2
  buf := by rw [h.len]; exact h.buf

/-- Behind the header of an empty frame the receiver is at no place in a frame. -/
theorem Opened.not_holds {F : Format} {x : Rx} {q p : List UInt8} (h : Opened F x q)
    (hq : F.len q = 0) : ¬ Holds F x p := by
  rintro (hp | hp)
  · exact absurd (hp.head.symm.trans h.head) (by decide)
  · have := hp.ge
    have := hp.lt
    have : F.len p = 0 := by rw [← hp.total, h.total, hq]
    omega

/-- One `recv` of the header phase. -/
theorem readHead_cases {F : Format} {x : Rx} {p : List UInt8} (hx : AtHead F x p)
    (hh : F.h < 18446744073709551616) (inbox : List UInt8) (r : RecvResult) :
    ∃ bs, inbox = bs ++ (readHead F x inbox r).inbox ∧
      (readHead F x inbox r).ask = ⟨p.length, F.h - p.length, x.buf.length, bs.length⟩ ∧
      (readHead F x inbox r).rx.buf.length = x.buf.length ∧
      (((readHead F x inbox r).done = false ∧ AtHead F (readHead F x inbox r).rx (p ++ bs) ∧
          ((readHead F x inbox r).ret = 0 → r = .eof)) ∨
        ((readHead F x inbox r).done = true ∧ Opened F (readHead F x inbox r).rx (p ++ bs) ∧
          (readHead F x inbox r).ret = bs.length ∧ bs ≠ [])) := by
  have hlt := hx.lt
  have hcap := hx.cap
  have hasked : asSize (F.h - x.has) = F.h - p.length := by
    rw [asSize_of_nonneg] <;> rw [hx.has] <;> omega
  have hret : (recv inbox (F.h - p.length) r).ret = 0 → r = .eof :=
    eof_of_recv_zero (by omega)
  unfold readHead
  simp only [hasked]
  generalize hg : recv inbox (F.h - p.length) r = g at hret
  have hcases := recv_cases inbox (F.h - p.length) r
  rw [hg] at hcases
  rcases hcases with ⟨hle, hbs, hin⟩ | ⟨hbs, hble, hgr, hin⟩
  · refine ⟨[], ?_⟩
    rw [if_neg (by omega)]
    exact ⟨hin.symm, by simp [hbs, hx.has], rfl, .inl ⟨rfl, by simpa using hx, hret⟩⟩
  · have hpos := List.length_pos_iff.mpr hbs
    have hfit : p.length + g.bytes.length ≤ x.buf.length := by omega
    have htake := take_writeAt hfit
    rw [hx.buf] at htake
    refine ⟨g.bytes, ?_⟩
    rw [if_pos (by omega)]
    simp only [hx.has, hgr, Int.toNat_natCast]
    split
    · rename_i heq
      have hlen : p.length + g.bytes.length = F.h := by omega
      refine ⟨hin, rfl, by simp, .inr ⟨rfl, ?_, rfl, hbs⟩⟩
      rw [hlen] at htake
      exact ⟨rfl, by simpa using hlen, rfl,
        by rw [← F.len_take (writeAt _ _ _), htake], by simpa using hcap, htake⟩
    · rename_i hne
      refine ⟨hin, rfl, by simp, .inl ⟨rfl, ⟨hx.head, ?_, ?_, by simpa using hcap, ?_⟩, ?_⟩⟩
      · simp
      · simp only [List.length_append]; omega
      · simpa using htake
      · simp only; omega

/-- One `recv` of the payload phase. -/
theorem readPack_cases {F : Format} {x : Rx} {p : List UInt8} (hx : InBody F x p)
    (hh : F.h + F.len p < 18446744073709551616) (inbox : List UInt8) (r : RecvResult) :
    ∃ bs, inbox = bs ++ (readPack F x inbox r).inbox ∧
      (readPack F x inbox r).ask =
        ⟨p.length, (F.h + F.len p).toNat - p.length, x.buf.length, bs.length⟩ ∧
      (readPack F x inbox r).rx.buf.length = x.buf.length ∧
      (((readPack F x inbox r).done = false ∧ InBody F (readPack F x inbox r).rx (p ++ bs) ∧
          ((readPack F x inbox r).ret = 0 → r = .eof)) ∨
        ((readPack F x inbox r).done = true ∧ F.IsFrame (p ++ bs) ∧ bs ≠ [] ∧
          (readPack F x inbox r).ret = bs.length ∧
          (readPack F x inbox r).rx.buf.take (p ++ bs).length = p ++ bs)) := by
  have hge := hx.ge
  have hlt := hx.lt
  have hcap := hx.cap
  have hasked : asSize (x.total - x.has) = (F.h + F.len p).toNat - p.length := by
    rw [asSize_of_nonneg] <;> rw [hx.has, hx.total] <;> omega
  have hoff : (F.h : Int) + x.has = p.length := by rw [hx.has]; omega
  have hret : (recv inbox ((F.h + F.len p).toNat - p.length) r).ret = 0 → r = .eof :=
    eof_of_recv_zero (by omega)
  unfold readPack
  simp only [hasked, hoff]
  generalize hg : recv inbox ((F.h + F.len p).toNat - p.length) r = g at hret
  have hcases := recv_cases inbox ((F.h + F.len p).toNat - p.length) r
  rw [hg] at hcases
  rcases hcases with ⟨hle, hbs, hin⟩ | ⟨hbs, hble, hgr, hin⟩
  · refine ⟨[], ?_⟩
    rw [if_neg (by omega)]
    exact ⟨hin.symm, by simp [hbs], rfl, .inl ⟨rfl, by simpa using hx, hret⟩⟩
  · have hpos := List.length_pos_iff.mpr hbs
    have hfit : p.length + g.bytes.length ≤ x.buf.length := by omega
    have htake := take_writeAt hfit
    rw [hx.buf] at htake
    refine ⟨g.bytes, ?_⟩
    rw [if_pos (by omega)]
    simp only [hgr, Int.toNat_natCast]
    refine ⟨hin, trivial, by simp, ?_⟩
    by_cases hdone : x.has + g.bytes.length = x.total
    · rw [hx.has, hx.total] at hdone
      refine .inr ⟨by simpa [hx.has, hx.total] using hdone, ⟨?_, ?_⟩, hbs, trivial, by simpa using htake⟩
      · simp only [List.length_append]; omega
      · rw [F.len_append hge]; simp only [List.length_append]; omega
    · refine .inl ⟨by simpa using hdone, ⟨hx.head, ?_, ?_, ?_, ?_, ?_, by simpa using htake⟩, ?_⟩
      · simp only [List.length_append]; omega
      · rw [hx.has]; simp only [List.length_append]; omega
      · rw [F.len_append hge]; exact hx.total
      · rw [hx.has, hx.total] at hdone
        rw [F.len_append hge]; simp only [List.length_append]; omega
      · rw [F.len_append hge]; simpa using hcap
      · omega

/-! ## One read callback -/

/-- The `recv` asks for the rest of the header or for the rest of the frame
that `p` begins, inside the buffer, and for at least one byte. -/
def AsksRest (F : Format) (p : List UInt8) (a : Ask) : Prop :=
  a.Inside ∧ 1 ≤ a.cnt ∧
    (a.off + a.cnt = F.h ∨ F.h ≤ p.length ∧ a.off + a.cnt = F.h + F.len p)

/-- The callback leaves the frame `p` incomplete. -/
structure Partial (F : Format) (s : FrameStep) (p : List UInt8) : Prop where
  done : s.done = false
  holds : Holds F s.rx p
  asks : ∀ a ∈ s.asks, AsksRest F p a

/-- The callback completes the frame `f`, which lies at the start of the buffer. -/
structure Whole (F : Format) (size : Nat) (s : FrameStep) (f : List UInt8) : Prop where
  done : s.done = true
  frame : F.IsFrame f
  fits : Fits F size f
  ret : 0 < s.ret
  total : s.rx.total = F.len f
  buf : s.rx.buf.take f.length = f
  asks : ∀ a ∈ s.asks, AsksRest F f a

/-- The callback completes the header `q`, which announces no payload: it asks
for zero bytes behind it and returns 0, not in the header phase. -/
structure Empty (F : Format) (s : FrameStep) (q : List UInt8) : Prop where
  done : s.done = false
  len : F.len q = 0
  opened : Opened F s.rx q
  ret : s.ret = 0
  asks : ∀ a ∈ s.asks, a.Inside

/-- The callback completes a header, at the start of `p`, that announces more
than the buffer holds, and asks for all of it. -/
structure Oversize (F : Format) (size : Nat) (s : FrameStep) (p : List UInt8) : Prop where
  header : F.h ≤ p.length
  len : ¬ (0 ≤ F.len p ∧ F.h + F.len p ≤ size)
  ask : ∃ a ∈ s.asks, ¬ a.Inside

theorem readPack_stream (F : Format) (x : Rx) (inbox : List UInt8) (r : RecvResult) :
    ∃ bs, inbox = bs ++ (readPack F x inbox r).inbox ∧
      (readPack F x inbox r).rx.buf.length = x.buf.length := by
  unfold readPack
  simp only
  rcases recv_cases inbox (asSize (x.total - x.has)) r with h | h
  · rw [if_neg (by omega)]
    exact ⟨[], h.2.2.symm, rfl⟩
  · have := List.length_pos_iff.mpr h.1
    rw [if_pos (by omega)]
    exact ⟨_, h.2.2.2, by simp⟩

theorem readHead_ret_pos {F : Format} {x : Rx} {inbox : List UInt8} {r : RecvResult}
    (h : (readHead F x inbox r).done = true) : 0 < (readHead F x inbox r).ret := by
  unfold readHead at h ⊢
  simp only at h ⊢
  split
  · split <;> assumption
  · rename_i hle
    rw [if_neg hle] at h
    cases h

/-- A callback that completes a frame does not return 0. -/
theorem readPack_ret_pos {F : Format} {x : Rx} {inbox : List UInt8} {r : RecvResult}
    (h : (readPack F x inbox r).done = true) : 0 < (readPack F x inbox r).ret := by
  unfold readPack at h ⊢
  simp only at h ⊢
  split
  · assumption
  · rename_i hle
    rw [if_neg hle] at h
    cases h

theorem readFrame_ret_pos {F : Format} {x : Rx} {inbox : List UInt8} {r₁ r₂ : RecvResult}
    (h : (readFrame F x inbox r₁ r₂).done = true) : 0 < (readFrame F x inbox r₁ r₂).ret := by
  unfold readFrame at h ⊢
  simp only at h ⊢
  split
  · rename_i hhead
    rw [if_pos hhead] at h
    split
    · rename_i hdone
      rw [if_pos hdone] at h
      exact readPack_ret_pos h
    · rename_i hdone
      rw [if_neg hdone] at h
      cases h
  · rename_i hhead
    rw [if_neg hhead] at h
    exact readPack_ret_pos h

@[simp] theorem readPack_total (F : Format) (x : Rx) (inbox : List UInt8) (r : RecvResult) :
    (readPack F x inbox r).rx.total = x.total := by
  unfold readPack
  simp only
  split <;> rfl

/-- A header that announces an empty payload completes no frame. -/
theorem readFrame_done_of_empty {F : Format} {x : Rx} {inbox : List UInt8} {r₁ r₂ : RecvResult}
    (head : x.head = true) (done : (readHead F x inbox r₁).done = true)
    (len : F.len (readHead F x inbox r₁).rx.buf = 0) :
    (readFrame F x inbox r₁ r₂).done = false := by
  have hrx : (readHead F x inbox r₁).rx.has = 0 ∧
      (readHead F x inbox r₁).rx.total = F.len (readHead F x inbox r₁).rx.buf := by
    unfold readHead at done ⊢
    simp only at done ⊢
    split at done
    · split at done
      · rename_i hpos hfull
        simp [hpos, hfull]
      · cases done
    · cases done
  rw [readFrame_of_head_done head done rfl]
  simp [readPack, hrx.1, hrx.2, len, asSize, recv]

theorem readPack_of_empty {F : Format} {x : Rx} {q : List UInt8} (hx : Opened F x q)
    (hq : F.len q = 0) (inbox : List UInt8) (r : RecvResult) :
    readPack F x inbox r = ⟨0, x, inbox, ⟨F.h, 0, x.buf.length, 0⟩, false⟩ := by
  have ht : x.total = 0 := by rw [hx.total, hq]
  simp [readPack, hx.has, ht, asSize, recv]

theorem readPack_ask_oversize {F : Format} {x : Rx} {q : List UInt8} (hx : Opened F x q)
    (hq : ¬ (0 ≤ F.len q ∧ F.h + F.len q ≤ x.buf.length))
    (hsz : x.buf.length < 9223372036854775808) (inbox : List UInt8) (r : RecvResult) :
    ¬ (readPack F x inbox r).ask.Inside := by
  have hask : (readPack F x inbox r).ask.off = F.h ∧
      (readPack F x inbox r).ask.cnt = asSize (F.len q) ∧
      (readPack F x inbox r).ask.size = x.buf.length := by
    unfold readPack
    simp only [hx.has, hx.total]
    split <;> simp
  obtain ⟨hoff, hcnt, hsize⟩ := hask
  have hint := F.len_int q
  rw [Ask.Inside, hoff, hcnt, hsize]
  by_cases hneg : F.len q < 0
  · have := asSize_neg hneg hint.1
    omega
  · rw [asSize_of_nonneg (by omega) (by omega)]
    omega

/-- What one read callback does, from a receiver that holds the beginning `p`
of a frame: it takes the bytes `bs` from the stream and no others. -/
theorem readFrame_cases {F : Format} {x : Rx} {p : List UInt8} (hx : Holds F x p)
    (hsz : x.buf.length < 9223372036854775808) (inbox : List UInt8) (r₁ r₂ : RecvResult) :
    ∃ bs, inbox = bs ++ (readFrame F x inbox r₁ r₂).inbox ∧
      (readFrame F x inbox r₁ r₂).rx.buf.length = x.buf.length ∧
      ((Partial F (readFrame F x inbox r₁ r₂) (p ++ bs) ∧
          ((readFrame F x inbox r₁ r₂).ret = 0 → r₁ = .eof ∨ r₂ = .eof)) ∨
        Whole F x.buf.length (readFrame F x inbox r₁ r₂) (p ++ bs) ∨
        Empty F (readFrame F x inbox r₁ r₂) (p ++ bs) ∨
        Oversize F x.buf.length (readFrame F x inbox r₁ r₂) (p ++ bs)) := by
  rcases hx with hx | hx
  · have hcap := hx.cap
    have hlt := hx.lt
    unfold readFrame
    rw [if_pos hx.head]
    simp only
    obtain ⟨bs, hin, hask, hbuf, hcases⟩ := readHead_cases hx (by omega) inbox r₁
    have hask₁ : AsksRest F p (readHead F x inbox r₁).ask := by
      rw [hask]
      exact ⟨⟨by simp, by simp only; omega⟩, by simp only; omega, .inl (by simp only; omega)⟩
    generalize readHead F x inbox r₁ = s at *
    rcases hcases with ⟨hdone, hat, hret⟩ | ⟨hdone, hop, hsret, hbs⟩
    · rw [if_neg (by simp [hdone])]
      refine ⟨bs, hin, hbuf, .inl ⟨⟨rfl, .inl hat, ?_⟩, fun h => .inl (hret h)⟩⟩
      simpa using ⟨hask₁.1, hask₁.2.1, Or.inl (by rw [hask]; simp only; omega)⟩
    · rw [if_pos hdone]
      have hsz' : s.rx.buf.length < 9223372036854775808 := by omega
      have hask₂ (y : List UInt8) : AsksRest F (p ++ bs ++ y) s.ask :=
        ⟨hask₁.1, hask₁.2.1, .inl (by rw [hask]; simp only; omega)⟩
      by_cases hfit : Fits F s.rx.buf.length (p ++ bs)
      · -- the payload fits: the second `recv` continues the frame
        have hib := hop.inBody hfit
        have hge := hib.ge
        obtain ⟨bs', hin', hask', hbuf', hcases'⟩ :=
          readPack_cases hib (by have := hfit.2; omega) s.inbox r₂
        have htotal := (readPack_total F s.rx s.inbox r₂).trans hop.total
        have hrest : ∀ y, AsksRest F (p ++ bs ++ y) (readPack F s.rx s.inbox r₂).ask := by
          intro y
          have := hib.lt
          have := hfit.2
          rw [hask']
          refine ⟨⟨by simp only; omega, by simp only; omega⟩, by simp only; omega, .inr ⟨?_, ?_⟩⟩
          · rw [List.length_append]; omega
          · rw [F.len_append hge]; simp only; omega
        generalize readPack F s.rx s.inbox r₂ = s' at *
        refine ⟨bs ++ bs', by rw [hin, hin', List.append_assoc], by rw [hbuf', hbuf], ?_⟩
        rw [← List.append_assoc]
        rcases hcases' with ⟨hd, hb, hr⟩ | ⟨hd, hf, hne, hr, hb⟩
        · refine .inl ⟨⟨hd, .inr hb, ?_⟩, fun h => .inr (hr h)⟩
          exact List.forall_mem_cons.mpr ⟨hask₂ bs', List.forall_mem_singleton.mpr (hrest bs')⟩
        · refine .inr (.inl ⟨hd, hf, by rw [Fits, F.len_append hge, ← hbuf]; exact hfit, ?_,
            by rw [F.len_append hge]; exact htotal, hb,
            List.forall_mem_cons.mpr ⟨hask₂ bs', List.forall_mem_singleton.mpr (hrest bs')⟩⟩)
          have := List.length_pos_iff.mpr hne
          simp only
          omega
      · by_cases h0 : F.len (p ++ bs) = 0
        · rw [readPack_of_empty hop h0]
          refine ⟨bs, hin, hbuf, .inr (.inr (.inl ⟨rfl, h0, hop, rfl, ?_⟩))⟩
          simpa [Ask.Inside] using ⟨hask₁.1, hop.cap⟩
        · have hover : ¬ (0 ≤ F.len (p ++ bs) ∧ F.h + F.len (p ++ bs) ≤ s.rx.buf.length) := by
            rintro ⟨h1, h2⟩
            exact hfit ⟨by omega, h2⟩
          have hout := readPack_ask_oversize hop hover hsz' s.inbox r₂
          obtain ⟨bs', hin', hbuf'⟩ := readPack_stream F s.rx s.inbox r₂
          generalize readPack F s.rx s.inbox r₂ = s' at *
          have hlen : F.h ≤ (p ++ bs).length := Nat.le_of_eq hop.len.symm
          refine ⟨bs ++ bs', by rw [hin, hin', List.append_assoc], by rw [hbuf', hbuf], ?_⟩
          rw [← List.append_assoc]
          refine .inr (.inr (.inr ⟨?_, ?_, _, by simp, hout⟩))
          · rw [List.length_append]; omega
          · rwa [F.len_append hlen, ← hbuf]
  · have hcap := hx.cap
    have hlt := hx.lt
    have hge := hx.ge
    unfold readFrame
    rw [if_neg (by simp [hx.head])]
    simp only
    obtain ⟨bs, hin, hask, hbuf, hcases⟩ := readPack_cases hx (by omega) inbox r₁
    have hrest : AsksRest F (p ++ bs) (readPack F x inbox r₁).ask := by
      rw [hask]
      refine ⟨⟨by simp only; omega, by simp only; omega⟩, by simp only; omega, .inr ⟨?_, ?_⟩⟩
      · rw [List.length_append]; omega
      · rw [F.len_append hge]; simp only; omega
    have htotal := (readPack_total F x inbox r₁).trans hx.total
    generalize readPack F x inbox r₁ = s at *
    refine ⟨bs, hin, hbuf, ?_⟩
    rcases hcases with ⟨hd, hb, hr⟩ | ⟨hd, hf, hne, hr, hb⟩
    · exact .inl ⟨⟨hd, .inr hb, by simpa using hrest⟩, fun h => .inl (hr h)⟩
    · refine .inr (.inl ⟨hd, hf, by rw [Fits, F.len_append hge]; exact ⟨by omega, hcap⟩, ?_,
        by rw [F.len_append hge]; exact htotal, hb,
        by simpa using hrest⟩)
      have := List.length_pos_iff.mpr hne
      simp only
      omega

/-- A read callback on a stream that goes on with the frame `f`, which fits: it
reads on in `f` or completes it, and leaves the rest of the buffer. -/
theorem readFrame_next {F : Format} {x : Rx} {p f later inbox : List UInt8} (hx : Holds F x p)
    (hsz : x.buf.length < 9223372036854775808) (hf : F.IsFrame f) (hfit : Fits F x.buf.length f)
    (hin : p ++ inbox = f ++ later) (r₁ r₂ : RecvResult) :
    (readFrame F x inbox r₁ r₂).rx.buf.drop f.length = x.buf.drop f.length ∧
      (((readFrame F x inbox r₁ r₂).done = false ∧
          ∃ q, Holds F (readFrame F x inbox r₁ r₂).rx q ∧
            q ++ (readFrame F x inbox r₁ r₂).inbox = f ++ later) ∨
        ((readFrame F x inbox r₁ r₂).done = true ∧ (readFrame F x inbox r₁ r₂).inbox = later ∧
          (readFrame F x inbox r₁ r₂).rx.total = F.len f ∧
          (readFrame F x inbox r₁ r₂).rx.buf.take f.length = f)) := by
  obtain ⟨bs, hbs, -, hcases⟩ := readFrame_cases hx hsz inbox r₁ r₂
  have hflen := hf.2
  have hpos := hfit.1
  have hbound := hfit.2
  -- once the header is complete it is that of `f`
  have hlen : F.h ≤ (p ++ bs).length → F.len (p ++ bs) = F.len f := by
    intro h
    rw [← F.len_append h (readFrame F x inbox r₁ r₂).inbox, List.append_assoc, ← hbs, hin,
      F.len_append hf.1]
  have hbefore : (∀ a ∈ (readFrame F x inbox r₁ r₂).asks, AsksRest F (p ++ bs) a) →
      (readFrame F x inbox r₁ r₂).rx.buf.drop f.length = x.buf.drop f.length := by
    intro hasks
    refine readFrame_drop (fun a ha => ?_) (by omega)
    obtain ⟨⟨hoff, -⟩, -, hend | ⟨hge, hend⟩⟩ := hasks a ha
    · exact ⟨hoff, by omega⟩
    · rw [hlen hge] at hend
      exact ⟨hoff, by omega⟩
  have hin' : p ++ bs ++ (readFrame F x inbox r₁ r₂).inbox = f ++ later := by
    rw [List.append_assoc, ← hbs, hin]
  rcases hcases with ⟨hp, -⟩ | hp | hp | hp
  · exact ⟨hbefore hp.asks, .inl ⟨hp.done, p ++ bs, hp.holds, hin'⟩⟩
  · have hw : p ++ bs = f := F.prefixFree.unique _ _ _ _ hp.frame hf hin'
    rw [hw] at hin'
    refine ⟨hbefore hp.asks, .inr ⟨hp.done, List.append_cancel_left hin', ?_, hw ▸ hp.buf⟩⟩
    rw [hp.total, hw]
  · have := hlen (Nat.le_of_eq hp.opened.len.symm)
    have := hp.len
    omega
  · have := hlen hp.header
    exact absurd ⟨by omega, by omega⟩ hp.len

/-- A `recv` that may take all it asks for, when that much has arrived. -/
theorem recv_all {inbox : List UInt8} {asked k : Nat} (h₀ : asked ≠ 0) (hk : asked ≤ k + 1)
    (hin : asked ≤ inbox.length) :
    recv inbox asked (.avail k) = ⟨asked, inbox.take asked, inbox.drop asked⟩ := by
  have hlen : (inbox.take asked).length = asked := List.length_take_of_le hin
  have hne : inbox.take asked ≠ [] := fun h => by rw [h] at hlen; exact h₀ hlen.symm
  simp only [recv, if_neg h₀, Nat.min_eq_right hk, if_neg hne, hlen]

/-- A header that has arrived whole is read by one `recv`. -/
theorem readHead_whole {F : Format} {x : Rx} {inbox : List UInt8} (hx : AtHead F x [])
    (hsz : x.buf.length < 9223372036854775808) {k : Nat} (hk : F.h ≤ k)
    (hin : F.h ≤ inbox.length) : (readHead F x inbox (.avail k)).done = true := by
  have hh := F.h_pos
  have hcap := hx.cap
  have hhas : x.has = 0 := hx.has
  have hasked : asSize (F.h - x.has) = F.h := by
    rw [asSize_of_nonneg] <;> omega
  have hrecv := recv_all (k := k) (Nat.ne_of_gt hh) (by omega) hin
  simp only [readHead, hasked, hrecv]
  rw [if_pos (by omega), if_pos (by omega)]

/-- A payload that has arrived whole is read by one `recv`. -/
theorem readPack_whole {F : Format} {x : Rx} {q inbox : List UInt8} (hx : Opened F x q)
    (hpos : 0 < F.len q) {k : Nat} (hk : F.len q ≤ k) (hin : F.len q ≤ inbox.length) :
    (readPack F x inbox (.avail k)).done = true := by
  have htotal := hx.total
  have hhas := hx.has
  have hint := F.len_int q
  have hasked : asSize (x.total - x.has) = (F.len q).toNat := by
    rw [htotal, hhas, Int.sub_zero, asSize_of_nonneg] <;> omega
  have hrecv : recv inbox (F.len q).toNat (.avail k) = _ :=
    recv_all (by omega) (by omega) (by omega)
  simp only [readPack, hasked, hrecv]
  rw [if_pos (by omega)]
  exact decide_eq_true (by omega)

/-- A frame that has arrived whole is read in one callback. -/
theorem readFrame_whole {F : Format} {x : Rx} {f later : List UInt8} (hx : AtHead F x [])
    (hsz : x.buf.length < 9223372036854775808) (hf : F.IsFrame f) (hfit : Fits F x.buf.length f)
    {k₁ k₂ : Nat} (h₁ : f.length ≤ k₁) (h₂ : f.length ≤ k₂) :
    (readFrame F x (f ++ later) (.avail k₁) (.avail k₂)).done = true ∧
      (readFrame F x (f ++ later) (.avail k₁) (.avail k₂)).inbox = later ∧
      (readFrame F x (f ++ later) (.avail k₁) (.avail k₂)).rx.total = F.len f ∧
      (readFrame F x (f ++ later) (.avail k₁) (.avail k₂)).rx.buf.take f.length = f := by
  obtain ⟨hge, hlen⟩ := hf
  have hcap := hx.cap
  have hin : (f ++ later).length = f.length + later.length := List.length_append
  have hdone : (readHead F x (f ++ later) (.avail k₁)).done = true :=
    readHead_whole hx hsz (Nat.le_trans hge h₁) (by omega)
  obtain ⟨bs, hbs, -, -, ⟨hd, -⟩ | ⟨-, ho, -, -⟩⟩ :=
    readHead_cases hx (by omega) (f ++ later) (.avail k₁)
  · rw [hdone] at hd
    cases hd
  rw [List.nil_append] at ho
  have hbsf : F.len bs = F.len f := by
    rw [← F.len_append (Nat.le_of_eq ho.len.symm) (readHead F x (f ++ later) (.avail k₁)).inbox,
      ← hbs, F.len_append hge]
  have hrest := congrArg List.length hbs
  rw [List.length_append, List.length_append, ho.len] at hrest
  have hpack : (readPack F (readHead F x (f ++ later) (.avail k₁)).rx
      (readHead F x (f ++ later) (.avail k₁)).inbox (.avail k₂)).done = true :=
    readPack_whole ho (by rw [hbsf]; exact hfit.1) (by omega) (by omega)
  have hframe : (readFrame F x (f ++ later) (.avail k₁) (.avail k₂)).done = true := by
    rw [readFrame_of_head_done hx.head hdone rfl]
    exact hpack
  refine ⟨hframe, ?_⟩
  rcases (readFrame_next (.inl hx) hsz ⟨hge, hlen⟩ hfit (List.nil_append _) (.avail k₁)
    (.avail k₂)).2 with ⟨hd, -⟩ | ⟨-, hlater⟩
  · rw [hframe] at hd
    cases hd
  · exact hlater

end FilesEvent.Framing
