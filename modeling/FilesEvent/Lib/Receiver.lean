import FilesEvent.Lib.Framing
import FilesEvent.Lib.Runs

/-! Machines that read frames. A `View` is what such a machine shows of its
receiver, and `Reads` says that a callback reads as `readFrame` does. As long as
nothing announces an empty or an oversized payload, the bytes received are the
frames handled and a beginning of the next one (`Synced`); after an empty one
the receiver can be `Stuck`, after an oversized one it has `Overran` its buffer. -/

namespace FilesEvent.Framing
open Bytes PrefixCode Runs

/-! ## Views -/

/-- `handled` pairs each frame handled with the stream not yet received then;
`alive` says that no call has returned 0. -/
structure View where
  rx : Rx
  inbox : List UInt8
  asks : List Ask
  handled : List (List UInt8 × List UInt8)
  alive : Bool

def View.frames (v : View) : List (List UInt8) := v.handled.map Prod.fst

/-- One read callback. After a whole frame the receiver is back at the start of
a header, unless its handling has closed the connection, which it does only if
`closes` holds. A receiver may also stop after the header of an empty frame. -/
inductive Reads (F : Format) (closes : Prop) (r₁ r₂ : RecvResult) (v v' : View) : Prop
  | more (done : (readFrame F v.rx v.inbox r₁ r₂).done = false)
      (rx : v'.rx = (readFrame F v.rx v.inbox r₁ r₂).rx)
      (inbox : v'.inbox = (readFrame F v.rx v.inbox r₁ r₂).inbox)
      (asks : v'.asks = v.asks ++ (readFrame F v.rx v.inbox r₁ r₂).asks)
      (handled : v'.handled = v.handled)
      (alive : v'.alive = decide ((readFrame F v.rx v.inbox r₁ r₂).ret ≠ 0))
  | whole (done : (readFrame F v.rx v.inbox r₁ r₂).done = true)
      (inbox : v'.inbox = (readFrame F v.rx v.inbox r₁ r₂).inbox)
      (asks : v'.asks = v.asks ++ (readFrame F v.rx v.inbox r₁ r₂).asks)
      (handled : v'.handled = v.handled ++
        [((readFrame F v.rx v.inbox r₁ r₂).rx.buf.take
            (F.h + (readFrame F v.rx v.inbox r₁ r₂).rx.total.toNat),
          (readFrame F v.rx v.inbox r₁ r₂).inbox)])
      (rx : v'.alive = true →
        v'.rx.head = true ∧ v'.rx.has = 0 ∧ v'.rx.buf.length = v.rx.buf.length)
      (alive : v'.alive = true ∨ closes)
  | header (head : v.rx.head = true) (done : (readHead F v.rx v.inbox r₁).done = true)
      (len : F.len (readHead F v.rx v.inbox r₁).rx.buf = 0)
      (rx : v'.rx = (readHead F v.rx v.inbox r₁).rx)
      (inbox : v'.inbox = (readHead F v.rx v.inbox r₁).inbox)
      (asks : v'.asks = v.asks ++ [(readHead F v.rx v.inbox r₁).ask])
      (handled : v'.handled = v.handled)
      (alive : v'.alive = true)

/-- `p` begins a frame and is not a whole one. -/
def Incomplete (F : Format) (p : List UInt8) : Prop :=
  F.h ≤ p.length → (p.length : Int) < F.h + F.len p

/-- Each header in the bytes `x`, wherever a reading of `x` frame by frame finds
it, announces a payload that fits into a buffer of `size` bytes. -/
def HeadersFit (F : Format) (size : Nat) (x : List UInt8) : Prop :=
  ∀ (ds : List (List UInt8)) (q : List UInt8), x = ds.flatten ++ q →
    (∀ d ∈ ds, F.IsFrame d) → F.h ≤ q.length → 0 ≤ F.len q ∧ F.h + F.len q ≤ size

/-! ## What a receiver has made of the bytes received -/

/-- The bytes `x` received are the frames handled and the beginning `p` of the
next one, which the receiver holds while it is alive. -/
structure Synced (F : Format) (size : Nat) (v : View) (x p : List UInt8) : Prop where
  bytes : x = v.frames.flatten ++ p
  frames : ∀ f ∈ v.frames, F.IsFrame f ∧ Fits F size f
  open_ : Incomplete F p
  header : F.h ≤ p.length → Fits F size p
  holds : v.alive = true → Holds F v.rx p ∧ v.rx.buf.length = size
  inside : ∀ a ∈ v.asks, a.Inside

/-- The receiver has read the header `q` of an empty frame and waits for its payload. -/
structure Stuck (F : Format) (size : Nat) (v : View) (x q : List UInt8) : Prop where
  bytes : x = v.frames.flatten ++ q
  frames : ∀ f ∈ v.frames, F.IsFrame f ∧ Fits F size f
  opened : Opened F v.rx q
  len : F.len q = 0
  cap : F.h ≤ size
  inside : ∀ a ∈ v.asks, a.Inside

/-- The receiver has asked for more than its buffer holds. -/
structure Overran (F : Format) (size : Nat) (v : View) (x : List UInt8) : Prop where
  outside : ∃ a ∈ v.asks, ¬ a.Inside
  header : ∃ (ds : List (List UInt8)) (q : List UInt8), x = ds.flatten ++ q ∧
    (∀ d ∈ ds, F.IsFrame d) ∧ F.h ≤ q.length ∧ ¬ (0 ≤ F.len q ∧ F.h + F.len q ≤ size)

/-! ## Readings of a stream -/

theorem Holds.incomplete {F : Format} {x : Rx} {p : List UInt8} (h : Holds F x p) :
    Incomplete F p := by
  rcases h with h | h
  · intro hge; have := h.lt; omega
  · exact fun _ => h.lt

/-- The beginning of a frame is shorter than the frame that the stream goes on with. -/
theorem Incomplete.lt_frame {F : Format} {p f y z : List UInt8} (hp : Incomplete F p)
    (hf : F.IsFrame f) (h : p ++ y = f ++ z) : p.length < f.length := by
  have hge := hf.1
  by_cases hph : F.h ≤ p.length
  · have hlen : F.len p = F.len f := by rw [← F.len_append hph y, h, F.len_append hf.1 z]
    have := hp hph
    have := hf.2
    omega
  · omega

/-- A header read behind the frames `ds` of a stream of frames is that of the
frame with which the stream goes on. -/
theorem header_of_frame {F : Format} {ds fs : List (List UInt8)} {q y : List UInt8}
    (hd : ∀ d ∈ ds, F.IsFrame d) (hf : ∀ f ∈ fs, F.IsFrame f)
    (h : ds.flatten ++ (q ++ y) = fs.flatten) (hq : F.h ≤ q.length) :
    ∃ f later, fs = ds ++ f :: later ∧ F.len q = F.len f := by
  obtain ⟨rest, rfl, hrest⟩ := F.prefixFree.flatten_split hd hf h
  cases rest with
  | nil =>
    have hnil := (List.append_eq_nil_iff.mp hrest).1
    have := F.h_pos
    simp [hnil] at hq
    omega
  | cons f rest =>
    refine ⟨f, rest, rfl, ?_⟩
    rw [← F.len_append hq y, hrest, List.flatten_cons, F.len_append (hf f (by simp)).1]

/-- The bytes received of a stream of frames that fit have headers that fit. -/
theorem headersFit_of_stream {F : Format} {size : Nat} {fs : List (List UInt8)} {x y : List UInt8}
    (hfs : ∀ f ∈ fs, F.IsFrame f ∧ F.h + F.len f ≤ size) (h : fs.flatten = x ++ y) :
    HeadersFit F size x := by
  intro ds q hx hds hq
  obtain ⟨f, later, hfl, hlen⟩ := header_of_frame (y := y) hds (fun f hf => (hfs f hf).1)
    (by rw [h, hx, List.append_assoc]) hq
  have hf : f ∈ fs := by rw [hfl]; simp
  have := (hfs f hf).1.1
  have := (hfs f hf).1.2
  have := (hfs f hf).2
  omega

/-- Frames that fit, and a beginning of one more, have headers that fit. -/
theorem headersFit_of_frames {F : Format} {size : Nat} {ds : List (List UInt8)} {p : List UInt8}
    (hds : ∀ d ∈ ds, F.IsFrame d ∧ F.h + F.len d ≤ size) (hinc : Incomplete F p)
    (hp : F.h ≤ p.length → 0 ≤ F.len p ∧ F.h + F.len p ≤ size) :
    HeadersFit F size (ds.flatten ++ p) := by
  intro es q h hes hq
  have hlen : ∀ d, F.IsFrame d → 0 ≤ F.len d := fun d hd => by have := hd.1; have := hd.2; omega
  rcases F.prefixFree.flatten_compare (fun d hd => (hds d hd).1) hes h with
    ⟨rest, hes', hp'⟩ | ⟨rest, hds', hq'⟩
  · cases rest with
    | nil =>
      obtain rfl : p = q := by simpa using hp'
      exact hp hq
    | cons d rest =>
      -- a whole frame cannot begin an incomplete one
      have hd : F.IsFrame d := hes d (by simp [hes'])
      have hpd : p ++ [] = d ++ (rest.flatten ++ q) := by simpa using hp'
      have hlt := hinc.lt_frame hd hpd
      have := congrArg List.length hpd
      simp only [List.length_append, List.length_nil] at this
      omega
  · cases rest with
    | nil =>
      obtain rfl : q = p := by simpa using hq'
      exact hp hq
    | cons d rest =>
      have hd := hds d (by simp [hds'])
      have hqd : q = d ++ (rest.flatten ++ p) := by simpa using hq'
      rw [hqd, F.len_append hd.1.1]
      exact ⟨hlen d hd.1, hd.2⟩

theorem Stuck.not_holds {F : Format} {size : Nat} {v : View} {x q p : List UInt8}
    (h : Stuck F size v x q) : ¬ Holds F v.rx p :=
  h.opened.not_holds h.len

theorem Synced.headersFit {F : Format} {size : Nat} {v : View} {x p : List UInt8}
    (h : Synced F size v x p) : HeadersFit F size x := by
  rw [h.bytes]
  exact headersFit_of_frames (fun d hd => ⟨(h.frames d hd).1, (h.frames d hd).2.2⟩) h.open_
    fun hp => ⟨Int.le_of_lt (h.header hp).1, (h.header hp).2⟩

theorem Stuck.headersFit {F : Format} {size : Nat} {v : View} {x q : List UInt8}
    (h : Stuck F size v x q) : HeadersFit F size x := by
  have hlen := h.opened.len
  have hq : F.IsFrame q := ⟨Nat.le_of_eq hlen.symm, by rw [h.len, hlen]; omega⟩
  have hpos := F.h_pos
  have hx : x = (v.frames ++ [q]).flatten ++ [] := by rw [h.bytes]; simp
  rw [hx]
  refine headersFit_of_frames (fun d hd => ?_) (fun h0 => ?_) (fun h0 => ?_)
  · rcases List.mem_append.mp hd with hd | hd
    · exact ⟨(h.frames d hd).1, (h.frames d hd).2.2⟩
    · obtain rfl := List.mem_singleton.mp hd
      exact ⟨hq, by rw [h.len]; have := h.cap; omega⟩
  · simp at h0; omega
  · simp at h0; omega

theorem Overran.not_headersFit {F : Format} {size : Nat} {v : View} {x : List UInt8}
    (h : Overran F size v x) : ¬ HeadersFit F size x := by
  obtain ⟨ds, q, hx, hds, hq, hout⟩ := h.header
  exact fun hfit => hout (hfit ds q hx hds hq)

/-! ## One callback -/

theorem readHead_stream (F : Format) (x : Rx) (inbox : List UInt8) (r : RecvResult) :
    ∃ bs, inbox = bs ++ (readHead F x inbox r).inbox := by
  unfold readHead
  simp only
  rcases recv_cases inbox (asSize (F.h - x.has)) r with h | h
  · rw [if_neg (by omega)]
    exact ⟨[], h.2.2.symm⟩
  · have := List.length_pos_iff.mpr h.1
    rw [if_pos (by omega)]
    split <;> exact ⟨_, h.2.2.2⟩

theorem readFrame_stream (F : Format) (x : Rx) (inbox : List UInt8) (r₁ r₂ : RecvResult) :
    ∃ bs, inbox = bs ++ (readFrame F x inbox r₁ r₂).inbox := by
  unfold readFrame
  simp only
  split
  · obtain ⟨bs, hbs⟩ := readHead_stream F x inbox r₁
    split
    · obtain ⟨cs, hcs, -⟩ := readPack_stream F (readHead F x inbox r₁).rx
        (readHead F x inbox r₁).inbox r₂
      exact ⟨bs ++ cs, by rw [List.append_assoc, ← hcs, ← hbs]⟩
    · exact ⟨bs, hbs⟩
  · obtain ⟨bs, hbs, -⟩ := readPack_stream F x inbox r₁
    exact ⟨bs, hbs⟩

section Callback

variable {F : Format} {closes : Prop} {r₁ r₂ : RecvResult} {v v' : View} {size : Nat}
  {x p q : List UInt8}

/-- A callback takes bytes from the front of the stream and adds to the log. -/
theorem Reads.stream (hr : Reads F closes r₁ r₂ v v') :
    ∃ bs as, v.inbox = bs ++ v'.inbox ∧ v'.asks = v.asks ++ as := by
  cases hr with
  | more _ _ inbox asks _ _ =>
    obtain ⟨bs, hbs⟩ := readFrame_stream F v.rx v.inbox r₁ r₂
    exact ⟨bs, _, inbox ▸ hbs, asks⟩
  | whole _ inbox asks _ _ _ =>
    obtain ⟨bs, hbs⟩ := readFrame_stream F v.rx v.inbox r₁ r₂
    exact ⟨bs, _, inbox ▸ hbs, asks⟩
  | header _ _ _ _ inbox asks _ _ =>
    obtain ⟨bs, hbs⟩ := readHead_stream F v.rx v.inbox r₁
    exact ⟨bs, _, inbox ▸ hbs, asks⟩

theorem Overran.reads (h : Overran F size v x) (hr : Reads F closes r₁ r₂ v v') :
    ∃ bs, v.inbox = bs ++ v'.inbox ∧ Overran F size v' (x ++ bs) := by
  obtain ⟨bs, as, hbs, has⟩ := hr.stream
  obtain ⟨a, ha, hout⟩ := h.outside
  obtain ⟨ds, q, hx, hds, hq, hlen⟩ := h.header
  refine ⟨bs, hbs, ⟨a, by rw [has]; exact List.mem_append_left _ ha, hout⟩, ds, q ++ bs,
    by rw [hx, List.append_assoc], hds, by rw [List.length_append]; omega, ?_⟩
  rwa [F.len_append hq]

theorem Stuck.readFrame_eq (h : Stuck F size v x q) (inbox : List UInt8) (r₁ r₂ : RecvResult) :
    readFrame F v.rx inbox r₁ r₂ =
      ⟨0, v.rx, inbox, [⟨F.h, 0, v.rx.buf.length, 0⟩], false⟩ := by
  unfold readFrame
  rw [if_neg (by simp [h.opened.head]), readPack_of_empty h.opened h.len]

/-- A receiver that waits for an empty payload waits for ever. -/
theorem Stuck.reads (h : Stuck F size v x q) (hr : Reads F closes r₁ r₂ v v') :
    v'.inbox = v.inbox ∧ Stuck F size v' x q := by
  have hframe := h.readFrame_eq v.inbox r₁ r₂
  cases hr with
  | more _ rx inbox asks handled _ =>
    rw [hframe] at rx inbox asks
    refine ⟨inbox, ⟨by simpa [View.frames, handled] using h.bytes,
      by simpa [View.frames, handled] using h.frames, rx ▸ h.opened, h.len, h.cap, ?_⟩⟩
    rw [asks]
    have hcap := h.opened.cap
    intro a ha
    rcases List.mem_append.mp ha with ha | ha
    · exact h.inside a ha
    · obtain rfl := List.mem_singleton.mp ha
      exact ⟨by simp only; omega, by simp only; omega⟩
  | whole done => simp [hframe] at done
  | header head => exact absurd (head.symm.trans h.opened.head) (by decide)

/-- What a callback makes of a receiver that holds the beginning `p` of a frame.
The end of the stream leaves the receiver with what it holds. -/
theorem Synced.reads (h : Synced F size v x p) (halive : v.alive = true)
    (hsz : size < 9223372036854775808) (hr : Reads F closes r₁ r₂ v v') :
    ∃ bs, v.inbox = bs ++ v'.inbox ∧
      ((∃ p', Synced F size v' (x ++ bs) p' ∧
          (v'.handled = v.handled ∨
            ∃ f, v'.handled = v.handled ++ [(f, v'.inbox)] ∧ p' = []) ∧
          (v'.alive = false → r₁ = .eof ∨ r₂ = .eof ∨ closes) ∧
          (Holds F v'.rx p' ∧ v'.rx.buf.length = size ∨ closes)) ∨
        (v'.handled = v.handled ∧ ∃ q, Stuck F size v' (x ++ bs) q) ∨
        Overran F size v' (x ++ bs)) := by
  obtain ⟨hholds, hsize⟩ := h.holds halive
  have hcases := readFrame_cases hholds (by omega) v.inbox r₁ r₂
  have hinside : ∀ as : List Ask, (∀ a ∈ as, a.Inside) → ∀ a ∈ v.asks ++ as, a.Inside := by
    intro as has a ha
    rcases List.mem_append.mp ha with ha | ha
    · exact h.inside a ha
    · exact has a ha
  have hover : ∀ (s : FrameStep) (bs : List UInt8), v'.asks = v.asks ++ s.asks →
      Oversize F v.rx.buf.length s (p ++ bs) → Overran F size v' (x ++ bs) := by
    intro s bs has hp
    obtain ⟨a, ha, hout⟩ := hp.ask
    exact ⟨⟨a, by rw [has]; exact List.mem_append_right _ ha, hout⟩, v.frames, p ++ bs,
      by rw [h.bytes, List.append_assoc], fun d hd => (h.frames d hd).1, hp.header, hsize ▸ hp.len⟩
  cases hr with
  | more done rx inbox asks handled alive =>
    have hframes : v'.frames = v.frames := by simp [View.frames, handled]
    generalize readFrame F v.rx v.inbox r₁ r₂ = s at *
    obtain ⟨bs, hbs, hbuf, ⟨hp, heof⟩ | hp | hp | hp⟩ := hcases
    · have hkept : Holds F v'.rx (p ++ bs) ∧ v'.rx.buf.length = size :=
        ⟨rx ▸ hp.holds, by rw [rx, hbuf, hsize]⟩
      refine ⟨bs, inbox ▸ hbs, .inl ⟨p ++ bs, ⟨?_, hframes ▸ h.frames, hp.holds.incomplete,
        ?_, fun _ => hkept, ?_⟩, .inl handled, ?_, .inl hkept⟩⟩
      · rw [hframes, h.bytes, List.append_assoc]
      · intro hge
        rcases hp.holds with hb | hb
        · have := hb.lt; omega
        · exact ⟨by have := hb.lt; have := hb.ge; omega, by rw [← hsize, ← hbuf]; exact hb.cap⟩
      · rw [asks]
        exact hinside s.asks fun a ha => (hp.asks a ha).1
      · intro hdead
        rw [hdead] at alive
        rcases heof (by simpa using alive.symm) with h0 | h0
        · exact .inl h0
        · exact .inr (.inl h0)
    · exact absurd (hp.done.symm.trans done) (by decide)
    · refine ⟨bs, inbox ▸ hbs, .inr (.inl ⟨handled, p ++ bs, ⟨?_, hframes ▸ h.frames,
        rx ▸ hp.opened, hp.len, ?_, ?_⟩⟩)⟩
      · rw [hframes, h.bytes, List.append_assoc]
      · rw [← hsize, ← hbuf]; exact hp.opened.cap
      · rw [asks]
        exact hinside s.asks hp.asks
    · exact ⟨bs, inbox ▸ hbs, .inr (.inr (hover s bs asks hp))⟩
  | whole done inbox asks handled rx alive =>
    generalize readFrame F v.rx v.inbox r₁ r₂ = s at *
    obtain ⟨bs, hbs, hbuf, ⟨hp, -⟩ | hp | hp | hp⟩ := hcases
    · exact absurd (hp.done.symm.trans done) (by decide)
    · have hf : s.rx.buf.take (F.h + s.rx.total.toNat) = p ++ bs := by
        have hlen := hp.frame.2
        have hpos := hp.fits.1
        rw [hp.total, show F.h + (F.len (p ++ bs)).toNat = (p ++ bs).length by omega]
        exact hp.buf
      have hframes : v'.frames = v.frames ++ [p ++ bs] := by simp [View.frames, handled, hf]
      have hpos := F.h_pos
      have hkept : v'.alive = true → Holds F v'.rx [] ∧ v'.rx.buf.length = size := by
        intro halive'
        obtain ⟨hhead, hhas, hlen⟩ := rx halive'
        have := hp.fits.1
        have := hp.fits.2
        exact ⟨.inl ⟨hhead, by rw [hhas]; rfl, hpos, by rw [hlen]; omega, by simp⟩,
          by rw [hlen, hsize]⟩
      refine ⟨bs, inbox ▸ hbs, .inl ⟨[], ⟨?_, ?_, ?_, ?_, hkept, ?_⟩,
        .inr ⟨p ++ bs, by rw [handled, hf, inbox], rfl⟩, fun hdead => ?_, alive.imp_left hkept⟩⟩
      · rw [hframes, h.bytes]; simp
      · rw [hframes]
        intro f hfmem
        rcases List.mem_append.mp hfmem with hfmem | hfmem
        · exact h.frames f hfmem
        · obtain rfl := List.mem_singleton.mp hfmem
          exact ⟨hp.frame, hsize ▸ hp.fits⟩
      · intro h0; simp at h0; omega
      · intro h0; simp at h0; omega
      · rw [asks]
        exact hinside s.asks fun a ha => (hp.asks a ha).1
      · rcases alive with h0 | h0
        · exact absurd (h0.symm.trans hdead) (by decide)
        · exact .inr (.inr h0)
    · exact absurd (hp.done.symm.trans done) (by decide)
    · exact ⟨bs, inbox ▸ hbs, .inr (.inr (hover s bs asks hp))⟩
  | header head done len rx inbox asks handled alive =>
    have hat : AtHead F v.rx p := hholds.resolve_right fun hb =>
      absurd (hb.head.symm.trans head) (by decide)
    have hframes : v'.frames = v.frames := by simp [View.frames, handled]
    have hcap := hat.cap
    have hlt := hat.lt
    obtain ⟨bs, hbs, hask, hbuf, hcase⟩ := readHead_cases hat (by omega) v.inbox r₁
    rcases hcase with ⟨hdone, -⟩ | ⟨-, hop, -, -⟩
    · exact absurd (hdone.symm.trans done) (by decide)
    · refine ⟨bs, inbox ▸ hbs, .inr (.inl ⟨handled, p ++ bs, ⟨?_, hframes ▸ h.frames, rx ▸ hop, ?_,
        ?_, ?_⟩⟩)⟩
      · rw [hframes, h.bytes, List.append_assoc]
      · rw [← hop.buf, F.len_take]; exact len
      · rw [← hsize, ← hbuf]; exact hop.cap
      · rw [asks, hask]
        exact hinside _ (by simpa [Ask.Inside] using by omega)

end Callback

/-! ## Machines and their runs -/

/-- A machine whose read events read as `Reads` says and whose other events
leave its receiver alone, in states that satisfy `Inv`. `recvs` gives the
results of the `recv` calls of a read event, in the order of the calls, and
`closes` says in which states what handles a frame in this event may close the
connection. -/
structure Receiver (F : Format) (σ ε : Type _) where
  step : σ → ε → Option σ
  view : σ → View
  closes : σ → ε → Prop
  recvs : ε → Option (RecvResult × RecvResult)
  Inv : σ → Prop
  sound : ∀ {s : σ} {e : ε} {s' : σ}, Inv s → step s e = some s' → Inv s' ∧
    match recvs e with
    | none => view s' = view s
    | some r => (view s).alive = true ∧ Reads F (closes s e) r.1 r.2 (view s) (view s')

/-- A receiver that has received nothing. -/
structure Fresh (F : Format) (size : Nat) (v : View) : Prop where
  head : v.rx.head = true
  has : v.rx.has = 0
  cap : F.h ≤ size
  length : v.rx.buf.length = size
  asks : v.asks = []
  handled : v.handled = []
  alive : v.alive = true

theorem Fresh.synced {F : Format} {size : Nat} {v : View} (h : Fresh F size v) :
    Synced F size v [] [] := by
  have hpos := F.h_pos
  refine ⟨by simp [View.frames, h.handled], by simp [View.frames, h.handled], ?_, ?_, fun _ =>
    ⟨.inl ⟨h.head, h.has, hpos, by rw [h.length]; exact h.cap, by simp⟩, h.length⟩, by simp [h.asks]⟩
  · intro h0; simp at h0; omega
  · intro h0; simp at h0; omega

namespace Receiver

variable {F : Format} {σ ε : Type _} (R : Receiver F σ ε) {size : Nat} {s t : σ} {es : List ε}

/-- Along every run the bytes received and the state of the receiver are in one
of three relations. -/
theorem known_run (hsz : size < 9223372036854775808) (h₀ : R.Inv s)
    (hs : Fresh F size (R.view s)) (hrun : run R.step s es = some t) :
    ∃ x, (R.view s).inbox = x ++ (R.view t).inbox ∧
      ((∃ p, Synced F size (R.view t) x p) ∨ (∃ q, Stuck F size (R.view t) x q) ∨
        Overran F size (R.view t) x) := by
  refine (run_invariant (I := fun u => R.Inv u ∧ ∃ x, (R.view s).inbox = x ++ (R.view u).inbox ∧
    ((∃ p, Synced F size (R.view u) x p) ∨ (∃ q, Stuck F size (R.view u) x q) ∨
      Overran F size (R.view u) x)) ?_ ⟨h₀, [], rfl, .inl ⟨[], hs.synced⟩⟩ hrun).2
  rintro u e u' ⟨hu, x, hx, hknown⟩ he
  obtain ⟨hu', hsound⟩ := R.sound hu he
  refine ⟨hu', ?_⟩
  split at hsound
  · rw [hsound]
    exact ⟨x, hx, hknown⟩
  · obtain ⟨halive, hr⟩ := hsound
    rcases hknown with ⟨p, hp⟩ | ⟨q, hq⟩ | ho
    · obtain ⟨bs, hbs, ⟨p', hp', -⟩ | ⟨-, hq⟩ | ho⟩ := hp.reads halive hsz hr
      · exact ⟨x ++ bs, by rw [hx, hbs, List.append_assoc], .inl ⟨p', hp'⟩⟩
      · exact ⟨x ++ bs, by rw [hx, hbs, List.append_assoc], .inr (.inl hq)⟩
      · exact ⟨x ++ bs, by rw [hx, hbs, List.append_assoc], .inr (.inr ho)⟩
    · obtain ⟨hin, hq'⟩ := hq.reads hr
      exact ⟨x, by rw [hx, hin], .inr (.inl ⟨q, hq'⟩)⟩
    · obtain ⟨bs, hbs, ho'⟩ := ho.reads hr
      exact ⟨x ++ bs, by rw [hx, hbs, List.append_assoc], .inr (.inr ho')⟩

/-- Whatever a peer sends, every `recv` so far has asked for a range inside the
buffer exactly if every header received announces a payload that fits. -/
theorem asks_inside_iff (hsz : size < 9223372036854775808) (h₀ : R.Inv s)
    (hs : Fresh F size (R.view s)) (hrun : run R.step s es = some t) {x : List UInt8}
    (hx : (R.view s).inbox = x ++ (R.view t).inbox) :
    (∀ a ∈ (R.view t).asks, a.Inside) ↔ HeadersFit F size x := by
  obtain ⟨y, hy, hknown⟩ := R.known_run hsz h₀ hs hrun
  obtain rfl : x = y := List.append_cancel_right (hx.symm.trans hy)
  rcases hknown with ⟨p, hp⟩ | ⟨q, hq⟩ | ho
  · exact iff_of_true hp.inside hp.headersFit
  · exact iff_of_true hq.inside hq.headersFit
  · refine iff_of_false (fun hall => ?_) ho.not_headersFit
    obtain ⟨a, ha, hout⟩ := ho.outside
    exact hout (hall a ha)

/-- On a stream of frames that fit, empty ones among them, every `recv` asks for
a range inside the buffer. -/
theorem asks_inside_of_frames (hsz : size < 9223372036854775808) (h₀ : R.Inv s)
    (hs : Fresh F size (R.view s)) {fs : List (List UInt8)}
    (hfs : ∀ f ∈ fs, F.IsFrame f ∧ F.h + F.len f ≤ size) (hin : (R.view s).inbox = fs.flatten)
    (hrun : run R.step s es = some t) : ∀ a ∈ (R.view t).asks, a.Inside := by
  obtain ⟨x, hx, -⟩ := R.known_run hsz h₀ hs hrun
  exact (R.asks_inside_iff hsz h₀ hs hrun hx).mpr (headersFit_of_stream hfs (hin.symm.trans hx))

end Receiver

end FilesEvent.Framing
