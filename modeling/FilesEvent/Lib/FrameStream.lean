import Mathlib.Algebra.GroupWithZero.Nat
import FilesEvent.Lib.Receiver

/-! A receiver on a stream of frames. If no payload is empty or too large for
the buffer it hands over the frames one by one and always stands behind them and
a beginning of the next (`InStream`). An empty payload throws it off. -/

namespace FilesEvent.Framing
open Bytes PrefixCode Runs

section Stream

variable {F : Format} {size : Nat} {fs : List (List UInt8)} {v v' : View} {p : List UInt8}

/-- The receiver stands in the stream of the frames `fs`, in the middle of the
frame that `p` begins; each frame was handled before more of the stream was read. -/
structure InStream (F : Format) (size : Nat) (fs : List (List UInt8)) (v : View)
    (p : List UInt8) : Prop where
  synced : Synced F size v (v.frames.flatten ++ p) p
  stream : fs.flatten = v.frames.flatten ++ p ++ v.inbox
  dispatched : ∀ (as : List (List UInt8 × List UInt8)) (f r : List UInt8) bs,
    v.handled = as ++ (f, r) :: bs → fs.flatten = (as.map Prod.fst).flatten ++ f ++ r

theorem Fresh.inStream (h : Fresh F size v) (hin : v.inbox = fs.flatten) :
    InStream F size fs v [] where
  synced := by simpa [View.frames, h.handled] using h.synced
  stream := by simp [View.frames, h.handled, hin]
  dispatched as f r bs hd := by simp [h.handled] at hd

/-- One callback moves on in the stream, by at most one frame; while the frames
have payloads that fit it cannot do otherwise. -/
theorem InStream.reads {closes : Prop} {r₁ r₂ : RecvResult} (h : InStream F size fs v p)
    (hfs : ∀ f ∈ fs, F.IsFrame f ∧ F.h + F.len f ≤ size) (halive : v.alive = true)
    (hsz : size < 9223372036854775808) (hr : Reads F closes r₁ r₂ v v') :
    (∃ p', InStream F size fs v' p' ∧
        (v'.frames = v.frames ∨ ∃ f, v'.frames = v.frames ++ [f]) ∧
        (v'.alive = false → r₁ = .eof ∨ r₂ = .eof ∨ closes)) ∨
      (∃ x q, Stuck F size v' x q ∧ ∃ f later, fs = v.frames ++ f :: later ∧ F.len f = 0) := by
  have hframe : ∀ f ∈ fs, F.IsFrame f := fun f hf => (hfs f hf).1
  -- a header found in the stream is that of a frame
  have hheader : ∀ (ds : List (List UInt8)) (bs q : List UInt8),
      v.inbox = bs ++ v'.inbox → v.frames.flatten ++ p ++ bs = ds.flatten ++ q →
      (∀ d ∈ ds, F.IsFrame d) → F.h ≤ q.length →
      ∃ f later, fs = ds ++ f :: later ∧ F.len q = F.len f := by
    intro ds bs q hbs hx hds hq
    refine header_of_frame (y := v'.inbox) hds hframe ?_ hq
    rw [h.stream, hbs, ← List.append_assoc _ bs, hx, List.append_assoc]
  obtain ⟨bs, hbs, ⟨p', hp', hhandled, hdead, -⟩ | ⟨hhandled, q, hq⟩ | ho⟩ :=
    h.synced.reads halive hsz hr
  · have hstream : fs.flatten = v'.frames.flatten ++ p' ++ v'.inbox := by
      rw [← hp'.bytes, h.stream, hbs, ← List.append_assoc]
    have hframes : v'.frames = v.frames ∨ ∃ f, v'.frames = v.frames ++ [f] := by
      rcases hhandled with heq | ⟨f, heq, -⟩
      · exact .inl (congrArg (List.map Prod.fst) heq)
      · exact .inr ⟨f, by simp [View.frames, heq]⟩
    refine .inl ⟨p', ⟨hp'.bytes ▸ hp', hstream, fun as f r cs hd => ?_⟩, hframes, hdead⟩
    rcases hhandled with heq | ⟨g, heq, rfl⟩
    · exact h.dispatched as f r cs (heq ▸ hd)
    · rw [heq] at hd
      rcases List.eq_nil_or_concat cs with rfl | ⟨cs, c, rfl⟩
      · obtain ⟨rfl, hlast⟩ := List.append_inj' hd rfl
        obtain ⟨rfl, rfl⟩ : g = f ∧ v'.inbox = r := by simpa using hlast
        rw [hstream]
        simp [View.frames, heq]
      · have hd' : v.handled ++ [(g, v'.inbox)] = (as ++ (f, r) :: cs) ++ [c] := by simpa using hd
        exact h.dispatched as f r cs (List.append_inj_left' hd' rfl)
  · obtain ⟨f, later, hf, hlen⟩ := hheader v'.frames bs q hbs hq.bytes
      (fun d hd => (hq.frames d hd).1) (Nat.le_of_eq hq.opened.len.symm)
    have hframes : v'.frames = v.frames := congrArg (List.map Prod.fst) hhandled
    exact .inr ⟨_, q, hq, f, later, by rw [hf, hframes], by rw [← hlen, hq.len]⟩
  · obtain ⟨ds, q, hx, hds, hq, hout⟩ := ho.header
    obtain ⟨f, later, hfl, hlen⟩ := hheader ds bs q hbs hx hds hq
    have hf : f ∈ fs := by rw [hfl]; simp
    have hff := (hfs f hf).1
    refine absurd ⟨?_, ?_⟩ hout
    · rw [hlen]; have := hff.1; have := hff.2; omega
    · rw [hlen]; exact (hfs f hf).2

/-- The `recv` calls of a callback in the middle of the frame `f`: each asks for
something, and leaves what comes behind `f` if it gets all that it asks for. -/
theorem readFrame_asks_frame {x : Rx} {f later inbox : List UInt8} (hx : Holds F x p)
    (hsz : x.buf.length < 9223372036854775808) (hf : F.IsFrame f) (hfit : Fits F x.buf.length f)
    (hin : p ++ inbox = f ++ later) {r₁ r₂ : RecvResult} {pre post : List Ask} {a : Ask}
    (h : (readFrame F x inbox r₁ r₂).asks = pre ++ a :: post) :
    1 ≤ a.cnt ∧ (pre.map Ask.stored).sum + a.cnt + later.length ≤ inbox.length := by
  have hflen := hf.2
  have hbound := hfit.2
  have hpos := hfit.1
  have htotal := congrArg List.length hin
  rw [List.length_append, List.length_append] at htotal
  rcases hx with hx | hx
  · have hlt := hx.lt
    have hcap := hx.cap
    obtain ⟨bs, hbs, hask, hbuf, hcases⟩ := readHead_cases hx (by omega) inbox r₁
    have hfirst : 1 ≤ (readHead F x inbox r₁).ask.cnt ∧
        (readHead F x inbox r₁).ask.cnt + later.length ≤ inbox.length := by
      rw [hask]
      constructor <;> simp only <;> omega
    rcases hcases with ⟨hd, -⟩ | ⟨hd, hop, -, -⟩
    · rw [readFrame_of_head hx.head hd] at h
      cases pre with
      | nil =>
        obtain ⟨rfl, -⟩ := List.cons.inj h
        simpa using hfirst
      | cons b pre => simp at h
    · -- the header is that of `f`, and its payload fits
      have hge : F.h ≤ (p ++ bs).length := Nat.le_of_eq hop.len.symm
      have hlen : F.len (p ++ bs) = F.len f := by
        rw [← F.len_append hge (readHead F x inbox r₁).inbox, List.append_assoc, ← hbs, hin,
          F.len_append hf.1]
      have hib := hop.inBody ⟨hlen ▸ hpos, by rw [hlen, hbuf]; exact hbound⟩
      obtain ⟨bs', -, hask', -⟩ := readPack_cases hib (by omega) (readHead F x inbox r₁).inbox r₂
      rw [readFrame_of_head_done hx.head hd rfl] at h
      have hopen := hop.len
      rw [List.length_append] at hopen
      cases pre with
      | nil =>
        obtain ⟨rfl, -⟩ := List.cons.inj h
        simpa using hfirst
      | cons b pre =>
        obtain ⟨rfl, htail⟩ := List.cons.inj h
        cases pre with
        | nil =>
          obtain ⟨rfl, -⟩ := List.cons.inj htail
          rw [hask, hask', List.length_append]
          simp only [List.map_cons, List.map_nil, List.sum_singleton]
          constructor <;> omega
        | cons c pre => simp at htail
  · have hge := hx.ge
    have hlt := hx.lt
    have hlen : F.len p = F.len f := by rw [← F.len_append hge inbox, hin, F.len_append hf.1]
    obtain ⟨bs, -, hask, -⟩ := readPack_cases hx (by omega) inbox r₁
    rw [readFrame_of_body hx.head] at h
    cases pre with
    | nil =>
      obtain ⟨rfl, -⟩ := List.cons.inj h
      rw [hask]
      simp only [List.map_nil, List.sum_nil]
      constructor <;> omega
    | cons b pre => simp at h

/-- At the end of the stream the `recv` calls ask for the next header. -/
theorem readFrame_asks_end {x : Rx} (hx : Holds F x p)
    (hsz : x.buf.length < 9223372036854775808) (hp : p.length < F.h) {r₁ r₂ : RecvResult} {a : Ask}
    (h : a ∈ (readFrame F x [] r₁ r₂).asks) : 1 ≤ a.cnt := by
  obtain ⟨bs, hbs, -, hcases⟩ := readFrame_cases hx hsz [] r₁ r₂
  obtain ⟨rfl, -⟩ := List.append_eq_nil_iff.mp hbs.symm
  rw [List.append_nil] at hcases
  rcases hcases with ⟨hq, -⟩ | hq | hq | hq
  · exact (hq.asks a h).2.1
  · have := hq.frame.1
    omega
  · have := hq.opened.len
    omega
  · have := hq.header
    omega

end Stream

/-! ## The parser of whole frames -/

/-- The whole frames at the start of the bytes `x`, at most `n` of them. -/
def parse (F : Format) : Nat → List UInt8 → List (List UInt8)
  | 0, _ => []
  | n + 1, x =>
      if F.h ≤ x.length ∧ 0 ≤ F.len x ∧ F.h + F.len x ≤ x.length then
        x.take (F.h + F.len x).toNat :: parse F n (x.drop (F.h + F.len x).toNat)
      else []

/-- Frames and the beginning of one more are parsed into the frames. -/
theorem parse_frames {F : Format} {ds : List (List UInt8)} {p : List UInt8} {n : Nat}
    (hds : ∀ d ∈ ds, F.IsFrame d) (hp : Incomplete F p) (hn : ds.length ≤ n) :
    parse F n (ds.flatten ++ p) = ds := by
  induction ds generalizing n with
  | nil =>
    cases n with
    | zero => rfl
    | succ n =>
      rw [List.flatten_nil, List.nil_append, parse, if_neg]
      rintro ⟨hge, -, hle⟩
      have := hp hge
      omega
  | cons d ds ih =>
    obtain ⟨hd, hds⟩ := List.forall_mem_cons.mp hds
    cases n with
    | zero => simp at hn
    | succ n =>
      have hge := hd.1
      have hlen := hd.2
      have hk : (F.h + F.len d).toNat = d.length := by omega
      rw [List.flatten_cons, List.append_assoc, parse, F.len_append hge, hk, List.take_left,
        List.drop_left, ih hds (Nat.le_of_succ_le_succ hn), if_pos]
      rw [List.length_append]
      omega

/-! ## Runs over a stream -/

/-- The receiver is still read from, and holds the beginning of a frame of the
stream, behind whole frames; at the end of a frame it holds nothing and is at
the start of the next header. -/
structure OnTrack (F : Format) (fs : List (List UInt8)) (v : View) : Prop where
  alive : v.alive = true
  place : ∃ (ds : List (List UInt8)) (p : List UInt8) (rest : List (List UInt8)),
    fs = ds ++ rest ∧ rest.flatten = p ++ v.inbox ∧ Holds F v.rx p

/-- Where a receiver stands, in frames. -/
theorem InStream.split {F : Format} {size : Nat} {fs : List (List UInt8)} {v : View}
    {p : List UInt8} (h : InStream F size fs v p) (hfs : ∀ f ∈ fs, F.IsFrame f) :
    ∃ rest, fs = v.frames ++ rest ∧ rest.flatten = p ++ v.inbox := by
  obtain ⟨rest, hrest, hp⟩ := F.prefixFree.flatten_split (x := p ++ v.inbox)
    (fun d hd => (h.synced.frames d hd).1) hfs (by rw [h.stream, List.append_assoc])
  exact ⟨rest, hrest, hp.symm⟩

/-- The frames handled are those that the parser finds in the bytes received. -/
theorem InStream.parsed {F : Format} {size : Nat} {fs : List (List UInt8)} {v : View}
    {p : List UInt8} (h : InStream F size fs v p) :
    ∃ received, fs.flatten = received ++ v.inbox ∧ v.frames = parse F received.length received := by
  have hframes : ∀ d ∈ v.frames, F.IsFrame d := fun d hd => (h.synced.frames d hd).1
  refine ⟨v.frames.flatten ++ p, h.stream, (parse_frames hframes h.synced.open_ ?_).symm⟩
  rw [List.length_append]
  exact Nat.le_trans (F.prefixFree.length_le_flatten hframes) (Nat.le_add_right _ _)

/-- A receiver to which the whole stream has come has handled every frame. -/
theorem InStream.frames_eq {F : Format} {size : Nat} {fs : List (List UInt8)} {v : View}
    {p : List UInt8} (h : InStream F size fs v p) (hfs : ∀ f ∈ fs, F.IsFrame f)
    (hin : v.inbox = []) : v.frames = fs := by
  obtain ⟨rest, hrest, hbytes⟩ := h.split hfs
  rw [hin, List.append_nil] at hbytes
  cases rest with
  | nil => rw [hrest, List.append_nil]
  | cons f rest =>
    -- a receiver never holds a whole frame
    rw [List.flatten_cons] at hbytes
    have hlt := h.synced.open_.lt_frame (hfs f (by simp [hrest])) (y := [])
      (by rw [List.append_nil]; exact hbytes.symm)
    have := congrArg List.length hbytes
    rw [List.length_append] at this
    omega

/-- The stream as it was when the frame `f` was handled: all of it behind `f`. -/
theorem InStream.dispatch {F : Format} {size : Nat} {fs : List (List UInt8)} {v : View}
    {p : List UInt8} (h : InStream F size fs v p) (hfs : ∀ f ∈ fs, F.IsFrame f)
    {as bs : List (List UInt8 × List UInt8)} {f r : List UInt8}
    (hd : v.handled = as ++ (f, r) :: bs) :
    ∃ later, fs = as.map Prod.fst ++ f :: later ∧ r = later.flatten := by
  have hmem : ∀ d ∈ as.map Prod.fst ++ [f], d ∈ v.frames := by
    intro d hdm
    simp only [View.frames, hd, List.map_append, List.map_cons]
    rcases List.mem_append.mp hdm with hdm | hdm
    · exact List.mem_append_left _ hdm
    · exact List.mem_append_right _ (List.mem_cons.mpr (.inl (List.mem_singleton.mp hdm)))
  have hstream : (as.map Prod.fst ++ [f]).flatten ++ r = fs.flatten := by
    rw [h.dispatched as f r bs hd]
    simp
  obtain ⟨rest, hrest, hr⟩ := F.prefixFree.flatten_split
    (fun d hdm => (h.synced.frames d (hmem d hdm)).1) hfs hstream
  exact ⟨rest, by simpa using hrest, hr⟩

/-- A header that the receiver completes is that of a frame of the stream. -/
theorem InStream.opened {F : Format} {size : Nat} {fs : List (List UInt8)} {v : View}
    {p : List UInt8} {r : RecvResult} (h : InStream F size fs v p)
    (hfs : ∀ f ∈ fs, F.IsFrame f ∧ Fits F size f) (halive : v.alive = true)
    (hsz : size < 9223372036854775808) (hhead : v.rx.head = true)
    (hdone : (readHead F v.rx v.inbox r).done = true) :
    ∃ q, Opened F (readHead F v.rx v.inbox r).rx q ∧ 0 < F.len q := by
  obtain ⟨hholds, hsize⟩ := h.synced.holds halive
  have hat : AtHead F v.rx p := hholds.resolve_right fun hb =>
    absurd (hb.head.symm.trans hhead) (by decide)
  have hcap := hat.cap
  obtain ⟨bs, hbs, -, -, ⟨hd, -⟩ | ⟨-, hop, -⟩⟩ := readHead_cases hat (by omega) v.inbox r
  · cases hd.symm.trans hdone
  · obtain ⟨f, later, hfl, hlen⟩ := header_of_frame (y := (readHead F v.rx v.inbox r).inbox) (q := p ++ bs)
      (fun d hd => (h.synced.frames d hd).1) (fun f hf => (hfs f hf).1)
      (by rw [h.stream, List.append_assoc, List.append_assoc, ← hbs]) (Nat.le_of_eq hop.len.symm)
    exact ⟨p ++ bs, hop, hlen ▸ (hfs f (by rw [hfl]; simp)).2.1⟩

/-- The `recv` of the payload in a callback: its first one, or the one behind the
`recv` that completes the header. -/
inductive PackCall (F : Format) (x : Rx) (inbox : List UInt8) (r₁ r₂ : RecvResult) : RxStep → Prop
  | body (head : x.head = false) : PackCall F x inbox r₁ r₂ (readPack F x inbox r₁)
  | header (head : x.head = true) (done : (readHead F x inbox r₁).done = true) :
      PackCall F x inbox r₁ r₂ (readPack F (readHead F x inbox r₁).rx (readHead F x inbox r₁).inbox r₂)

theorem readPack_has_le {F : Format} {x : Rx} (h : x.has ≤ x.total)
    (hsz : x.total - x.has < 18446744073709551616) (inbox : List UInt8) (r : RecvResult) :
    (readPack F x inbox r).rx.has ≤ (readPack F x inbox r).rx.total := by
  have hasked : asSize (x.total - x.has) = (x.total - x.has).toNat :=
    asSize_of_nonneg (by omega) hsz
  unfold readPack
  simp only [hasked]
  rcases recv_cases inbox (x.total - x.has).toNat r with ⟨hle, -, -⟩ | ⟨-, hle, hret, -⟩
  · rw [if_neg (by omega)]
    exact h
  · split
    · simp only [hret]
      omega
    · exact h

/-- The payload never grows beyond the announced length. -/
theorem InStream.has_le {F : Format} {size : Nat} {fs : List (List UInt8)} {v : View}
    {p : List UInt8} {r₁ r₂ : RecvResult} {y : RxStep} (h : InStream F size fs v p)
    (hfs : ∀ f ∈ fs, F.IsFrame f ∧ Fits F size f) (halive : v.alive = true)
    (hsz : size < 9223372036854775808) (hy : PackCall F v.rx v.inbox r₁ r₂ y) :
    y.rx.has ≤ y.rx.total := by
  cases hy with
  | body head =>
    obtain ⟨hholds, -⟩ := h.synced.holds halive
    have hb : InBody F v.rx p := hholds.resolve_left fun ha =>
      absurd (ha.head.symm.trans head) (by decide)
    have hint := F.len_int p
    have hlt := hb.lt
    have hge := hb.ge
    exact readPack_has_le (by rw [hb.has, hb.total]; omega) (by rw [hb.has, hb.total]; omega) _ _
  | header head done =>
    obtain ⟨q, hop, hpos⟩ := h.opened hfs halive hsz head done
    have hint := F.len_int q
    exact readPack_has_le (by rw [hop.has, hop.total]; omega) (by rw [hop.has, hop.total]; omega) _ _

/-- The `recv` calls of a callback on the stream: each asks for something, and
leaves what comes behind the frame being read if it gets all that it asks for. -/
theorem InStream.asks {F : Format} {size : Nat} {fs : List (List UInt8)} {v v' : View}
    {p : List UInt8} {closes : Prop} {r₁ r₂ : RecvResult} (h : InStream F size fs v p)
    (hfs : ∀ f ∈ fs, F.IsFrame f ∧ Fits F size f) (halive : v.alive = true)
    (hsz : size < 9223372036854775808) (hr : Reads F closes r₁ r₂ v v') :
    ∃ asks, v'.asks = v.asks ++ asks ∧ ∀ pre a post, asks = pre ++ a :: post →
      1 ≤ a.cnt ∧ ∀ f later, fs = v.frames ++ f :: later →
        (pre.map Ask.stored).sum + a.cnt + later.flatten.length ≤ v.inbox.length := by
  obtain ⟨hholds, hsize⟩ := h.synced.holds halive
  obtain ⟨rest, hrest, hbytes⟩ := h.split fun f hf => (hfs f hf).1
  have hframe : v'.asks = v.asks ++ (readFrame F v.rx v.inbox r₁ r₂).asks := by
    cases hr with
    | more _ _ _ asks => exact asks
    | whole _ _ asks => exact asks
    | header head done len =>
      -- no header of the stream announces an empty payload
      obtain ⟨q, hop, hpos⟩ := h.opened hfs halive hsz head done
      rw [← hop.buf, F.len_take, len] at hpos
      exact absurd hpos (by decide)
  refine ⟨_, hframe, fun pre a post hsplit => ?_⟩
  cases rest with
  | nil =>
    obtain ⟨rfl, hin⟩ := List.append_eq_nil_iff.mp hbytes.symm
    rw [hin] at hsplit
    have hask : a ∈ (readFrame F v.rx [] r₁ r₂).asks := by rw [hsplit]; simp
    refine ⟨readFrame_asks_end hholds (by omega) F.h_pos hask, fun f later hf => ?_⟩
    rw [hrest, List.append_cancel_left_eq] at hf
    cases hf
  | cons f rest =>
    obtain ⟨hf, hfit⟩ := hfs f (by simp [hrest])
    obtain ⟨hcnt, hle⟩ := readFrame_asks_frame hholds (by omega) hf (hsize ▸ hfit) hbytes.symm hsplit
    refine ⟨hcnt, fun g later hg => ?_⟩
    rw [hrest, List.append_cancel_left_eq] at hg
    obtain ⟨rfl, rfl⟩ := List.cons.inj hg
    exact hle

namespace Receiver

variable {F : Format} {σ ε : Type _} (R : Receiver F σ ε) {size : Nat} {s t : σ} {es : List ε}
  {fs : List (List UInt8)}

/-- Neither `recv` of the event finds the stream closed, and no handling closes it. -/
def Open (s : σ) (e : ε) : Prop :=
  ¬ R.closes s e ∧ ∀ r, R.recvs e = some r → r.1 ≠ .eof ∧ r.2 ≠ .eof

theorem open_of_recvs {e : ε} (hkeep : ¬ R.closes s e) {k : Nat}
    (h : R.recvs e = some (.avail k, .eagain)) : R.Open s e := by
  refine ⟨hkeep, fun r hr => ?_⟩
  obtain rfl := Option.some.inj (h.symm.trans hr)
  exact ⟨nofun, nofun⟩

theorem alive_of_open {e : ε} {r : RecvResult × RecvResult} {v : View} (h : R.Open s e)
    (hr : R.recvs e = some r) (hdead : v.alive = false → r.1 = .eof ∨ r.2 = .eof ∨ R.closes s e) :
    v.alive = true := by
  obtain ⟨h₁, h₂⟩ := h.2 r hr
  cases hv : v.alive with
  | true => rfl
  | false =>
    rcases hdead hv with h0 | h0 | h0
    · exact absurd h0 h₁
    · exact absurd h0 h₂
    · exact absurd h0 h.1

/-- A read event that closes nothing can happen with any results of its `recv` calls. -/
def Total : Prop := ∀ s r₁ r₂, R.Inv s → (R.view s).alive = true →
  ∃ e, ¬ R.closes s e ∧ R.recvs e = some (r₁, r₂) ∧ (R.step s e).isSome

/-- Over a stream of frames with payloads that fit, one event keeps a receiver in
the stream, and only the end of the stream or what handles a frame closes it. -/
theorem inStream_step (hsz : size < 9223372036854775808)
    (hfs : ∀ f ∈ fs, F.IsFrame f ∧ Fits F size f) (hs : R.Inv s) {p : List UInt8}
    (hp : InStream F size fs (R.view s) p) {e : ε} (he : R.step s e = some t) :
    R.Inv t ∧ (∃ p', InStream F size fs (R.view t) p') ∧
      (R.Open s e → (R.view s).alive = true → (R.view t).alive = true) := by
  obtain ⟨ht, hsound⟩ := R.sound hs he
  refine ⟨ht, ?_⟩
  split at hsound
  · rw [hsound]
    exact ⟨⟨p, hp⟩, fun _ halive => halive⟩
  · rename_i r hrecvs
    rcases hp.reads (fun f hf => ⟨(hfs f hf).1, (hfs f hf).2.2⟩) hsound.1 hsz hsound.2 with
      ⟨p', hp', -, hdead⟩ | ⟨-, -, -, f, later, hf, hlen⟩
    · exact ⟨⟨p', hp'⟩, fun hopen _ => R.alive_of_open hopen hrecvs hdead⟩
    · exact absurd hlen (by have := (hfs f (by rw [hf]; simp)).2.1; omega)

/-- So does a run. -/
theorem inStream_run (hsz : size < 9223372036854775808)
    (hfs : ∀ f ∈ fs, F.IsFrame f ∧ Fits F size f) (h₀ : R.Inv s) (hs : Fresh F size (R.view s))
    (hin : (R.view s).inbox = fs.flatten) (hrun : run R.step s es = some t) :
    R.Inv t ∧ (∃ p, InStream F size fs (R.view t) p) ∧
      (Meets R.step R.Open s es → (R.view t).alive = true) := by
  have hstep : ∀ u e u', (R.Inv u ∧ ∃ p, InStream F size fs (R.view u) p) →
      R.step u e = some u' → R.Inv u' ∧ ∃ p, InStream F size fs (R.view u') p := by
    rintro u e u' ⟨hu, p, hp⟩ he
    obtain ⟨hu', hp', -⟩ := R.inStream_step hsz hfs hu hp he
    exact ⟨hu', hp'⟩
  have h₁ : R.Inv s ∧ ∃ p, InStream F size fs (R.view s) p := ⟨h₀, [], hs.inStream hin⟩
  obtain ⟨ht, hp⟩ := run_invariant hstep h₁ hrun
  refine ⟨ht, hp, fun hopen => ?_⟩
  refine (run_meets (C := R.Open) (I := fun u => (R.Inv u ∧ ∃ p, InStream F size fs (R.view u) p) ∧
    (R.view u).alive = true) ?_ ⟨h₁, hs.alive⟩ hopen hrun).2
  rintro u e u' ⟨hu, halive⟩ he hu'
  obtain ⟨p, hp⟩ := hu.2
  exact ⟨hstep u e u' hu hu', (R.inStream_step hsz hfs hu.1 hp hu').2.2 he halive⟩

end Receiver

/-! ## Empty payloads -/

theorem recv_shrinks {inbox : List UInt8} {asked k : Nat} (ha : asked ≠ 0) (hi : inbox ≠ []) :
    (recv inbox asked (.avail k)).inbox.length < inbox.length := by
  have hlen := List.length_pos_iff.mpr hi
  have hne : inbox.take (min (k + 1) asked) ≠ [] := by
    rw [← List.length_pos_iff, List.length_take]
    omega
  simp only [recv, if_neg ha, if_neg hne, List.length_drop]
  omega

theorem readHead_inbox (F : Format) (x : Rx) (inbox : List UInt8) (r : RecvResult) :
    (readHead F x inbox r).inbox = (recv inbox (asSize (F.h - x.has)) r).inbox := by
  unfold readHead
  simp only
  split
  · split <;> rfl
  · rfl

theorem readPack_inbox (F : Format) (x : Rx) (inbox : List UInt8) (r : RecvResult) :
    (readPack F x inbox r).inbox = (recv inbox (asSize (x.total - x.has)) r).inbox := by
  unfold readPack
  simp only
  split <;> rfl

/-- A callback takes at least one byte when there is one. -/
theorem Reads.shrinks {F : Format} {closes : Prop} {k : Nat} {r₂ : RecvResult} {v v' : View}
    {p : List UInt8} (hr : Reads F closes (.avail k) r₂ v v') (hh : Holds F v.rx p)
    (hsz : v.rx.buf.length < 9223372036854775808) (hi : v.inbox ≠ []) :
    v'.inbox.length < v.inbox.length := by
  have hhead : v.rx.head = true →
      (readHead F v.rx v.inbox (.avail k)).inbox.length < v.inbox.length := by
    intro hhead
    have hat : AtHead F v.rx p := hh.resolve_right fun hb =>
      absurd (hb.head.symm.trans hhead) (by decide)
    have hlt := hat.lt
    have hcap := hat.cap
    rw [readHead_inbox]
    refine recv_shrinks ?_ hi
    rw [asSize_of_nonneg] <;> rw [hat.has] <;> omega
  have hframe : (readFrame F v.rx v.inbox (.avail k) r₂).inbox.length < v.inbox.length := by
    unfold readFrame
    split
    · rename_i h
      have := hhead h
      simp only
      split
      · obtain ⟨bs, hbs, -⟩ := readPack_stream F (readHead F v.rx v.inbox (.avail k)).rx
          (readHead F v.rx v.inbox (.avail k)).inbox r₂
        have := congrArg List.length hbs
        rw [List.length_append] at this
        simp only
        omega
      · exact this
    · rename_i h
      have hb : InBody F v.rx p := hh.resolve_left fun hat => h hat.head
      have hlt := hb.lt
      have hcap := hb.cap
      have hge := hb.ge
      simp only [readPack_inbox]
      refine recv_shrinks ?_ hi
      rw [asSize_of_nonneg] <;> rw [hb.has, hb.total] <;> omega
  cases hr with
  | more _ _ inbox => rw [inbox]; exact hframe
  | whole _ inbox => rw [inbox]; exact hframe
  | header head _ _ _ inbox => rw [inbox]; exact hhead head

namespace Receiver

variable {F : Format} {σ ε : Type _} (R : Receiver F σ ε) {size : Nat} {s t : σ} {e : ε}
  {fs : List (List UInt8)} {p : List UInt8}

/-- The receiver is open and in the frame `f` of a stream, behind which the
frames `later` follow; `f` may be empty, but it fits into the buffer. -/
structure At (size : Nat) (s : σ) (f : List UInt8) (later : List (List UInt8))
    (p : List UInt8) : Prop where
  inv : R.Inv s
  alive : (R.view s).alive = true
  holds : Holds F (R.view s).rx p
  length : (R.view s).rx.buf.length = size
  frame : F.IsFrame f
  cap : F.h + F.len f ≤ size
  stream : p ++ (R.view s).inbox = f ++ later.flatten

/-- `ahead s rest` are the frames that a receiver in the state `s` gets to in
some run, when the frames `rest` are still to be handled: the one at hand, and
the next ones until the handling of one cannot but close the connection. -/
structure Ahead (size : Nat) (ahead : σ → List (List UInt8) → List (List UInt8)) : Prop where
  nil : ∀ s, ahead s [] = []
  head : ∀ s f later, f ∈ ahead s (f :: later)
  more : ∀ {s t e f later p}, R.At size s f later p → 0 < F.len f → R.step s e = some t →
    (R.view t).frames = (R.view s).frames → ahead t (f :: later) = ahead s (f :: later)
  whole : ∀ {s t e f later p}, R.At size s f later p → 0 < F.len f → ¬ R.closes s e →
    R.step s e = some t → (R.view t).frames = (R.view s).frames ++ [f] →
    ahead s (f :: later) = f :: ahead t later
  next : ∀ {s f later p}, R.At size s f later p → (∃ g ∈ ahead s (f :: later), F.len g = 0) →
    ∃ e t, ¬ R.closes s e ∧ R.recvs e = some (.avail 0, .eagain) ∧ R.step s e = some t

/-- A receiver whose handling never has to close gets to every frame. -/
theorem Total.ahead (h : R.Total) : R.Ahead size fun _ rest => rest where
  nil _ := rfl
  head _ _ _ := List.mem_cons_self
  more _ _ _ _ := rfl
  whole _ _ _ _ _ := rfl
  next hat _ := by
    obtain ⟨e, hkeep, hrecvs, hsome⟩ := h _ (.avail 0) .eagain hat.inv hat.alive
    obtain ⟨t, ht⟩ := Option.isSome_iff_exists.mp hsome
    exact ⟨e, t, hkeep, hrecvs, ht⟩

variable {ahead : σ → List (List UInt8) → List (List UInt8)}

/-- The receiver is open and in the stream, and `rest` are the frames that it
has not handled. -/
structure Reading (size : Nat) (fs : List (List UInt8)) (s : σ)
    (rest : List (List UInt8)) : Prop where
  inv : R.Inv s
  alive : (R.view s).alive = true
  place : ∃ p, InStream F size fs (R.view s) p
  split : fs = (R.view s).frames ++ rest

theorem Reading.at {f : List UInt8} {later : List (List UInt8)}
    (h : R.Reading size fs s (f :: later))
    (hfs : ∀ f ∈ fs, F.IsFrame f ∧ F.h + F.len f ≤ size) : ∃ p, R.At size s f later p := by
  obtain ⟨p, hp⟩ := h.place
  obtain ⟨rest, hrest, hbytes⟩ := hp.split fun f hf => (hfs f hf).1
  obtain rfl : f :: later = rest := List.append_cancel_left (h.split.symm.trans hrest)
  obtain ⟨hframe, hcap⟩ := hfs f (by rw [hrest]; simp)
  obtain ⟨hholds, hlen⟩ := hp.synced.holds h.alive
  exact ⟨p, h.inv, h.alive, hholds, hlen, hframe, hcap, by rw [← hbytes, List.flatten_cons]⟩

/-- One open event in the stream: the receiver goes on with the frame at hand, or
it goes on behind it, or the frame at hand is empty and throws it off. -/
theorem Reading.step (hsz : size < 9223372036854775808) (hA : R.Ahead size ahead)
    {rest : List (List UInt8)} (h : R.Reading size fs s rest)
    (hfs : ∀ f ∈ fs, F.IsFrame f ∧ F.h + F.len f ≤ size) (hopen : R.Open s e)
    (he : R.step s e = some t) :
    (∃ rest', R.Reading size fs t rest' ∧ ((∃ f later, rest = f :: later ∧ F.len f = 0 ∧
        rest' = rest) ∨ ahead t rest' = ahead s rest ∨
        ∃ f, 0 < F.len f ∧ ahead s rest = f :: ahead t rest')) ∨
      (∃ f later, rest = f :: later ∧ F.len f = 0) ∧ ¬ OnTrack F fs (R.view t) := by
  obtain ⟨p, hp⟩ := h.place
  obtain ⟨ht, hsound⟩ := R.sound h.inv he
  -- what is still ahead if no frame has been handled
  have hmore : R.Reading size fs t rest → (R.view t).frames = (R.view s).frames →
      ∃ rest', R.Reading size fs t rest' ∧ ((∃ f later, rest = f :: later ∧ F.len f = 0 ∧
        rest' = rest) ∨ ahead t rest' = ahead s rest ∨
        ∃ f, 0 < F.len f ∧ ahead s rest = f :: ahead t rest') := by
    intro hr hframes
    refine ⟨rest, hr, ?_⟩
    cases rest with
    | nil => exact .inr (.inl (by rw [hA.nil, hA.nil]))
    | cons f later =>
      obtain ⟨p, hat⟩ := h.at R hfs
      have hge := hat.frame.1
      have hlen := hat.frame.2
      rcases Int.lt_or_eq_of_le (show 0 ≤ F.len f by omega) with hpos | h0
      · exact .inr (.inl (hA.more hat hpos he hframes))
      · exact .inl ⟨f, later, rfl, h0.symm, rfl⟩
  split at hsound
  · exact .inl (hmore ⟨ht, by rw [hsound]; exact h.alive, by rw [hsound]; exact h.place,
      by rw [hsound]; exact h.split⟩ (by rw [hsound]))
  · rename_i r hrecvs
    rcases hp.reads hfs hsound.1 hsz hsound.2 with ⟨p', hp', hframes, hdead⟩ |
      ⟨x, q, hq, f, later, hf, hlen⟩
    · have halive := R.alive_of_open hopen hrecvs hdead
      refine .inl ?_
      rcases hframes with heq | ⟨g, heq⟩
      · exact hmore ⟨ht, halive, ⟨p', hp'⟩, by rw [heq]; exact h.split⟩ heq
      · -- the frame handled is the one at hand
        obtain ⟨rest', hrest', -⟩ := hp'.split fun f hf => (hfs f hf).1
        have hrest := List.append_cancel_left
          (h.split.symm.trans (by rw [hrest', heq, List.append_assoc]))
        rw [List.singleton_append] at hrest
        subst hrest
        obtain ⟨p, hat⟩ := h.at R hfs
        have hpos : 0 < F.len g := (hp'.synced.frames g (by rw [heq]; simp)).2.1
        exact ⟨rest', ⟨ht, halive, ⟨p', hp'⟩, hrest'⟩, .inr (.inr ⟨g, hpos,
          hA.whole hat hpos hopen.1 he heq⟩)⟩
    · refine .inr ⟨⟨f, later, List.append_cancel_left (h.split.symm.trans hf), hlen⟩, ?_⟩
      rintro ⟨-, -, p', -, -, -, hp'⟩
      exact hq.not_holds hp'

/-- A receiver of frames that fit can read all of them. -/
theorem reads_all (hsz : size < 9223372036854775808)
    (hfs : ∀ f ∈ fs, F.IsFrame f ∧ Fits F size f) (htotal : R.Total) :
    ∀ (n : Nat) (s : σ), (R.view s).inbox.length = n → R.Inv s → (R.view s).alive = true →
      (∃ p, InStream F size fs (R.view s) p) →
      ∃ es t, run R.step s es = some t ∧ (R.view t).frames = fs := by
  intro n
  induction n using Nat.strongRecOn with
  | ind n ih =>
    rintro s hn hs halive ⟨p, hp⟩
    by_cases hi : (R.view s).inbox = []
    · exact ⟨[], s, rfl, hp.frames_eq (fun f hf => (hfs f hf).1) hi⟩
    obtain ⟨hholds, hsize⟩ := hp.synced.holds halive
    obtain ⟨e, hkeep, hrecvs, hsome⟩ := htotal s (.avail 0) .eagain hs halive
    obtain ⟨s', hstep⟩ := Option.isSome_iff_exists.mp hsome
    have hopen := R.open_of_recvs hkeep hrecvs
    obtain ⟨hs', hp', halive'⟩ := R.inStream_step hsz hfs hs hp hstep
    have hsound := (R.sound hs hstep).2
    rw [hrecvs] at hsound
    have hlt := hsound.2.shrinks hholds (by omega) hi
    obtain ⟨es, t, hrun, ht⟩ := ih _ (hn ▸ hlt) s' rfl hs' (halive' hopen halive) hp'
    exact ⟨e :: es, t, run_cons.mpr ⟨s', hstep, hrun⟩, ht⟩

end Receiver

end FilesEvent.Framing
