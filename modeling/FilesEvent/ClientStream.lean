import Mathlib.Algebra.GroupWithZero.Nat
import FilesEvent.Saving

/-! The client's incremental receiver against the parser of whole frames. On a
stream of frames with payloads that fit it dispatches what the parser finds in
the bytes received so far, however `recv` splits them, and it never reads into
the frame behind the one at hand. -/

namespace FilesEvent
open Bytes Framing Runs

/-- The branch of `recvPackData` that reports more payload than announced, after
the `recv` of `y`. -/
def TaskFileRecv.BiggerThanTotalLen (y : RxStep) : Prop := 0 < y.ret ∧ y.rx.total < y.rx.has

/-- Where a receiver stands between two callbacks. -/
def TaskFileRecv.BetweenCalls (b : FileProcBuffer) : Prop :=
  (b.bProcCmmd = true ∧ 0 ≤ b.hasProcLen ∧ b.hasProcLen < sizeofNetCmd) ∨
    (b.bProcCmmd = false ∧ 0 ≤ b.hasProcLen ∧ b.hasProcLen < b.totalLen ∧
      b.totalLen = dwLength b.mem)

namespace Endpoint
open TaskFileRecv

/-- What the receiver `s` has made of the stream of the frames `fs`.

* `dispatched`: each frame dispatched is the next one of the stream, and all of
  the stream behind it was still to be received;
* `parsed`: the frames dispatched are those that lie in the bytes received;
* `between`: the state of the buffer between two callbacks;
* `asks`: each `recv` of the next callback asks for something, and leaves what
  lies behind the frame at hand even if it gets all that it asks for;
* `bounded`: no `recv` of a payload leads to the branch for too many bytes. -/
structure ParsesStream (fs : List (List UInt8)) (s : Endpoint TaskFileRecv) : Prop where
  dispatched : ∀ before w f r after, s.acts = before ++ .frame w f r :: after →
    ∃ later, fs = (Act.handled before).map Prod.fst ++ f :: later ∧ r = later.flatten
  parsed : ∃ received, fs.flatten = received ++ s.inbox ∧
    (Act.handled s.acts).map Prod.fst = parse netFormat received.length received
  between : s.alive = true → BetweenCalls s.obj.mRecvBuffer
  asks : ∀ e s', TaskFileRecv.callback s e = some s' →
    ∃ as, Act.asks s'.acts = Act.asks s.acts ++ as ∧ ∀ pre a post, as = pre ++ a :: post →
      1 ≤ a.cnt ∧ ∀ f later, fs = (Act.handled s.acts).map Prod.fst ++ f :: later →
        (pre.map Ask.stored).sum + a.cnt + later.flatten.length ≤ s.inbox.length
  bounded : s.alive = true → ∀ r₁ r₂ y,
    PackCall netFormat s.obj.mRecvBuffer.rx s.inbox r₁ r₂ y → ¬ BiggerThanTotalLen y

variable {fs : List (List UInt8)} {s : Endpoint TaskFileRecv} {p : List UInt8}

/-- A receiver in the middle of a stream of frames that are not empty. -/
theorem betweenCalls_of_holds {b : FileProcBuffer} (h : Holds netFormat b.rx p) :
    BetweenCalls b := by
  rcases h with h | h
  · have hhas : b.hasProcLen = p.length := h.has
    have hlt := h.lt
    rw [netFormat_h] at hlt
    have h16 : sizeofNetCmd = 16 := rfl
    exact .inl ⟨h.head, by omega, by omega⟩
  · have hhas : b.hasProcLen = p.length - netFormat.h := h.has
    have htotal : b.totalLen = netFormat.len p := h.total
    have hge := h.ge
    have hlt := h.lt
    rw [netFormat_h] at hhas hge hlt
    -- the header is at the start of the block
    have hmem : p ++ b.mem.drop p.length = b.mem := by
      conv_rhs => rw [← List.take_append_drop p.length b.mem]
      rw [show b.mem.take p.length = p from h.buf]
    have hlen : netFormat.len p = netFormat.len b.mem := by
      rw [← hmem, netFormat.len_append h.ge]
    have hpos : 0 < asInt (dwLength b.mem) := by
      rw [← netFormat_len, ← hlen]
      omega
    have hword : asInt (dwLength b.mem) = dwLength b.mem := by
      rcases Nat.lt_or_ge (dwLength b.mem) 2147483648 with hsmall | hlarge
      · exact asInt_of_lt hsmall
      · have hlt : dwLength b.mem < 4294967296 := rd32_lt _
        rw [asInt_neg hlarge hlt] at hpos
        omega
    refine .inr ⟨h.head, by omega, by omega, ?_⟩
    rw [htotal, hlen, netFormat_len, hword]

/-- Whatever `recv` returns, and in whatever pieces: on a stream of frames of any
command with payloads that fit, the client dispatches the frames as the parser
of whole frames finds them. Only the end of the stream stops it. -/
theorem parsesStream (hfs : ∀ f ∈ fs, netFormat.IsFrame f ∧ 1 ≤ dwLength f ∧
      dwLength f ≤ memLen - sizeofNetCmd) {mwFile : Bool} {block : List UInt8}
    (hblock : block.length = memLen) {es : List ClientEnv}
    (hrun : run TaskFileRecv.callback (client mwFile block fs) es = some s) :
    ParsesStream fs s ∧ ((∀ e ∈ es, e.r₁ ≠ .eof ∧ e.r₂ ≠ .eof) → s.alive = true) := by
  have hmem : sizeofNetCmd ≤ memLen := by decide
  have hframe : ∀ f ∈ fs, netFormat.IsFrame f := fun f hf => (hfs f hf).1
  have hfits := fits_of_dwLength hframe (fun f hf => (hfs f hf).2.1) fun f hf => by
    have := length_of_isFrame (hframe f hf)
    have := (hfs f hf).2.2
    omega
  obtain ⟨-, ⟨p, hp⟩, halive⟩ := receiver.inStream_run (by decide) hfits trivial
    (fresh_client mwFile fs hblock) rfl hrun
  refine ⟨⟨fun before w f r after hacts => ?_, hp.parsed, fun ha => ?_, fun e s' he => ?_,
    fun ha r₁ r₂ y hy hbig => ?_⟩, fun heof => halive (meets_of_forall (fun e he u => ?_) _)⟩
  · have hd : (receiver.view s).handled = Act.handled before ++ (f, r) :: Act.handled after := by
      change Act.handled s.acts = _
      rw [hacts, Act.handled_append, Act.handled_frame]
    exact hp.dispatch hframe hd
  · exact betweenCalls_of_holds (hp.synced.holds ha).1
  · obtain ⟨ha, hreads⟩ := (receiver.sound trivial he).2
    exact hp.asks hfits ha (by decide) hreads
  · have hle := hp.has_le hfits ha (by decide) hy
    have := hbig.2
    omega
  · refine ⟨id, fun r hr => ?_⟩
    obtain rfl := Option.some.inj hr
    exact heof e he

/-- A LOGINRET and two FILES frames. -/
def shortTransfer : List (List UInt8) :=
  [loginRetFrame 6, filesHead 0 4 ++ lit "data", filesHead 4 2 ++ lit ".\n"]

/-- The whole of a short transfer is dispatched in some run. -/
theorem parsesStream_shortTransfer :
    ∃ es s, run TaskFileRecv.callback (client true (zeros memLen) shortTransfer) es = some s ∧
      (Act.handled s.acts).map Prod.fst = shortTransfer ∧ ParsesStream shortTransfer s := by
  have hfs : ∀ f ∈ shortTransfer, netFormat.IsFrame f ∧ 1 ≤ dwLength f ∧
      dwLength f ≤ memLen - sizeofNetCmd := by decide +kernel
  have hfits := fits_of_dwLength (fun f hf => (hfs f hf).1) (fun f hf => (hfs f hf).2.1)
    (by decide +kernel : ∀ f ∈ shortTransfer, f.length ≤ memLen)
  obtain ⟨es, s, hrun, hframes⟩ := receiver.reads_all (by decide) hfits
    TaskFileRecv.total_receiver _ _ rfl trivial rfl
    ⟨[], (fresh_client true shortTransfer (length_zeros memLen)).inStream rfl⟩
  exact ⟨es, s, hrun, hframes, (parsesStream hfs (length_zeros memLen) hrun).1⟩

end Endpoint

end FilesEvent
