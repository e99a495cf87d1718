import FilesEvent.Receivers

/-! The server's incremental receiver against the stream it reads. On a stream
of frames that fit it hands over exactly those frames, whoever handles them;
against an arbitrary peer its `recv` calls stay inside the buffers exactly as
long as no header announces more than 1484 bytes, which nothing checks. -/

namespace FilesEvent
open Bytes Framing Runs

/-- The largest payload that fits behind a header in `mReadBuff` and in `cmmd`. -/
def maxPayload : Nat := cmdLen - sizeofNetCmd

theorem netFormat_fits {f : List UInt8} (h₁ : 1 ≤ dwLength f) (h : dwLength f ≤ maxPayload) :
    Fits netFormat cmdLen f := by
  have hmax : maxPayload = 1484 := rfl
  have hcmd : cmdLen = 1500 := rfl
  rw [Fits, netFormat_len, netFormat_h, asInt_of_lt (by omega)]
  omega

/-- `dwLength` announces no more than the buffer holds, as an `int`, exactly if
it does so as an unsigned number. -/
theorem netFormat_inside (q : List UInt8) :
    (0 ≤ netFormat.len q ∧ netFormat.h + netFormat.len q ≤ cmdLen) ↔ dwLength q ≤ maxPayload := by
  have hmax : maxPayload = 1484 := rfl
  have hcmd : cmdLen = 1500 := rfl
  have hlt : dwLength q < 4294967296 := rd32_lt _
  rw [netFormat_len, netFormat_h]
  rcases Nat.lt_or_ge (dwLength q) 2147483648 with h | h
  · rw [asInt_of_lt h]
    omega
  · rw [asInt_neg h hlt]
    omega

/-! ## Bounds -/

/-- Every header in the bytes `received`, read frame by frame, announces at most
`maxPayload` bytes. -/
def LengthsFit (received : List UInt8) : Prop :=
  ∀ (ds : List (List UInt8)) (q : List UInt8), received = ds.flatten ++ q →
    (∀ d ∈ ds, netFormat.IsFrame d) → sizeofNetCmd ≤ q.length → dwLength q ≤ maxPayload

theorem headersFit_iff (received : List UInt8) :
    HeadersFit netFormat cmdLen received ↔ LengthsFit received := by
  constructor
  · intro h ds q hx hds hq
    exact (netFormat_inside q).mp (h ds q hx hds hq)
  · intro h ds q hx hds hq
    exact (netFormat_inside q).mpr (h ds q hx hds hq)

namespace Conn

/-- A read callback in which all that has arrived is received at once. -/
def readAll : ReadEnv := ⟨.avail 4095, .avail 4095, false, 0, []⟩

/-- At every moment of every run: the `recv` calls so far stayed inside the
receive buffers if and only if every header received announced a payload that
fits. `received` is what has been taken from the stream. -/
theorem recvs_inside_iff {mReadBuff stream received : List UInt8} {es : List ConnEvent} {c : Conn}
    (hbuf : mReadBuff.length = cmdLen)
    (hrun : run step (onAccept mReadBuff stream) es = some c)
    (hreceived : stream = received ++ c.inbox) :
    (∀ a ∈ Act.asks c.acts, a.Inside) ↔ LengthsFit received := by
  rw [← headersFit_iff]
  exact receiver.asks_inside_iff (by decide) (buffersOk_onAccept hbuf stream)
    (fresh_onAccept hbuf stream) hrun hreceived

theorem recvs_inside_iff_header :
    ∃ c, run step (onAccept (zeros cmdLen) (netCmd moduleMsgLogin 0 1485))
        [.onRead (handlers fun _ => true) readAll] = some c ∧
      ((∀ a ∈ Act.asks c.acts, a.Inside) ↔ LengthsFit (netCmd moduleMsgLogin 0 1485)) := by
  have h : (run step (onAccept (zeros cmdLen) (netCmd moduleMsgLogin 0 1485))
      [.onRead (handlers fun _ => true) readAll]).any
        (fun c : Conn => decide (c.inbox = [])) = true := by decide +kernel
  obtain ⟨c, hc, hin⟩ := (Option.any_eq_true _ _).mp h
  refine ⟨c, hc, recvs_inside_iff (length_zeros cmdLen) hc ?_⟩
  rw [of_decide_eq_true hin, List.append_nil]

/-- One header that announces 1485 bytes is enough: the next `recv` asks for
1485 bytes behind it, one more than the buffer has left. -/
theorem recv_past_mReadBuff :
    ∃ c, run step (onAccept (zeros cmdLen) (netCmd moduleMsgLogin 0 1485))
        [.onRead (handlers fun _ => true) readAll] = some c ∧
      ∃ a ∈ Act.asks c.acts, ¬ a.Inside := by
  have h : (run step (onAccept (zeros cmdLen) (netCmd moduleMsgLogin 0 1485))
      [.onRead (handlers fun _ => true) readAll]).any
        (fun c : Conn => decide (∃ a ∈ Act.asks c.acts, ¬ a.Inside)) = true := by decide +kernel
  obtain ⟨c, hc, hout⟩ := (Option.any_eq_true _ _).mp h
  exact ⟨c, hc, of_decide_eq_true hout⟩

end Conn

/-! ## The frames of a stream -/

/-- Whole frames go to the handling code `w` only. -/
def OnlyTo (w : Handler) (acts : List Act) : Prop := ∀ w' f r, Act.frame w' f r ∈ acts → w' = w

theorem OnlyTo.frames {w : Handler} {acts : List Act} (h : OnlyTo w acts) :
    (Act.handled acts).map Prod.fst = Act.framesOf w acts ∧
      ∀ w', w' ≠ w → Act.framesOf w' acts = [] := by
  induction acts with
  | nil => exact ⟨rfl, fun _ _ => rfl⟩
  | cons a acts ih =>
    obtain ⟨hw, hne⟩ := ih fun w' f r hmem => h w' f r (List.mem_cons_of_mem a hmem)
    cases a with
    | frame w' f r =>
      obtain rfl := h w' f r List.mem_cons_self
      refine ⟨by simpa [Act.framesOf] using hw, fun w'' h'' => ?_⟩
      have := hne w'' h''
      simpa [Act.framesOf, h''.symm] using this
    | _ => exact ⟨hw, hne⟩

namespace Session

/-- While it has no task a session handles whole frames itself, from then on
its task does. -/
theorem readBuffer_onlyTo {H : Handlers} {s : Session TaskFileSend} {inbox : List UInt8}
    {e : ReadEnv} {g : SessionRead} (h : s.readBuffer H inbox e = some g) :
    (s.mTaskBase = none ∧ OnlyTo .session g.acts) ∨
      (s.mTaskBase.isSome ∧ g.sess.mTaskBase.isSome ∧ OnlyTo .sender g.acts) := by
  have hmap : ∀ asks : List Ask, ∀ w' f r, Act.frame w' f r ∉ asks.map Act.recv := by
    intro asks w' f r hmem
    obtain ⟨k, -, hk⟩ := List.mem_map.mp hmem
    cases hk
  rcases readBuffer_cases h with ⟨t, r, ht, -, hr, rfl⟩ | ⟨hnone, h⟩
  · refine .inr ⟨by simp [ht], ?_, fun w' f rest hmem => ?_⟩
    · simp only
      split
      · rw [addWriteEvent_eq, mTaskBase_addEvent]; rfl
      · rfl
    · cases TaskFileSend.readBuffer_cases hr with
      | more q _ _ step =>
        rw [step] at hmem
        exact absurd hmem (hmap _ w' f rest)
      | whole q _ _ c _ step =>
        rw [step] at hmem
        rcases List.mem_append.mp hmem with hmem | hmem
        · exact absurd hmem (hmap _ w' f rest)
        · rcases List.mem_cons.mp hmem with heq | hmem
          · cases heq; rfl
          · cases c <;> simp [TaskFileSend.handle] at hmem
  · refine .inl ⟨hnone, fun w' f r hmem => ?_⟩
    obtain ⟨-, ⟨-, -, -, -, hacts⟩ | ⟨-, after, hafter, hacts⟩⟩ := readRequest_cases h rfl
    · rw [hacts] at hmem
      exact absurd hmem (hmap _ w' f r)
    · rw [hacts] at hmem
      rcases List.mem_append.mp hmem with hmem | hmem
      · exact absurd hmem (hmap _ w' f r)
      · rcases List.mem_cons.mp hmem with heq | hmem
        · cases heq; rfl
        · cases hafter with
          | fetch path t _ ht =>
            rcases List.mem_cons.mp hmem with hmem | hmem
            · cases hmem
            · exact ((TaskFileSend.setFetchFile_sendOnly ht).2 _ hmem).elim
          | overrun => simp at hmem
          | stay => cases hmem
          | refuse => cases hmem

end Session

/-- The event completes no frame whose handling closes the session, and no `recv`
finds the end of the stream. -/
def ConnEvent.KeepsOpen (c : Conn) : ConnEvent → Prop
  | .onRead H e => ¬ c.sess.Rejects H c.inbox e ∧ e.r₁ ≠ .eof ∧ e.r₂ ≠ .eof
  | .onWrite _ _ => True

namespace Conn

/-- The session handles the first frames and its task the frames after them. -/
structure HandOver (c : Conn) : Prop where
  order : c.view.frames = Act.framesOf .session c.acts ++ Act.framesOf .sender c.acts
  sender : c.sess.mTaskBase = none → Act.framesOf .sender c.acts = []

theorem HandOver.step {c c' : Conn} {e : ConnEvent} (hok : c.sess.BuffersOk) (h : HandOver c)
    (hs : c.step e = some c') : HandOver c' := by
  have horder := h.order
  simp only [view, View.frames, logView] at horder
  obtain ⟨halive, ⟨H, env, g, -, -, hg, rfl⟩ | ⟨fr, outs, ret, s, acts, -, -, hw, rfl⟩⟩ :=
    step_cases hs
  · have htask : (if g.ret = 0 then g.sess else g.sess.addEvent .read).mTaskBase =
        g.sess.mTaskBase := by
      split
      · rfl
      · simp
    rcases Session.readBuffer_onlyTo hg with ⟨hnone, honly⟩ | ⟨-, hsome, honly⟩
    · rw [Session.mTaskBase_fired] at hnone
      have hnil := h.sender hnone
      have hnil' := honly.frames.2 .sender (by decide)
      refine ⟨?_, fun _ => by rw [Act.framesOf_append, hnil, hnil']; rfl⟩
      simp only [view, View.frames, logView, Act.handled_append, List.map_append, horder,
        honly.frames.1, Act.framesOf_append, hnil, hnil', List.append_nil]
    · constructor
      · have hnil := honly.frames.2 .session (by decide)
        simp only [view, View.frames, logView, Act.handled_append, List.map_append, horder,
          honly.frames.1, Act.framesOf_append, hnil, List.append_nil, List.append_assoc]
      · intro hnone
        rw [htask] at hnone
        simp [hnone] at hsome
  · obtain ⟨-, hview, htask, hsend⟩ := onWrite_view hok halive hw rfl
    constructor
    · rw [hview, h.order]
      simp [Act.framesOf_of_isSend hsend]
    · intro hnone
      rw [Act.framesOf_append, Act.framesOf_of_isSend hsend, List.append_nil]
      apply h.sender
      rw [hnone] at htask
      simpa using htask.symm

/-- On a stream of frames that fit, however it is split and whatever handles the
frames: the frames handled, first by the session and then by its task, are the
first frames of the stream; what has been received beyond them is a beginning
`p` of the next frame that is not the whole of it, and the receiver in use holds
`p` at the start of its buffer; when a frame was handled, all of the stream
behind it was still to be received; and the session stays open if no handler
closes it before the stream ends. -/
theorem handles_frames_of_stream {fs : List (List UInt8)}
    (hfs : ∀ f ∈ fs, netFormat.IsFrame f ∧ 1 ≤ dwLength f ∧ dwLength f ≤ maxPayload)
    {mReadBuff : List UInt8} (hbuf : mReadBuff.length = cmdLen) {es : List ConnEvent} {c : Conn}
    (hrun : run step (onAccept mReadBuff fs.flatten) es = some c) :
    (∃ p rest, fs = Act.framesOf .session c.acts ++ Act.framesOf .sender c.acts ++ rest ∧
        rest.flatten = p ++ c.inbox ∧ (∀ f later, rest = f :: later → p.length < f.length) ∧
        (c.alive = true → Holds netFormat c.sess.receiving p)) ∧
      (∀ before w f r after, c.acts = before ++ .frame w f r :: after →
        ∃ later, fs = (Act.handled before).map Prod.fst ++ f :: later ∧ r = later.flatten) ∧
      (Meets step ConnEvent.KeepsOpen (onAccept mReadBuff fs.flatten) es → c.alive = true) := by
  have hframe : ∀ f ∈ fs, netFormat.IsFrame f := fun f hf => (hfs f hf).1
  obtain ⟨hok, ⟨p, hp⟩, halive⟩ := receiver.inStream_run (by decide)
    (fun f hf => ⟨(hfs f hf).1, netFormat_fits (hfs f hf).2.1 (hfs f hf).2.2⟩)
    (buffersOk_onAccept hbuf fs.flatten) (fresh_onAccept hbuf fs.flatten) rfl hrun
  have hover : c.sess.BuffersOk ∧ HandOver c :=
    run_invariant (I := fun c => c.sess.BuffersOk ∧ HandOver c)
      (fun _ _ _ hI he => ⟨(receiver.sound hI.1 he).1, hI.2.step hI.1 he⟩)
      ⟨buffersOk_onAccept hbuf fs.flatten, ⟨rfl, fun _ => rfl⟩⟩ hrun
  refine ⟨?_, ?_, fun hkeep => halive (hkeep.mono fun c e he => ?_)⟩
  · obtain ⟨rest, hrest, hbytes⟩ := hp.split hframe
    refine ⟨p, rest, ?_, hbytes, ?_, fun ha => (hp.synced.holds ha).1⟩
    · rw [← hover.2.order]
      exact hrest
    · rintro f later rfl
      exact hp.synced.open_.lt_frame (hframe f (by rw [hrest]; simp)) hbytes.symm
  · intro before w f r after hacts
    have hd : c.view.handled = Act.handled before ++ (f, r) :: Act.handled after := by
      change Act.handled c.acts = _
      rw [hacts, Act.handled_append, Act.handled_frame]
    exact hp.dispatch hframe hd
  · cases e with
    | onRead H e =>
      refine ⟨he.1, fun r hr => ?_⟩
      obtain rfl := Option.some.inj hr
      exact he.2
    | onWrite fr outs => exact ⟨id, nofun⟩

/-- A request for the file "ab" and a "send" control, as frames. -/
def loginAndSend : List (List UInt8) :=
  [TaskFileRecv.loginFrame (lit "ab"),
    netCmd moduleMsgControlPlay 0 13 ++ lit "<name=\"send\">"]

theorem handles_frames_of_loginAndSend :
    ∃ c, run step (onAccept (zeros cmdLen) loginAndSend.flatten)
        [.onRead (handlers fun _ => true) ⟨.avail 8, .eagain, false, 0, []⟩,
          .onRead (handlers fun _ => true) ⟨.avail 99, .avail 99, true, 3, [.accepted 1048]⟩,
          .onRead (handlers fun _ => true) readAll] = some c ∧
      ∃ p rest, loginAndSend = Act.framesOf .session c.acts ++ Act.framesOf .sender c.acts ++ rest ∧
        rest.flatten = p ++ c.inbox := by
  have h : (run step (onAccept (zeros cmdLen) loginAndSend.flatten)
        [.onRead (handlers fun _ => true) ⟨.avail 8, .eagain, false, 0, []⟩,
          .onRead (handlers fun _ => true) ⟨.avail 99, .avail 99, true, 3, [.accepted 1048]⟩,
          .onRead (handlers fun _ => true) readAll]).isSome = true := by decide +kernel
  obtain ⟨c, hc⟩ := Option.isSome_iff_exists.mp h
  have hsized : ∀ f ∈ loginAndSend, netFormat.IsFrame f ∧ 1 ≤ dwLength f ∧
      dwLength f ≤ maxPayload := by decide +kernel
  obtain ⟨⟨p, rest, hfs, hrest, -⟩, -⟩ :=
    handles_frames_of_stream hsized (length_zeros cmdLen) hc
  exact ⟨c, hc, p, rest, hfs, hrest⟩

end Conn

end FilesEvent
