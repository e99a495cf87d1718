import FilesEvent.Session
import FilesEvent.TaskFileRecv
import FilesEvent.Lib.FrameStream

/-! The three receivers of the program read frames as `readFrame` does: the
session without a task, `TaskFileSend` and `TaskFileRecv`. A session that hands
over to its task reads on as one receiver. -/

namespace FilesEvent
open Bytes Framing Runs

/-- The view of a receiver whose callbacks have done `acts`. -/
def logView (rx : Rx) (inbox : List UInt8) (acts : List Act) (alive : Bool) : View :=
  ⟨rx, inbox, Act.asks acts, Act.handled acts, alive⟩

section Callback

variable {x : Rx} {inbox : List UInt8} {r₁ r₂ : RecvResult} {f : FrameStep} {closes : Prop}

/-- A callback that leaves a frame incomplete. -/
theorem reads_more (hf : readFrame netFormat x inbox r₁ r₂ = f) (hdone : f.done = false)
    (acts : List Act) :
    Reads netFormat closes r₁ r₂ (logView x inbox acts true)
      (logView f.rx f.inbox (acts ++ f.asks.map .recv) (decide (f.ret ≠ 0))) := by
  subst hf
  exact .more hdone rfl rfl (by simp [logView]) (by simp [logView]) rfl

/-- A callback that completes a frame and gives it to `w`, which does `after`. -/
theorem reads_whole (hf : readFrame netFormat x inbox r₁ r₂ = f) (hdone : f.done = true)
    {w : Handler} {after : List Act} (hafter : Act.asks after = [] ∧ Act.handled after = [])
    {rx' : Rx} {alive : Bool}
    (hrx : alive = true → rx'.head = true ∧ rx'.has = 0 ∧ rx'.buf.length = x.buf.length)
    (halive : alive = true ∨ closes) (acts : List Act) :
    Reads netFormat closes r₁ r₂ (logView x inbox acts true)
      (logView rx' f.inbox (acts ++ (f.asks.map .recv ++
        .frame w (f.rx.buf.take (sizeofNetCmd + f.rx.total.toNat)) f.inbox :: after)) alive) := by
  subst hf
  exact .whole hdone rfl (by simp [logView, hafter.1]) (by simp [logView, hafter.2, sizeofNetCmd])
    hrx halive

end Callback

/-! ## `TaskFileSend` -/

namespace TaskFileSend

theorem handle_quiet (t : TaskFileSend) (c : Control) :
    Act.asks (t.handle c).2.1 = [] ∧ Act.handled (t.handle c).2.1 = [] := by
  cases c <;> exact ⟨rfl, rfl⟩

theorem readBuffer_reads (ctl : List UInt8 → Control) {t : TaskFileSend}
    (ht : t.mRecvBuffer.cmmd.length = cmdLen) (inbox : List UInt8) (r₁ r₂ : RecvResult)
    (closes : Prop) (acts : List Act) {g : TaskRead} (hg : t.readBuffer ctl inbox r₁ r₂ = g) :
    g.task.mRecvBuffer.cmmd.length = cmdLen ∧
      Reads netFormat closes r₁ r₂ (logView t.mRecvBuffer.rx inbox acts true)
        (logView g.task.mRecvBuffer.rx g.inbox (acts ++ g.acts) (decide (g.ret ≠ 0))) := by
  have hbuf : t.mRecvBuffer.rx.buf.length = cmdLen := ht
  cases readBuffer_cases hg with
  | more f frame done step =>
    subst step frame
    exact ⟨(readFrame_length netFormat _ _ _ _).trans hbuf, reads_more rfl done acts⟩
  | whole f frame done c _ step =>
    subst step frame
    have hpos := readFrame_ret_pos done
    exact ⟨length_zeros cmdLen, reads_whole rfl done (handle_quiet _ _)
      (fun _ => ⟨rfl, rfl, (length_zeros cmdLen).trans hbuf.symm⟩)
      (.inl (decide_eq_true (Int.ne_of_gt hpos))) acts⟩

end TaskFileSend

/-! ## `TaskFileRecv` -/

namespace TaskFileRecv

/-- A command is sent and nothing else is done. -/
theorem sendCmd_sent {cmd : Nat} {index : Int} {lpData : List UInt8}
    {outs₁ outs₂ : List SendResult} {o : CmdOut}
    (h : sendCmd cmd index lpData outs₁ outs₂ = some o) :
    ∀ a ∈ o.acts, ∃ bs, a = .sent cmd bs := by
  have hmap : ∀ calls : List SendCall, ∀ a ∈ calls.map fun c => Act.sent cmd c.bytes,
      ∃ bs, a = .sent cmd bs := by
    intro calls a ha
    obtain ⟨c, -, rfl⟩ := List.mem_map.mp ha
    exact ⟨c.bytes, rfl⟩
  simp only [sendCmd, Option.bind_eq_bind, Option.bind_eq_some_iff] at h
  obtain ⟨o₁, -, h⟩ := h
  split at h
  · split at h
    · obtain rfl := Option.some.inj h
      exact hmap _
    · cases h
  · split at h
    · split at h
      · obtain rfl := Option.some.inj h
        exact hmap _
      · cases h
    · obtain ⟨o₂, -, h⟩ := Option.bind_eq_some_iff.mp h
      obtain rfl := Option.some.inj h
      intro a ha
      rcases List.mem_append.mp ha with ha | ha
      · exact hmap _ a ha
      · exact hmap _ a ha

theorem sendCmd_isSend {cmd : Nat} {index : Int} {lpData : List UInt8}
    {outs₁ outs₂ : List SendResult} {o : CmdOut}
    (h : sendCmd cmd index lpData outs₁ outs₂ = some o) : ∀ a ∈ o.acts, a.IsSend := by
  intro a ha
  obtain ⟨bs, rfl⟩ := sendCmd_sent h a ha
  trivial

theorem handle_quiet {c c' : TaskFileRecv} {outs₁ outs₂ : List SendResult} {acts : List Act}
    (h : c.handle outs₁ outs₂ = some (c', acts)) :
    c'.mRecvBuffer = c.mRecvBuffer ∧ Act.asks acts = [] ∧ Act.handled acts = [] := by
  unfold handle at h
  simp only at h
  split at h
  · simp only [Option.bind_eq_bind, Option.bind_eq_some_iff, Option.some.injEq,
      Prod.mk.injEq] at h
    obtain ⟨o, ho, rfl, rfl⟩ := h
    have hsend := sendCmd_isSend ho
    exact ⟨rfl, Act.asks_of_isSend hsend, Act.handled_of_isSend hsend⟩
  · split at h
    · split at h
      · simp only [Option.some.injEq, Prod.mk.injEq] at h
        obtain ⟨rfl, rfl⟩ := h
        refine ⟨rfl, ?_⟩
        split <;> exact ⟨rfl, rfl⟩
      · simp only [Option.some.injEq, Prod.mk.injEq] at h
        obtain ⟨rfl, rfl⟩ := h
        exact ⟨rfl, rfl, rfl⟩
    · cases h

/-- One `recv` of the payload, and what handling the frame does. -/
theorem recvPackData_cases {c : TaskFileRecv} {inbox : List UInt8} {r : RecvResult}
    {outs₁ outs₂ : List SendResult} {p : RecvStep} {s : RxStep}
    (h : c.recvPackData inbox r outs₁ outs₂ = some p)
    (hs : readPack netFormat c.mRecvBuffer.rx inbox r = s) :
    (s.done = false ∧
        p = ⟨s.ret, { c with mRecvBuffer := c.mRecvBuffer.setRx s.rx }, s.inbox, [.recv s.ask]⟩) ∨
      (s.done = true ∧ ∃ c' after,
        ({ c with mRecvBuffer := c.mRecvBuffer.setRx s.rx } : TaskFileRecv).handle outs₁ outs₂ =
          some (c', after) ∧
        p = ⟨s.ret, { c' with mRecvBuffer := c'.mRecvBuffer.reset }, s.inbox, .recv s.ask ::
          .frame .receiver (s.rx.buf.take (sizeofNetCmd + s.rx.total.toNat)) s.inbox :: after⟩) := by
  unfold recvPackData at h
  simp only [hs] at h
  split at h
  · rename_i hdone
    simp only [Option.bind_eq_bind, Option.bind_eq_some_iff, Option.some.injEq] at h
    obtain ⟨⟨c', after⟩, hc', rfl⟩ := h
    exact .inr ⟨hdone, c', after, hc', rfl⟩
  · rename_i hdone
    split at h
    · obtain rfl := Option.some.inj h
      exact .inl ⟨eq_false_of_ne_true hdone, rfl⟩
    · cases h

/-- What a read callback of the client does: it leaves a frame incomplete, or
handles a complete one, or reads the header of an empty one, where it stops. -/
inductive ReadCases (c : TaskFileRecv) (inbox : List UInt8) (r₁ r₂ : RecvResult)
    (outs₁ outs₂ : List SendResult) (g : RecvStep) : Prop
  | more (f : FrameStep) (frame : readFrame netFormat c.mRecvBuffer.rx inbox r₁ r₂ = f)
      (done : f.done = false)
      (step : g = ⟨f.ret, { c with mRecvBuffer := c.mRecvBuffer.setRx f.rx }, f.inbox,
        f.asks.map .recv⟩)
  | whole (f : FrameStep) (frame : readFrame netFormat c.mRecvBuffer.rx inbox r₁ r₂ = f)
      (done : f.done = true) (c' : TaskFileRecv) (after : List Act)
      (handle : ({ c with mRecvBuffer := c.mRecvBuffer.setRx f.rx } : TaskFileRecv).handle
        outs₁ outs₂ = some (c', after))
      (step : g = ⟨f.ret, { c' with mRecvBuffer := c'.mRecvBuffer.reset }, f.inbox,
        f.asks.map .recv ++
          .frame .receiver (f.rx.buf.take (sizeofNetCmd + f.rx.total.toNat)) f.inbox :: after⟩)
  | header (s : RxStep) (read : readHead netFormat c.mRecvBuffer.rx inbox r₁ = s)
      (head : c.mRecvBuffer.bProcCmmd = true) (done : s.done = true)
      (len : netFormat.len s.rx.buf = 0)
      (step : g = ⟨s.ret, { c with mRecvBuffer := c.mRecvBuffer.setRx s.rx }, s.inbox,
        .recv s.ask :: if dwCmd s.rx.buf = moduleMsgDataEnd then [.dataEnd] else []⟩)

theorem readBuffer_cases {c : TaskFileRecv} {inbox : List UInt8} {r₁ r₂ : RecvResult}
    {outs₁ outs₂ : List SendResult} {g : RecvStep}
    (h : c.readBuffer inbox r₁ r₂ outs₁ outs₂ = some g) :
    ReadCases c inbox r₁ r₂ outs₁ outs₂ g := by
  unfold readBuffer at h
  split at h
  · rename_i hhead
    simp only at h
    split at h
    · -- header and payload in one callback
      rename_i hdone
      simp only [Option.bind_eq_bind, Option.bind_eq_some_iff, Option.some.injEq] at h
      obtain ⟨p, hp, rfl⟩ := h
      have hframe : readFrame netFormat c.mRecvBuffer.rx inbox r₁ r₂ = _ :=
        readFrame_of_head_done hhead hdone.1 rfl
      rcases recvPackData_cases hp rfl with ⟨hd, rfl⟩ | ⟨hd, c', after, hc', rfl⟩
      · exact .more _ hframe hd rfl
      · exact .whole _ hframe hd c' after hc' rfl
    · rename_i hnot
      split at h
      · obtain rfl := Option.some.inj h
        cases hd : (readHead netFormat c.mRecvBuffer.rx inbox r₁).done with
        | true =>
          have hlen : netFormat.len (readHead netFormat c.mRecvBuffer.rx inbox r₁).rx.buf = 0 := by
            simp only [hd, true_and] at hnot
            rw [netFormat_len, Nat.eq_zero_of_not_pos hnot]
            rfl
          exact .header _ rfl hhead hd hlen (by simp)
        | false =>
          exact .more _ (readFrame_of_head (x := c.mRecvBuffer.rx) hhead hd) rfl (by simp)
      · cases h
  · rename_i hhead
    have hframe : readFrame netFormat c.mRecvBuffer.rx inbox r₁ r₂ = _ :=
      readFrame_of_body (eq_false_of_ne_true hhead)
    rcases recvPackData_cases h rfl with ⟨hd, rfl⟩ | ⟨hd, c', after, hc', rfl⟩
    · exact .more _ hframe hd rfl
    · exact .whole _ hframe hd c' after hc' rfl

theorem readBuffer_reads {c : TaskFileRecv} {inbox : List UInt8} {r₁ r₂ : RecvResult}
    {outs₁ outs₂ : List SendResult} {g : RecvStep}
    (h : c.readBuffer inbox r₁ r₂ outs₁ outs₂ = some g) (closes : Prop) (acts : List Act) :
    Reads netFormat closes r₁ r₂ (logView c.mRecvBuffer.rx inbox acts true)
      (logView g.task.mRecvBuffer.rx g.inbox (acts ++ g.acts) (decide (g.ret ≠ 0))) := by
  cases readBuffer_cases h with
  | more f frame done step =>
    rw [step]
    exact reads_more frame done acts
  | whole f frame done c' after handle step =>
    obtain ⟨hb, ha, hh⟩ := handle_quiet handle
    have hlen := readFrame_length netFormat c.mRecvBuffer.rx inbox r₁ r₂
    have hpos : 0 < f.ret := frame ▸ readFrame_ret_pos (frame ▸ done)
    rw [frame] at hlen
    rw [step]
    refine reads_whole frame done ⟨ha, hh⟩ (fun _ => ?_)
      (.inl (decide_eq_true (Int.ne_of_gt hpos))) acts
    refine ⟨rfl, rfl, ?_⟩
    simp only [hb]
    exact hlen
  | header s read head done len step =>
    subst read
    rw [step]
    refine .header head done len rfl rfl ?_ ?_ (decide_eq_true (Int.ne_of_gt (readHead_ret_pos done)))
    · simp only [logView]
      split <;> simp [Act.asks]
    · simp only [logView]
      split <;> simp [Act.handled]

end TaskFileRecv

/-! ## Sending leaves the receiver alone -/

/-- A call that only builds and sends frames. -/
def SendOnly (t : TaskFileSend) (s : SendStep) : Prop :=
  s.task.mRecvBuffer = t.mRecvBuffer ∧ ∀ a ∈ s.acts, a.IsSend

namespace TaskFileSend

variable {t : TaskFileSend} {outs : List SendResult} {s : SendStep}

theorem tcpSendData_sent (h : t.tcpSendData outs = some s) :
    s.task.mRecvBuffer = t.mRecvBuffer ∧ ∀ a ∈ s.acts, ∃ cmd bs, a = .sent cmd bs := by
  obtain ⟨htask, o, hacts⟩ := tcpSendData_frame h
  refine ⟨by rw [htask], fun a ha => ?_⟩
  rw [hacts] at ha
  obtain ⟨c, -, rfl⟩ := List.mem_map.mp ha
  exact ⟨_, _, rfl⟩

theorem tcpSendData_sendOnly (h : t.tcpSendData outs = some s) : SendOnly t s := by
  obtain ⟨hrecv, hsent⟩ := tcpSendData_sent h
  refine ⟨hrecv, fun a ha => ?_⟩
  obtain ⟨cmd, bs, rfl⟩ := hsent a ha
  trivial

theorem putAndSend_sendOnly {cmd : List UInt8} (h : t.putAndSend cmd outs = some s) :
    SendOnly t s := by
  simp only [putAndSend, Option.bind_eq_bind, Option.bind_eq_some_iff, Option.some.injEq] at h
  obtain ⟨s', hs', rfl⟩ := h
  obtain ⟨hb, ha⟩ := tcpSendData_sendOnly hs'
  exact ⟨hb, List.forall_mem_cons.mpr ⟨trivial, ha⟩⟩

theorem setFetchFile_sendOnly {opens : Bool} {stSize : Nat}
    (h : t.setFetchFile opens stSize outs = some s) : SendOnly t s := by
  unfold setFetchFile at h
  split at h
  · split at h
    · obtain rfl := Option.some.inj h
      exact ⟨rfl, by simp⟩
    · cases h
  · simp only [Option.bind_eq_bind, Option.bind_eq_some_iff, Option.some.injEq] at h
    obtain ⟨s', hs', rfl⟩ := h
    obtain ⟨hb, ha⟩ := putAndSend_sendOnly hs'
    exact ⟨hb, ha⟩

theorem writeBuffer_sendOnly {fr : List UInt8} (h : t.writeBuffer fr outs = some s) :
    SendOnly t s := by
  unfold writeBuffer at h
  split at h
  · split at h
    · split at h
      · obtain ⟨hb, ha⟩ := putAndSend_sendOnly h
        exact ⟨hb, ha⟩
      · split at h
        · split at h
          · obtain rfl := Option.some.inj h
            exact ⟨rfl, by simp⟩
          · cases h
        · simp only [Option.bind_eq_bind, Option.bind_eq_some_iff, Option.some.injEq] at h
          obtain ⟨s', hs', rfl⟩ := h
          obtain ⟨hb, ha⟩ := tcpSendData_sendOnly hs'
          refine ⟨hb, fun a hmem => ?_⟩
          rcases List.mem_append.mp hmem with hmem | hmem
          · simp only [nextBlock, List.mem_cons, List.not_mem_nil, or_false] at hmem
            rcases hmem with rfl | rfl | rfl | rfl <;> trivial
          · exact ha a hmem
    · simp only [pushSendCmd, true_or, ↓reduceIte, Option.bind_eq_bind, Option.bind_eq_some_iff,
        Option.some.injEq] at h
      obtain ⟨s', hs', rfl⟩ := h
      obtain ⟨hb, ha⟩ := putAndSend_sendOnly hs'
      exact ⟨hb, ha⟩
  · exact tcpSendData_sendOnly h

end TaskFileSend

/-! ## The session -/

/-- The verdicts on which the callback returns 0. -/
def Verdict.Closes (v : Verdict) : Prop := v = .refuse ∨ v = .overrun

namespace Session

/-- The read callback completes a frame that is handled without a task, and the
verdict on the buffer at hand closes the session. -/
def Rejects (H : Handlers) (s : Session TaskFileSend) (inbox : List UInt8) (e : ReadEnv) : Prop :=
  s.mTaskBase = none ∧ (readFrame netFormat s.rx inbox e.r₁ e.r₂).done = true ∧
    (H.judge (readFrame netFormat s.rx inbox e.r₁ e.r₂).rx.buf).Closes

/-- The receiver in use: that of the session until there is a task. -/
def receiving (s : Session TaskFileSend) : Rx :=
  match s.mTaskBase with
  | none => s.rx
  | some t => t.mRecvBuffer.rx

/-- The receive buffers have the sizes with which they are declared. -/
structure BuffersOk (s : Session TaskFileSend) : Prop where
  mReadBuff : s.mReadBuff.length = cmdLen
  cmmd : ∀ t, s.mTaskBase = some t → t.mRecvBuffer.cmmd.length = cmdLen

@[simp] theorem mTaskBase_addEvent {τ : Type} (s : Session τ) (k : EventKind) :
    (s.addEvent k).mTaskBase = s.mTaskBase := by
  cases k <;> simp only [addEvent] <;> split <;> rfl
@[simp] theorem rx_addEvent {τ : Type} (s : Session τ) (k : EventKind) :
    (s.addEvent k).rx = s.rx := by
  cases k <;> simp only [addEvent] <;> split <;> rfl
@[simp] theorem receiving_addEvent (s : Session TaskFileSend) (k : EventKind) :
    (s.addEvent k).receiving = s.receiving := by
  simp only [receiving, mTaskBase_addEvent, rx_addEvent]

@[simp] theorem mTaskBase_fired {τ : Type} (s : Session τ) (k : EventKind) :
    (s.fired k).mTaskBase = s.mTaskBase := by
  cases k <;> rfl
@[simp] theorem rx_fired {τ : Type} (s : Session τ) (k : EventKind) : (s.fired k).rx = s.rx := by
  cases k <;> rfl
@[simp] theorem receiving_fired (s : Session TaskFileSend) (k : EventKind) :
    (s.fired k).receiving = s.receiving := by
  cases k <;> rfl
@[simp] theorem rejects_fired {H : Handlers} (s : Session TaskFileSend) (k : EventKind)
    (inbox : List UInt8) (e : ReadEnv) :
    (s.fired k).Rejects H inbox e = s.Rejects H inbox e := by
  cases k <;> rfl

theorem addWriteEvent_eq (s : Session TaskFileSend) : s.addWriteEvent = s.addEvent .write := by
  simp only [addWriteEvent, addEvent]
  split <;> rfl

theorem BuffersOk.addEvent {s : Session TaskFileSend} (h : s.BuffersOk) (k : EventKind) :
    (s.addEvent k).BuffersOk where
  mReadBuff := by
    have := congrArg (fun x : Rx => x.buf.length) (rx_addEvent s k)
    exact this.trans h.mReadBuff
  cmmd t ht := h.cmmd t (by simpa using ht)

theorem BuffersOk.fired {s : Session TaskFileSend} (h : s.BuffersOk) (k : EventKind) :
    (s.fired k).BuffersOk := by
  cases k <;> exact ⟨h.mReadBuff, h.cmmd⟩

/-- What handling a request does after it adds no frame. -/
theorem Handled.framesOf {H : Handlers} {s : Session TaskFileSend} {e : ReadEnv} {f : FrameStep}
    {g : SessionRead} {after : List Act} (h : Handled H s e f g after) (w : Handler) :
    Act.framesOf w after = [] := by
  cases h with
  | fetch path t _ ht =>
    rw [Act.framesOf_fetch]
    exact Act.framesOf_of_isSend (TaskFileSend.setFetchFile_sendOnly ht).2 w
  | _ => rfl

/-- A session that has not handed over yet. `acts` is what it has done before. -/
theorem readRequest_reads {H : Handlers} {s : Session TaskFileSend} {inbox : List UInt8}
    {e : ReadEnv} {g : SessionRead} (hs : s.BuffersOk) (hnone : s.mTaskBase = none)
    (h : s.readRequest H inbox e = some g) (acts : List Act) :
    g.sess.BuffersOk ∧ Reads netFormat (s.Rejects H inbox e) e.r₁ e.r₂
      (logView s.rx inbox acts true)
      (logView g.sess.receiving g.inbox (acts ++ g.acts) (decide (g.ret ≠ 0))) := by
  have hbuf : s.rx.buf.length = cmdLen := hs.mReadBuff
  have hlen := (readFrame_length netFormat s.rx inbox e.r₁ e.r₂).trans hbuf
  have hok : ∀ x : Rx, x.buf.length = cmdLen → (s.setRx x).BuffersOk := fun x hx =>
    ⟨hx, fun t ht => hs.cmmd t ht⟩
  have hrecv : ∀ x : Rx, (s.setRx x).receiving = x := fun x => by
    simp [receiving, setRx, hnone, rx]
  obtain ⟨hin, ⟨hdone, -, hret, hsess, hacts⟩ | ⟨hdone, after, hafter, hacts⟩⟩ :=
    readRequest_cases h rfl
  · rw [hin, hret, hsess, hacts, hrecv]
    exact ⟨hok _ hlen, reads_more rfl hdone acts⟩
  · have hpos := readFrame_ret_pos hdone
    have hopen : ∀ r, r = (readFrame netFormat s.rx inbox e.r₁ e.r₂).ret → decide (r ≠ 0) = true :=
      fun r hr => decide_eq_true (by omega)
    rw [hin, hacts]
    cases hafter with
    | fetch path t _ ht hret hsess =>
      -- the session hands over to a new task
      obtain ⟨hrb, hsend⟩ := TaskFileSend.setFetchFile_sendOnly ht
      have hcm : t.task.mRecvBuffer.rx = ⟨zeros cmdLen, true, 0, sizeofNetCmd⟩ := by
        rw [hrb]; rfl
      rw [hsess]
      refine ⟨⟨hlen, fun t' ht' => ?_⟩, ?_⟩
      · obtain rfl := Option.some.inj ht'
        rw [hrb]
        exact length_zeros cmdLen
      · refine reads_whole rfl hdone
          ⟨by simpa using Act.asks_of_isSend hsend, by simpa using Act.handled_of_isSend hsend⟩
          (fun _ => ?_) (.inl (hopen _ hret)) acts
        simp only [receiving, hcm, length_zeros]
        exact ⟨trivial, trivial, hbuf.symm⟩
    | stay _ _ hret hsess =>
      rw [hsess]
      refine ⟨hok _ hlen, reads_whole rfl hdone ⟨rfl, rfl⟩ (fun _ => ?_) (.inl (hopen _ hret)) acts⟩
      simp only [hrecv]
      exact ⟨trivial, trivial, hlen.trans hbuf.symm⟩
    | refuse hj _ hret hsess =>
      rw [hsess, hret]
      exact ⟨hok _ hlen, reads_whole rfl hdone ⟨rfl, rfl⟩ (fun h0 => by simp at h0)
        (.inr ⟨hnone, hdone, .inl hj⟩) acts⟩
    | overrun hj _ hret hsess =>
      rw [hsess, hret]
      exact ⟨hok _ hlen, reads_whole rfl hdone ⟨rfl, rfl⟩ (fun h0 => by simp at h0)
        (.inr ⟨hnone, hdone, .inr hj⟩) acts⟩

/-- A read callback of a session, with or without a task. -/
theorem readBuffer_reads {H : Handlers} {s : Session TaskFileSend} {inbox : List UInt8}
    {e : ReadEnv} {g : SessionRead} (hs : s.BuffersOk) (h : s.readBuffer H inbox e = some g)
    (acts : List Act) :
    g.sess.BuffersOk ∧ Reads netFormat (s.Rejects H inbox e) e.r₁ e.r₂
      (logView s.receiving inbox acts true)
      (logView g.sess.receiving g.inbox (acts ++ g.acts) (decide (g.ret ≠ 0))) := by
  rcases readBuffer_cases h with ⟨t, r, ht, -, hr, rfl⟩ | ⟨hnone, h⟩
  · obtain ⟨hcm, hreads⟩ := TaskFileSend.readBuffer_reads H.control (hs.cmmd t ht) inbox e.r₁ e.r₂
      (s.Rejects H inbox e) acts hr
    have hok : ({ s with mTaskBase := some r.task } : Session TaskFileSend).BuffersOk :=
      ⟨hs.mReadBuff, fun t' ht' => by obtain rfl := Option.some.inj ht'; exact hcm⟩
    have hrecv : s.receiving = t.mRecvBuffer.rx := by simp [receiving, ht]
    rw [hrecv]
    simp only
    split
    · rw [addWriteEvent_eq, receiving_addEvent]
      exact ⟨hok.addEvent .write, hreads⟩
    · exact ⟨hok, hreads⟩
  · have hrecv : s.receiving = s.rx := by simp [receiving, hnone]
    rw [hrecv]
    exact readRequest_reads hs hnone h acts

/-- A write callback leaves the receiver alone. -/
theorem writeBuffer_sendOnly {s s' : Session TaskFileSend} {fr : List UInt8}
    {outs : List SendResult} {ret : Int} {acts : List Act} (hs : s.BuffersOk)
    (h : s.writeBuffer fr outs = some (ret, s', acts)) :
    s'.BuffersOk ∧ s'.receiving = s.receiving ∧ s'.mTaskBase.isSome = s.mTaskBase.isSome ∧
      ∀ a ∈ acts, a.IsSend := by
  unfold writeBuffer at h
  split at h
  · rename_i t ht
    obtain ⟨w, hw, hw'⟩ := Option.map_eq_some_iff.mp h
    simp only [Prod.mk.injEq] at hw'
    obtain ⟨rfl, rfl, rfl⟩ := hw'
    obtain ⟨hb, hacts⟩ := TaskFileSend.writeBuffer_sendOnly hw
    refine ⟨⟨hs.mReadBuff, fun t' ht' => ?_⟩, by simp [receiving, ht, hb], by simp [ht],
      hacts⟩
    obtain rfl := Option.some.inj ht'
    rw [hb]
    exact hs.cmmd t ht
  · split at h
    · simp only [Option.some.injEq, Prod.mk.injEq] at h
      obtain ⟨rfl, rfl, rfl⟩ := h
      exact ⟨hs, rfl, rfl, by simp⟩
    · cases h

end Session

/-! ## The connection -/

namespace Conn

/-- A connection as one receiver, which changes hands when the task is created. -/
def view (c : Conn) : View := logView c.sess.receiving c.inbox c.acts c.alive

theorem onRead_reads {H : Handlers} {c : Conn} {env : ReadEnv} {g : SessionRead}
    (hc : c.sess.BuffersOk) (halive : c.alive = true)
    (hg : (c.sess.fired .read).readBuffer H c.inbox env = some g) {s : Session TaskFileSend}
    (hs : s = if g.ret = 0 then g.sess else g.sess.addEvent .read) :
    s.BuffersOk ∧ Reads netFormat (c.sess.Rejects H c.inbox env) env.r₁ env.r₂ c.view
      (view ⟨s, g.inbox, c.acts ++ g.acts, decide (g.ret ≠ 0)⟩) := by
  obtain ⟨hok, hr⟩ := Session.readBuffer_reads (hc.fired .read) hg c.acts
  rw [Session.receiving_fired, Session.rejects_fired] at hr
  have hview : c.view = logView c.sess.receiving c.inbox c.acts true := by rw [view, halive]
  rw [hview, hs]
  split
  · exact ⟨hok, hr⟩
  · exact ⟨hok.addEvent .read, by simpa [view] using hr⟩

theorem onWrite_view {c : Conn} {fr : List UInt8} {outs : List SendResult} {ret : Int}
    {s s' : Session TaskFileSend} {acts : List Act} (hc : c.sess.BuffersOk)
    (halive : c.alive = true)
    (hw : (c.sess.fired .write).writeBuffer fr outs = some (ret, s, acts))
    (hs : s' = if ret = ownSockExit ∨ ret = 0 then s else s.addEvent .write) :
    s'.BuffersOk ∧ view ⟨s', c.inbox, c.acts ++ acts, true⟩ = c.view ∧
      s'.mTaskBase.isSome = c.sess.mTaskBase.isSome ∧ ∀ a ∈ acts, a.IsSend := by
  obtain ⟨hok, hrecv, htask, hacts⟩ := Session.writeBuffer_sendOnly (hc.fired .write) hw
  rw [Session.receiving_fired] at hrecv
  rw [Session.mTaskBase_fired] at htask
  have hview : logView s.receiving c.inbox (c.acts ++ acts) true = c.view := by
    simp only [view, logView, hrecv, halive, Act.asks_append, Act.handled_append,
      Act.asks_of_isSend hacts, Act.handled_of_isSend hacts, List.append_nil]
  rw [hs]
  split
  · exact ⟨hok, hview, htask, hacts⟩
  · exact ⟨hok.addEvent .write, by simpa [view] using hview, by simpa using htask, hacts⟩

/-- The connection reads frames, whatever handles them. -/
def receiver : Receiver netFormat Conn ConnEvent where
  step := step
  view := view
  closes c
    | .onRead H env => c.sess.Rejects H c.inbox env
    | .onWrite _ _ => False
  recvs
    | .onRead _ e => some (e.r₁, e.r₂)
    | .onWrite _ _ => none
  Inv c := c.sess.BuffersOk
  sound := by
    intro c e c' hc h
    obtain ⟨halive, ⟨H, env, g, rfl, -, hg, rfl⟩ | ⟨fr, outs, ret, s, acts, rfl, -, hw, rfl⟩⟩ :=
      step_cases h
    · obtain ⟨hok, hr⟩ := onRead_reads hc halive hg rfl
      exact ⟨hok, halive, hr⟩
    · obtain ⟨hok, hview, -⟩ := onWrite_view hc halive hw rfl
      exact ⟨hok, hview⟩

theorem buffersOk_onAccept {mReadBuff : List UInt8} (hbuf : mReadBuff.length = cmdLen)
    (stream : List UInt8) : (onAccept mReadBuff stream).sess.BuffersOk where
  mReadBuff := hbuf
  cmmd t ht := by cases ht

theorem fresh_onAccept {mReadBuff : List UInt8} (hbuf : mReadBuff.length = cmdLen)
    (stream : List UInt8) : Fresh netFormat cmdLen (onAccept mReadBuff stream).view where
  head := rfl
  has := rfl
  cap := by decide
  length := hbuf
  asks := rfl
  handled := rfl
  alive := rfl

end Conn

end FilesEvent
