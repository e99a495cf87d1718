import FilesEvent.Serving

/-! What is left to send, against the write event. `onWrite` arms the event again
after every send but that of DATAEND, and `setFetchFile` sends from the read
callback, which arms nothing: these two sends are the ones whose errors strand a
frame. -/

namespace FilesEvent
open Bytes Framing Runs

/-- Something is left to send: of the frame in flight, or of the file once the
"start" control has been processed. -/
def Unsent (t : TaskFileSend) (acts : List Act) : Prop :=
  t.mSendBuffer.totalLen ≠ 0 ∨ (Act.start ∈ acts ∧ t.mHasReadLen < t.mFileLen)

namespace SendInv
open TaskFileSend

variable {t : TaskFileSend} {fr : List UInt8} {outs : List SendResult} {w : SendStep}

/-- After any call of `writeBuffer` but one that sends DATAEND, `onWrite` arms the
event again; after DATAEND it does not, and the frame is out if no send has failed. -/
theorem writeBuffer_arms (h : SendInv t) (hw : t.writeBuffer fr outs = some w) :
    (¬ (t.mSendBuffer.totalLen = 0 ∧ t.mFileLen ≤ t.mHasReadLen) ∧
        ¬ (w.ret = ownSockExit ∨ w.ret = 0)) ∨
      ((t.mSendBuffer.totalLen = 0 ∧ t.mFileLen ≤ t.mHasReadLen) ∧ w.ret = ownSockExit ∧
        (w.task.mSendBuffer.totalLen = 0 ↔ NoError outs) ∧
        w.task.mHasReadLen = w.task.mFileLen) := by
  have hexit : ownSockExit = -1528 := rfl
  rcases h.writeBuffer_cases hw with ⟨hpos, hs⟩ | ⟨h0, hlt, s, hs, rfl⟩ | ⟨h0, heq, s, hs, rfl⟩
  · have := h.tcpSendData_ret hpos hs
    exact .inl ⟨by omega, by omega⟩
  · obtain ⟨hinv, hpos, -⟩ := h.nextBlock h0 hlt fr
    have := hinv.tcpSendData_ret hpos hs
    exact .inl ⟨by omega, by simp only; omega⟩
  · have hidle := h.putAndSend_idle_iff h0 (by decide) (by decide) dataEnd_cmd hs
    have htask := putAndSend_task hs
    have hread : s.task.mHasReadLen = s.task.mFileLen := by
      rw [htask]
      exact heq
    exact .inr ⟨⟨h0, Nat.le_of_eq heq.symm⟩, rfl, hidle, hread⟩

end SendInv

namespace Conn

/-- The session is not left with something to send and no event to send it. -/
def NotStranded (c : Conn) : Prop :=
  c.alive = true → ∀ t, c.sess.mTaskBase = some t → Unsent t c.acts →
    c.sess.mWriting = true ∧ c.sess.mWriteEvent.pending = true

/-- The sends that nothing retries do not fail: that of the LOGINRET while the
write event is not armed, and that of DATAEND. -/
def RetriesErrors (c : Conn) : ConnEvent → Prop
  | .onRead _ env => c.sess.mTaskBase = none → c.sess.mWriting = false → NoError env.outs
  | .onWrite _ outs => ∀ t, c.sess.mTaskBase = some t → t.mSendBuffer.totalLen = 0 →
      t.mFileLen ≤ t.mHasReadLen → NoError outs

/-- No control has been processed before there is a task. -/
structure ArmInv (c : Conn) : Prop where
  serve : ServeInv c
  start : c.sess.mTaskBase = none → Act.start ∉ c.acts

theorem start_not_mem_of_isQuiet {acts : List Act} (h : ∀ a ∈ acts, a.IsQuiet) :
    Act.start ∉ acts := fun hmem => h _ hmem

theorem ArmInv.step {c c' : Conn} {e : ConnEvent} (h : ArmInv c) (hs : c.step e = some c') :
    ArmInv c' := by
  refine ⟨h.serve.step hs, fun hnone => ?_⟩
  obtain ⟨-, -, hserves⟩ := step_serves h.serve.event hs
  cases hserves with
  | request _ _ quiet task _ _ _ acts hquiet =>
    rw [acts]
    exact fun hmem => (List.mem_append.mp hmem).elim (h.start task)
      (start_not_mem_of_isQuiet hquiet)
  | create _ _ _ _ _ _ task' => cases task'.symm.trans hnone
  | read _ _ _ _ _ _ task' => cases task'.symm.trans hnone
  | idle _ _ task _ acts => rw [acts]; exact h.start task
  | write _ _ _ _ _ _ _ task' => cases task'.symm.trans hnone

/-- One event strands a frame exactly if it meets an error that nothing retries. -/
theorem notStranded_step {c c' : Conn} {e : ConnEvent} (h : ArmInv c) (hc : NotStranded c)
    (hs : c.step e = some c') : NotStranded c' ↔ RetriesErrors c e := by
  obtain ⟨halive, hok', hserves⟩ := step_serves h.serve.event hs
  -- the event is pending whenever its flag is set
  have harmed : c'.sess.mWriting = true →
      c'.sess.mWriting = true ∧ c'.sess.mWriteEvent.pending = true :=
    fun hw => ⟨hw, hok' ▸ hw⟩
  cases hserves with
  | request H env quiet task outs task' =>
    refine iff_of_true (fun _ t ht => ?_) fun _ _ => ?_
    · cases task'.symm.trans ht
    · rw [outs]
      exact List.not_mem_nil
  | create H env quiet w task fetch task' writing acts hquiet alive =>
    have hidle := SendInv.setFetchFile_idle_iff fetch
    have hstart : Act.start ∉ c'.acts := by
      rw [acts]
      intro hmem
      rcases List.mem_append.mp hmem with hmem | hmem
      · exact h.start task hmem
      · rcases List.mem_append.mp hmem with hmem | hmem
        · exact start_not_mem_of_isQuiet hquiet hmem
        · exact (TaskFileSend.setFetchFile_sendOnly fetch).2 _ hmem
    constructor
    · intro hns _ hidlew
      refine hidle.mp (Classical.byContradiction fun hne => ?_)
      have := (hns alive w.task task' (.inl hne)).1
      rw [writing, hidlew] at this
      cases this
    · rintro hret - t ht (hne | ⟨hmem, -⟩)
      · obtain rfl := Option.some.inj (task'.symm.trans ht)
        apply harmed
        rw [writing]
        cases hw : c.sess.mWriting with
        | true => rfl
        | false => exact absurd (hidle.mpr (hret task hw)) hne
      · exact absurd hmem hstart
  | read H env t g task read task' writing acts =>
    refine iff_of_true (fun _ t' ht' hun => ?_) fun hnone => by cases hnone.symm.trans task
    obtain rfl := Option.some.inj (task'.symm.trans ht')
    apply harmed
    obtain ⟨hbuf, hfile, hread, -⟩ := t.readBuffer_keeps H.control c.inbox env.r₁ env.r₂ read
    obtain ⟨quiet, control, hacts, hquiet, hcontrol⟩ :=
      TaskFileSend.readBuffer_controls H.control t c.inbox env.r₁ env.r₂
    rw [read] at hacts hcontrol
    rw [writing]
    rcases hcontrol with ⟨rfl, harm⟩ | ⟨-, harm⟩
    · have hun' : Unsent t c.acts := by
        rcases hun with hne | ⟨hmem, hlt⟩
        · exact .inl (hbuf ▸ hne)
        · refine .inr ⟨?_, by rwa [hread, hfile] at hlt⟩
          rw [acts, hacts, List.append_nil] at hmem
          exact (List.mem_append.mp hmem).resolve_right (start_not_mem_of_isQuiet hquiet)
      rw [(hc halive t task hun').1]
      rfl
    · rw [harm, Bool.or_true]
  | idle fr outs task task' =>
    refine iff_of_true (fun _ t ht => ?_) fun t ht => ?_
    · cases task'.symm.trans ht
    · cases task.symm.trans ht
  | write fr outs t w task _ write task' writing acts alive =>
    rcases (h.serve.task t task).writeBuffer_arms write with
      ⟨hmore, hret⟩ | ⟨hend, hret, hidle, hread⟩
    · refine iff_of_true (fun _ _ _ _ => harmed ?_) fun t' ht' h0 hle => ?_
      · rw [writing]
        exact decide_eq_true hret
      · obtain rfl := Option.some.inj (task.symm.trans ht')
        exact absurd ⟨h0, hle⟩ hmore
    · constructor
      · intro hns t' _ _ _
        refine hidle.mp (Classical.byContradiction fun hne => ?_)
        have := (hns alive w.task task' (.inl hne)).1
        rw [writing, hret] at this
        simp at this
      · rintro hno - t' ht' hun
        obtain rfl := Option.some.inj (task'.symm.trans ht')
        have h0 := hidle.mpr (hno t task hend.1 hend.2)
        rcases hun with hne | ⟨-, hlt⟩
        · exact absurd h0 hne
        · omega

/-- No frame and no part of the file is stranded at any moment of a run exactly
if the run meets no error that nothing retries. -/
theorem notStranded_iff {mReadBuff stream : List UInt8} {es : List ConnEvent} {c : Conn}
    (hrun : run step (onAccept mReadBuff stream) es = some c) :
    (∀ as bs d, es = as ++ bs → run step (onAccept mReadBuff stream) as = some d →
        NotStranded d) ↔
      Meets step RetriesErrors (onAccept mReadBuff stream) es :=
  always_iff_meets (I := ArmInv) (P := NotStranded) (C := RetriesErrors)
    (fun _ _ _ hI _ hs => hI.step hs) (fun _ _ _ hI hP hs => notStranded_step hI hP hs)
    ⟨serveInv_onAccept mReadBuff stream, fun _ => List.not_mem_nil⟩
    (fun _ t ht => by cases ht) hrun

/-- The write event fires before the login request arrives; all of the LOGINRET
goes out from the read callback. -/
theorem notStranded_iff_login :
    ∃ c, run step (onAccept (zeros cmdLen) (TaskFileRecv.loginFrame (lit "ab")))
        [.onWrite [] [], .onRead (handlers fun _ => true)
          ⟨.avail 99, .avail 99, true, 3, [.eagain, .accepted 1048]⟩] = some c ∧
      ((∀ as bs d, [.onWrite [] [], .onRead (handlers fun _ => true)
          ⟨.avail 99, .avail 99, true, 3, [.eagain, .accepted 1048]⟩] = as ++ bs →
          run step (onAccept (zeros cmdLen) (TaskFileRecv.loginFrame (lit "ab"))) as = some d →
          NotStranded d) ↔
        Meets step RetriesErrors (onAccept (zeros cmdLen) (TaskFileRecv.loginFrame (lit "ab")))
          [.onWrite [] [], .onRead (handlers fun _ => true)
            ⟨.avail 99, .avail 99, true, 3, [.eagain, .accepted 1048]⟩]) := by
  have h : (run step (onAccept (zeros cmdLen) (TaskFileRecv.loginFrame (lit "ab")))
      [.onWrite [] [], .onRead (handlers fun _ => true)
        ⟨.avail 99, .avail 99, true, 3, [.eagain, .accepted 1048]⟩]).isSome = true := by
    decide +kernel
  obtain ⟨c, hc⟩ := Option.isSome_iff_exists.mp h
  exact ⟨c, hc, notStranded_iff hc⟩

/-- The same, but the send of the LOGINRET fails: it waits, and nothing will send it. -/
theorem stranded_loginRet :
    ∃ c, run step (onAccept (zeros cmdLen) (TaskFileRecv.loginFrame (lit "ab")))
        [.onWrite [] [], .onRead (handlers fun _ => true)
          ⟨.avail 99, .avail 99, true, 3, [.error]⟩] = some c ∧ ¬ NotStranded c := by
  have h : (run step (onAccept (zeros cmdLen) (TaskFileRecv.loginFrame (lit "ab")))
      [.onWrite [] [], .onRead (handlers fun _ => true)
        ⟨.avail 99, .avail 99, true, 3, [.error]⟩]).any (fun c : Conn =>
          c.alive && !c.sess.mWriting && c.sess.mTaskBase.any fun t =>
            decide (t.mSendBuffer.totalLen = 1048)) = true := by decide +kernel
  obtain ⟨c, hc, hp⟩ := (Option.any_eq_true _ _).mp h
  simp only [Bool.and_eq_true, Bool.not_eq_true'] at hp
  obtain ⟨⟨halive, hwriting⟩, htask⟩ := hp
  obtain ⟨t, ht, htot⟩ := (Option.any_eq_true _ _).mp htask
  refine ⟨c, hc, fun hns => ?_⟩
  have hne : t.mSendBuffer.totalLen ≠ 0 := by
    rw [of_decide_eq_true htot]
    decide
  exact absurd ((hns halive t ht (.inl hne)).1.symm.trans hwriting) (by decide)

end Conn

end FilesEvent
