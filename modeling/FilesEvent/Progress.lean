import Mathlib.Algebra.GroupWithZero.Nat
import FilesEvent.SendStream

/-! How the sender gets to the end. The length of the file comes from `stat` and
its bytes from `fread`; a block that `fread` leaves empty is sent as a frame of
eight bytes, changes no counter, and `onWrite` arms the event for the next one. -/

namespace FilesEvent
open Bytes Framing Runs TaskFileSend FileProcBuffer

/-- A frame of the file is started: none is in flight, and the file is not read. -/
def TaskFileSend.StartsBlock (t : TaskFileSend) : Prop :=
  t.mSendBuffer.totalLen = 0 ∧ t.mHasReadLen < t.mFileLen

instance (t : TaskFileSend) : Decidable t.StartsBlock := inferInstanceAs (Decidable (_ ∧ _))

/-- DATAEND is put into `cmmd` and all of it is sent. -/
def DataEndSent (acts : List Act) : Prop :=
  ∃ before sends after, acts = before ++ .built 0 (netCmd moduleMsgDataEnd 0 0) :: sends ++ after ∧
    Act.sentBytes sends = netCmd moduleMsgDataEnd 0 0

theorem DataEndSent.append {acts : List Act} (h : DataEndSent acts) (more : List Act) :
    DataEndSent (acts ++ more) := by
  obtain ⟨before, sends, after, rfl, hsent⟩ := h
  exact ⟨before, sends, after ++ more, by simp, hsent⟩

namespace SenderEvent

/-- The number of `writeBuffer` calls. -/
def writes : SenderEvent → Nat
  | .write _ _ => 1
  | .read _ _ _ _ => 0

/-- No send of the call fails. -/
def SendsAll : SenderEvent → Prop
  | .write _ outs => NoError outs
  | .read _ _ _ _ => True

end SenderEvent

/-! ## One call -/

namespace SendInv

variable {t : TaskFileSend} {fr : List UInt8} {outs : List SendResult} {w : SendStep}

/-- Without an error the phase goes out. -/
theorem tcpSendData_noError (h : SendInv t) (hpos : 0 < t.mSendBuffer.totalLen)
    (hs : t.tcpSendData outs = some w) (hno : NoError outs) :
    w.task = { t with mSendBuffer := t.mSendBuffer.advance } := by
  rcases (tcpSendData_cases (h.pending hpos) hs).2 with ⟨-, -, htask, -⟩ | ⟨herr, -⟩
  · exact htask
  · exact absurd hno herr

/-- What the next block does to the counters. -/
theorem nextBlock_counters (h : SendInv t) (hstart : t.StartsBlock) (fr : List UInt8) :
    (t.nextBlock fr).1.mHasReadLen = t.mHasReadLen + (fr.take t.nextBlockLen).length ∧
      (t.nextBlock fr).1.mFileLen = t.mFileLen ∧
      (t.nextBlock fr).1.mHasReadLen ≤ t.mFileLen ∧
      (fr ≠ [] → t.mHasReadLen < (t.nextBlock fr).1.mHasReadLen) ∧
      (t.nextBlock fr).1.mSendBuffer.bProcCmmd = true ∧
      (t.nextBlock fr).1.mSendBuffer.dataLen = (fr.take t.nextBlockLen).length := by
  have hle := t.nextBlockLen_le_left
  have hfile := h.file
  have hlt := hstart.2
  have hgot : (fr.take t.nextBlockLen).length ≤ t.nextBlockLen := by
    rw [List.length_take]; omega
  have hread : (t.nextBlock fr).1.mHasReadLen =
      t.mHasReadLen + (fr.take t.nextBlockLen).length := Nat.mod_eq_of_lt (by omega)
  have hblock : 0 < t.nextBlockLen := by
    have hmem : fileMemoryLen = 1048576 := rfl
    simp only [TaskFileSend.nextBlockLen]
    split <;> omega
  refine ⟨hread, rfl, by omega, fun hfr => ?_, rfl, rfl⟩
  have hpos := List.length_pos_iff.mpr hfr
  rw [hread, List.length_take]
  omega

/-- A call that starts a frame makes `mHasReadLen` larger exactly if `fread`
delivers something. -/
theorem writeBuffer_reads_iff (h : SendInv t) (hstart : t.StartsBlock)
    (hw : t.writeBuffer fr outs = some w) : t.mHasReadLen < w.task.mHasReadLen ↔ fr ≠ [] := by
  obtain ⟨hread, -, -, hlarger, -⟩ := h.nextBlock_counters hstart fr
  rcases h.writeBuffer_cases hw with ⟨hpos, -⟩ | ⟨-, -, s, hs, rfl⟩ | ⟨-, heq, -⟩
  · have := hstart.1
    omega
  · rw [tcpSendData_task hs]
    refine ⟨?_, hlarger⟩
    rintro hlt rfl
    rw [hread] at hlt
    simp at hlt
  · have := hstart.2
    omega

end SendInv

/-! ## Runs -/

namespace Sender

/-- Between two calls whose sends succeed no header is in flight. -/
structure Between (mFileLen : Nat) (s : Sender) : Prop where
  inv : SendInv s.task
  header : 0 < s.task.mSendBuffer.totalLen → s.task.mSendBuffer.bProcCmmd = false
  file : s.task.mFileLen = mFileLen

/-- The calls left: two for each byte at most, one more for the data in flight, and
one for DATAEND. -/
def callsLeft (s : Sender) : Nat :=
  2 * (s.task.mFileLen - s.task.mHasReadLen) +
    if s.task.mSendBuffer.totalLen = 0 then 1 else 2

/-- A block that is started is not empty. -/
def Delivers (s : Sender) : SenderEvent → Prop
  | .write fr _ => s.task.StartsBlock → fr ≠ []
  | .read _ _ _ _ => True

/-- One event: a `writeBuffer` call that delivers and sends sends DATAEND, or has
come one call closer to it. -/
theorem callsLeft_step {n : Nat} {s s' : Sender} {e : SenderEvent} (h : Between n s)
    (hd : s.Delivers e) (he : e.SendsAll) (hs : s.step e = some s') :
    Between n s' ∧ (DataEndSent s.acts → DataEndSent s'.acts) ∧
      (DataEndSent s'.acts ∨ s'.callsLeft + e.writes ≤ s.callsLeft) := by
  cases e with
  | write fr outs =>
    obtain ⟨w, hw, rfl⟩ := Option.map_eq_some_iff.mp hs
    have hinv := (h.inv.writeBuffer hw).1
    rcases h.inv.writeBuffer_cases hw with
      ⟨hpos, hsend⟩ | ⟨h0, hlt, w', hw', rfl⟩ | ⟨h0, heq, w', hw', rfl⟩
    · -- the data in flight goes out
      have htask := h.inv.tcpSendData_noError hpos hsend he
      have hne : ¬ s.task.mSendBuffer.totalLen = 0 := by omega
      have hidle : w.task.mSendBuffer.totalLen = 0 := by
        rw [htask]
        simp [advance, h.header hpos, reset]
      refine ⟨⟨hinv, fun hpos' => absurd hidle (Int.ne_of_gt hpos'), ?_⟩,
        fun hP => hP.append _, .inr ?_⟩
      · rw [htask]
        exact h.file
      · simp only [callsLeft, SenderEvent.writes, if_neg hne, if_pos hidle]
        rw [htask]
    · -- a block goes into flight, its header goes out
      obtain ⟨hread, hfile, hle, hlarger, hhead, hdata⟩ := h.inv.nextBlock_counters ⟨h0, hlt⟩ fr
      obtain ⟨hinv', hpos, -⟩ := h.inv.nextBlock h0 hlt fr
      have hmore := hlarger (hd ⟨h0, hlt⟩)
      have htask := hinv'.tcpSendData_noError hpos hw' he
      have hbuf : w'.task.mSendBuffer =
          (s.task.nextBlock fr).1.mSendBuffer.setToVideo := by
        rw [htask]
        simp [advance, hhead]
      have hne : ¬ w'.task.mSendBuffer.totalLen = 0 := by
        rw [hbuf]
        simp only [setToVideo, hdata]
        omega
      refine ⟨⟨hinv, fun _ => by rw [hbuf]; rfl, ?_⟩, fun hP => hP.append _, .inr ?_⟩
      · rw [htask]
        exact h.file
      · simp only [callsLeft, SenderEvent.writes, if_neg hne, if_pos h0]
        rw [htask]
        simp only [hfile]
        omega
    · -- DATAEND goes out
      have hcmd := SendInv.dataEnd_cmd
      have hflow := h.inv.putAndSend_flow h0 (by decide) (by decide) hcmd hw' (.inl he)
      have hidle := (h.inv.putAndSend_idle_iff h0 (by decide) (by decide) hcmd hw').mpr he
      have htask := putAndSend_task hw'
      rw [putAndSend_eq] at hw'
      obtain ⟨w'', -, rfl⟩ := Option.map_eq_some_iff.mp hw'
      rw [inFlight, if_pos hidle, List.append_nil] at hflow
      refine ⟨⟨hinv, fun hpos' => absurd hidle (Int.ne_of_gt hpos'), ?_⟩,
        fun hP => hP.append _, .inl ⟨s.acts, w''.acts, [], ?_, hflow.symm⟩⟩
      · rw [htask]
        exact h.file
      · simp [h0]
  | read ctl inbox r₁ r₂ =>
    obtain rfl := Option.some.inj hs
    obtain ⟨hbuf, hfile, hread, -⟩ := s.task.readBuffer_keeps ctl inbox r₁ r₂ rfl
    refine ⟨⟨h.inv.readBuffer ctl inbox r₁ r₂, ?_, hfile.trans h.file⟩, fun hP => hP.append _,
      .inr ?_⟩
    · simp only [hbuf]
      exact h.header
    · simp only [callsLeft, hbuf, hfile, hread, SenderEvent.writes, Nat.add_zero, Nat.le_refl]

/-! ## The end of the file -/

/-- Each `writeBuffer` call that starts a FILES frame makes `mHasReadLen` larger,
whatever becomes of its sends, and where no frame is in flight at first and no
send fails `2 * mFileLen + 1` calls send DATAEND. -/
structure GetsToEnd (s t : Sender) (es : List SenderEvent) : Prop where
  larger : ∀ as fr outs bs u u', es = as ++ .write fr outs :: bs → run step s as = some u →
    u.step (.write fr outs) = some u' → u.task.StartsBlock →
      u.task.mHasReadLen < u'.task.mHasReadLen
  ends : s.task.mSendBuffer.totalLen = 0 → (∀ e ∈ es, e.SendsAll) →
    2 * s.task.mFileLen + 1 ≤ (es.map SenderEvent.writes).sum → DataEndSent t.acts

/-- Whatever `stat` and `fread` say: the sender gets to the end exactly if no block
that it starts is empty. -/
theorem getsToEnd_iff {stSize : Nat} {s t : Sender} {es : List SenderEvent}
    (hs : Reachable true stSize s) (hrun : run step s es = some t) :
    GetsToEnd s t es ↔ Meets step Delivers s es := by
  have hinv : ∀ {as : List SenderEvent} {u : Sender}, run step s as = some u → SendInv u.task :=
    fun hu => (run_invariant (fun _ _ _ hI he => step_inv hI he) hs.inv hu).1
  constructor
  · rintro ⟨hlarger, -⟩
    refine meets_iff.mpr fun as e bs u has hu => ?_
    cases e with
    | read => trivial
    | write fr outs =>
      intro hstart
      rw [has, run_append, hu, Option.bind_some] at hrun
      obtain ⟨u', hu', -⟩ := run_cons.mp hrun
      obtain ⟨w, hw, rfl⟩ := Option.map_eq_some_iff.mp hu'
      exact ((hinv hu).writeBuffer_reads_iff hstart hw).mp
        (hlarger as fr outs bs u _ has hu hu' hstart)
  · intro hmeets
    constructor
    · intro as fr outs bs u u' has hu hu' hstart
      obtain ⟨w, hw, rfl⟩ := Option.map_eq_some_iff.mp hu'
      exact ((hinv hu).writeBuffer_reads_iff hstart hw).mpr
        (meets_iff.mp hmeets as _ bs u has hu hstart)
    · intro hidle hsends hcalls
      have hbetween : Between s.task.mFileLen s :=
        ⟨hs.inv.1, fun hpos => absurd hidle (Int.ne_of_gt hpos), rfl⟩
      obtain ⟨-, -, hend | hleft⟩ := run_rank (I := Between s.task.mFileLen)
        (P := fun u => DataEndSent u.acts) (fun _ _ _ hI hC he => callsLeft_step hI hC.1 hC.2 he)
        hbetween (hmeets.and (meets_of_forall (fun e he _ => hsends e he) s)) hrun
      · exact hend
      · -- the rank of a state is positive
        have hpos : 0 < t.callsLeft := by
          unfold callsLeft
          split <;> omega
        have hcost : t.callsLeft + (es.map SenderEvent.writes).sum ≤ s.callsLeft := hleft
        have hfirst : s.callsLeft ≤ 2 * s.task.mFileLen + 1 := by
          simp only [callsLeft, if_pos hidle]
          omega
        omega

/-- A file of one byte. -/
theorem getsToEnd_iff_oneByte :
    ∃ s t, start true 1 [.accepted 1048] = some s ∧ s.task.mSendBuffer.totalLen = 0 ∧
      run step s [.write [7] [.accepted 24], .write [] [.accepted 1], .write [] [.accepted 16]] =
        some t ∧
      (GetsToEnd s t [.write [7] [.accepted 24], .write [] [.accepted 1],
          .write [] [.accepted 16]] ↔
        Meets step Delivers s [.write [7] [.accepted 24], .write [] [.accepted 1],
          .write [] [.accepted 16]]) := by
  have h : ((start true 1 [.accepted 1048]).any fun s =>
      decide (s.task.mSendBuffer.totalLen = 0) && (run step s [.write [7] [.accepted 24],
        .write [] [.accepted 1], .write [] [.accepted 16]]).isSome) = true := by decide +kernel
  obtain ⟨s, hs, h⟩ := (Option.any_eq_true _ _).mp h
  obtain ⟨hidle, hrun⟩ := (Bool.and_eq_true _ _).mp h
  obtain ⟨t, ht⟩ := Option.isSome_iff_exists.mp hrun
  exact ⟨s, t, hs, of_decide_eq_true hidle, ht, getsToEnd_iff ⟨_, s, [], hs, rfl⟩ ht⟩

/-- One byte is announced and `fread` delivers nothing: three calls send three empty
frames, and no DATAEND. -/
theorem not_getsToEnd_empty :
    ∃ s t, start true 1 [.accepted 1048] = some s ∧ s.task.mSendBuffer.totalLen = 0 ∧
      run step s (List.replicate 3 (.write [] [.accepted 24])) = some t ∧
      Act.sentCmds t.acts = [moduleMsgLoginRet, moduleMsgFiles, moduleMsgFiles, moduleMsgFiles] ∧
      ¬ GetsToEnd s t (List.replicate 3 (.write [] [.accepted 24])) := by
  have h : ((start true 1 [.accepted 1048]).any fun s =>
      decide s.task.StartsBlock &&
        (s.step (.write [] [.accepted 24])).any (fun u =>
          decide (¬ s.task.mHasReadLen < u.task.mHasReadLen)) &&
        (run step s (List.replicate 3 (.write [] [.accepted 24]))).any fun t =>
          decide (Act.sentCmds t.acts =
            [moduleMsgLoginRet, moduleMsgFiles, moduleMsgFiles, moduleMsgFiles])) = true := by
    decide +kernel
  obtain ⟨s, hs, h⟩ := (Option.any_eq_true _ _).mp h
  obtain ⟨h, hrun⟩ := (Bool.and_eq_true _ _).mp h
  obtain ⟨hstart, hstep⟩ := (Bool.and_eq_true _ _).mp h
  obtain ⟨u, hu, hsame⟩ := (Option.any_eq_true _ _).mp hstep
  obtain ⟨t, ht, hcmds⟩ := (Option.any_eq_true _ _).mp hrun
  have hstart : s.task.StartsBlock := of_decide_eq_true hstart
  refine ⟨s, t, hs, hstart.1, ht, of_decide_eq_true hcmds, fun hends => ?_⟩
  exact of_decide_eq_true hsame (hends.larger [] [] [.accepted 24] _ s u rfl rfl hu hstart)

/-! ## Empty blocks -/

/-- A call that starts a frame for which `fread` delivers nothing can send its header,
and leaves the sender where it was. -/
theorem step_empty {s : Sender} (h : SendInv s.task) (hstart : s.task.StartsBlock) :
    ∃ s', s.step (.write [] [.accepted 24]) = some s' ∧ SendInv s'.task ∧ s'.task.StartsBlock ∧
      s'.task.mHasReadLen = s.task.mHasReadLen ∧ s'.task.mFileLen = s.task.mFileLen := by
  obtain ⟨h0, hlt⟩ := hstart
  obtain ⟨hinv, hpos, -⟩ := h.nextBlock h0 hlt []
  obtain ⟨hread, hfile, -, -, hhead, hdata⟩ := h.nextBlock_counters ⟨h0, hlt⟩ []
  obtain ⟨w, hw, htask⟩ := hinv.tcpSendData_accepted hpos
  have hwrite : s.task.writeBuffer [] [.accepted 24] =
      some ⟨w.ret, w.task, (s.task.nextBlock []).2 ++ w.acts⟩ := by
    have htot : (s.task.nextBlock []).1.mSendBuffer.totalLen.toNat = 24 := rfl
    rw [htot] at hw
    simp only [TaskFileSend.writeBuffer, if_pos h0, if_pos hlt, h.queue, h.sending,
      Bool.true_eq_false, if_false, hw, Option.bind_eq_bind, Option.bind_some]
  refine ⟨⟨w.task, _⟩, by rw [step, hwrite]; rfl, (h.writeBuffer hwrite).1, ⟨?_, ?_⟩, ?_, ?_⟩
  · simp [htask, advance, hhead, setToVideo, hdata]
  · simp only [htask, hread, hfile]
    simpa using hlt
  · simp only [htask, hread]
    simp
  · simp only [htask, hfile]

/-- However often it is called: an object that can be opened and not read is sent as
empty frames without end. -/
theorem run_empty {s : Sender} (h : SendInv s.task) (hstart : s.task.StartsBlock) (n : Nat) :
    ∃ t, run step s (List.replicate n (.write [] [.accepted 24])) = some t ∧ SendInv t.task ∧
      t.task.StartsBlock ∧ t.task.mHasReadLen = s.task.mHasReadLen := by
  induction n generalizing s with
  | zero => exact ⟨s, rfl, h, hstart, rfl⟩
  | succ n ih =>
    obtain ⟨s', hs', hinv, hstart', hread, -⟩ := step_empty h hstart
    obtain ⟨t, ht, hinv', hstart'', hread'⟩ := ih hinv hstart'
    exact ⟨t, run_cons.mpr ⟨s', hs', ht⟩, hinv', hstart'', hread'.trans hread⟩

end Sender

end FilesEvent
