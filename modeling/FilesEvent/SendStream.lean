import FilesEvent.Sender

/-! The bytes the socket takes, against the frames the task builds. While no
error comes after a part of a block has gone out, the two streams differ only
by what is still in flight; `sendEx` forgets how much it had sent when it fails,
so after a late error the block is sent again from its start. -/

namespace FilesEvent
open Bytes Framing Runs FileProcBuffer

namespace TaskFileSend

/-- What is left to send of the frame in flight. -/
def inFlight (t : TaskFileSend) : List UInt8 :=
  if t.mSendBuffer.totalLen = 0 then []
  else if t.mSendBuffer.bProcCmmd then
    t.mSendBuffer.phaseBytes ++ t.mSendBuffer.mem.take t.mSendBuffer.dataLen.toNat
  else t.mSendBuffer.phaseBytes

/-- A phase going out is the first part of what is in flight. -/
theorem inFlight_advance {t : TaskFileSend} (h : SendInv t) (hpos : 0 < t.mSendBuffer.totalLen) :
    t.inFlight = t.mSendBuffer.phaseBytes ++
      ({ t with mSendBuffer := t.mSendBuffer.advance } : TaskFileSend).inFlight := by
  have hne : ¬ t.mSendBuffer.totalLen = 0 := by omega
  unfold inFlight advance
  rw [if_neg hne]
  cases hb : t.mSendBuffer.bProcCmmd with
  | true =>
    have hd := h.dataLen
    simp only [↓reduceIte, setToVideo, phaseBytes, Bool.false_eq_true, hb, mem]
    split
    · rename_i h0
      simp [h0]
    · rfl
  | false => simp [reset]

/-- One `tcpSendData` call without a late error moves bytes from what is in
flight to the socket, in order. -/
theorem tcpSendData_flow {t : TaskFileSend} {outs : List SendResult} {s : SendStep}
    (h : SendInv t) (hpos : 0 < t.mSendBuffer.totalLen) (hs : t.tcpSendData outs = some s)
    (hlate : NoLateError outs) : t.inFlight = Act.sentBytes s.acts ++ s.task.inFlight := by
  rcases (tcpSendData_cases (h.pending hpos) hs).2 with
    ⟨-, -, htask, hsent⟩ | ⟨-, -, htask, n, -, hsent, hn⟩
  · rw [htask, hsent]
    exact inFlight_advance h hpos
  · rw [htask, hsent, hn hlate]
    simp

/-- A send builds no frame. -/
theorem tcpSendData_builds_nothing {t : TaskFileSend} {outs : List SendResult} {s : SendStep}
    (h : SendInv t) (hpos : 0 < t.mSendBuffer.totalLen) (hs : t.tcpSendData outs = some s) :
    Act.builtFrames s.acts = [] := by
  refine List.flatMap_eq_nil_iff.mpr fun a ha => ?_
  obtain ⟨bs, rfl⟩ := (tcpSendData_cases (h.pending hpos) hs).1 a ha
  rfl

end TaskFileSend

namespace SendInv
open TaskFileSend

variable {t : TaskFileSend}

/-- A command frame put into an idle buffer is what is in flight then. -/
theorem inFlight_putCmd (h : SendInv t) (h0 : t.mSendBuffer.totalLen = 0) {cmd : List UInt8}
    (hpos : 0 < cmd.length) (hlen : cmd.length ≤ cmdLen) : (t.putCmd cmd).inFlight = cmd := by
  have hd := h.idle h0
  have hw : writeAt t.mSendBuffer.cmmd 0 cmd = cmd ++ t.mSendBuffer.cmmd.drop cmd.length :=
    writeAt_zero (by rw [h.cmmd]; exact hlen)
  have hne : ¬ cmd = [] := List.length_pos_iff.mp hpos
  simp [inFlight, TaskFileSend.putCmd, phaseBytes, hw, hd, hne]

/-- The next block in flight: its header, then what `fread` delivered. -/
theorem inFlight_nextBlock (h : SendInv t) (fr : List UInt8) :
    (t.nextBlock fr).1.inFlight =
      filesHead (t.mpFile.getD 0 % 4294967296) (fr.take t.nextBlockLen).length ++
        fr.take t.nextBlockLen := by
  obtain ⟨d, hd, -, hdlen⟩ := h.createMem
  have hgot : (fr.take t.nextBlockLen).length ≤ t.nextBlockLen := by
    rw [List.length_take]; omega
  have hw : ∀ p n : Nat, writeAt t.mSendBuffer.cmmd 0 (filesHead p n) =
      filesHead p n ++ t.mSendBuffer.cmmd.drop 24 := fun p n =>
    writeAt_zero (by rw [h.cmmd]; exact Nat.le_of_ble_eq_true rfl)
  have hdata : ∀ got : List UInt8, got.length ≤ t.nextBlockLen →
      (writeAt (writeAt d 0 (zeros t.nextBlockLen)) 0 got).take got.length = got := by
    intro got hgot
    rw [writeAt_zero (by rw [length_writeAt]; omega), List.take_left]
  have hne : ¬ ((24 : Nat) : Int) = 0 := by decide
  simp only [TaskFileSend.nextBlock, inFlight, phaseBytes, createMem_cmmd, FileProcBuffer.mem, hd,
    Option.getD_some, length_filesHead, hne, ↓reduceIte, Int.toNat_natCast, hw, hdata _ hgot]
  rw [List.take_append_of_le_length (by simp), List.take_of_length_le (by simp)]

theorem putAndSend_built (h : SendInv t) (h0 : t.mSendBuffer.totalLen = 0) {cmd : List UInt8}
    (hpos : 0 < cmd.length) (hlen : cmd.length ≤ cmdLen)
    (hcmd : ∀ x, dwCmd (cmd ++ x) ≠ moduleMsgFiles) {outs : List SendResult} {s : SendStep}
    (hs : t.putAndSend cmd outs = some s) : Act.builtFrames s.acts = [cmd] := by
  rw [putAndSend_eq] at hs
  obtain ⟨s', hs', rfl⟩ := Option.map_eq_some_iff.mp hs
  have htot : 0 < (t.putCmd cmd).mSendBuffer.totalLen := by simpa [TaskFileSend.putCmd] using hpos
  have hnone := tcpSendData_builds_nothing (h.putCmd h0 hlen hcmd) htot hs'
  simpa [Act.builtFrames] using hnone

/-- Building a command frame and sending it: the frame is what the socket takes
and what is left. -/
theorem putAndSend_flow (h : SendInv t) (h0 : t.mSendBuffer.totalLen = 0) {cmd : List UInt8}
    (hpos : 0 < cmd.length) (hlen : cmd.length ≤ cmdLen)
    (hcmd : ∀ x, dwCmd (cmd ++ x) ≠ moduleMsgFiles) {outs : List SendResult} {s : SendStep}
    (hs : t.putAndSend cmd outs = some s) (hlate : NoLateError outs) :
    cmd = Act.sentBytes s.acts ++ s.task.inFlight := by
  rw [putAndSend_eq] at hs
  obtain ⟨s', hs', rfl⟩ := Option.map_eq_some_iff.mp hs
  have htot : 0 < (t.putCmd cmd).mSendBuffer.totalLen := by simpa [TaskFileSend.putCmd] using hpos
  have hflow := tcpSendData_flow (h.putCmd h0 hlen hcmd) htot hs' hlate
  rw [h.inFlight_putCmd h0 hpos hlen] at hflow
  simpa [Act.sentBytes] using hflow

/-- One `writeBuffer` call: what was in flight and what the call builds is what
the socket takes and what is left. -/
theorem writeBuffer_flow (h : SendInv t) {fr : List UInt8} {outs : List SendResult}
    {s : SendStep} (hs : t.writeBuffer fr outs = some s) (hlate : NoLateError outs) :
    t.inFlight ++ (Act.builtFrames s.acts).flatten = Act.sentBytes s.acts ++ s.task.inFlight := by
  rcases h.writeBuffer_cases hs with ⟨hpos, hs⟩ | ⟨h0, hlt, s', hs', rfl⟩ | ⟨h0, -, s', hs', rfl⟩
  · rw [tcpSendData_builds_nothing h hpos hs, tcpSendData_flow h hpos hs hlate]
    simp
  · have hnil : t.inFlight = [] := if_pos h0
    obtain ⟨hinv, hpos, -⟩ := h.nextBlock h0 hlt fr
    have hnone := tcpSendData_builds_nothing hinv hpos hs'
    have hflow := tcpSendData_flow hinv hpos hs' hlate
    rw [h.inFlight_nextBlock fr] at hflow
    simp only [Act.builtFrames_append, hnone, Act.sentBytes_append]
    simpa [hnil, TaskFileSend.nextBlock, Act.builtFrames, Act.sentBytes] using hflow
  · have hnil : t.inFlight = [] := if_pos h0
    rw [hnil, h.putAndSend_built h0 (by decide) (by decide) dataEnd_cmd hs',
      ← h.putAndSend_flow h0 (by decide) (by decide) dataEnd_cmd hs' hlate]
    simp

/-- `setFetchFile` builds the LOGINRET. -/
theorem setFetchFile_built {opens : Bool} {stSize : Nat} {outs : List SendResult} {s : SendStep}
    (hs : TaskFileSend.new.setFetchFile opens stSize outs = some s) :
    s.task.mFileLen = stSize % 4294967296 ∧ s.task.mHasReadLen = 0 ∧
      s.task.mpFile = (if opens then some 0 else none) ∧
      Act.builtFrames s.acts = [loginRetFrame (stSize % 4294967296)] ∧
      (NoLateError outs →
        loginRetFrame (stSize % 4294967296) = Act.sentBytes s.acts ++ s.task.inFlight) := by
  rw [setFetchFile_new] at hs
  obtain ⟨s', hs', rfl⟩ := Option.map_eq_some_iff.mp hs
  have hopened := SendInv.opened opens stSize
  have htask := putAndSend_task hs'
  have hbuilt := hopened.putAndSend_built rfl (by simp) (length_loginRetFrame_le _)
    (loginRet_cmd _) hs'
  have hflow := hopened.putAndSend_flow rfl (by simp) (length_loginRetFrame_le _)
    (loginRet_cmd _) hs'
  exact ⟨by rw [htask]; rfl, by rw [htask]; rfl, by rw [htask]; rfl, hbuilt, hflow⟩

/-- Reading neither builds nor sends, and leaves what is in flight. -/
theorem readBuffer_flow (ctl : List UInt8 → Control) (inbox : List UInt8) (r₁ r₂ : RecvResult) :
    Act.builtFrames (t.readBuffer ctl inbox r₁ r₂).acts = [] ∧
      Act.sentBytes (t.readBuffer ctl inbox r₁ r₂).acts = [] ∧
      (t.readBuffer ctl inbox r₁ r₂).task.inFlight = t.inFlight := by
  have hasks : ∀ asks : List Ask, Act.builtFrames (asks.map .recv) = [] ∧
      Act.sentBytes (asks.map .recv) = [] := by
    intro asks
    simp [Act.builtFrames, Act.sentBytes, List.flatMap_map]
  generalize hg : t.readBuffer ctl inbox r₁ r₂ = g
  cases TaskFileSend.readBuffer_cases hg with
  | more f _ _ step => rw [step]; exact ⟨(hasks _).1, (hasks _).2, rfl⟩
  | whole f _ _ c _ step =>
    rw [step]
    simp only [Act.builtFrames_append, Act.sentBytes_append, hasks]
    cases c <;> exact ⟨rfl, rfl, rfl⟩

end SendInv

/-! ## Runs without a late error -/

namespace SenderEvent

/-- No send of the call fails after a part of its block has gone out. -/
def NoLateError : SenderEvent → Prop
  | .write _ outs => FilesEvent.NoLateError outs
  | .read _ _ _ _ => True

end SenderEvent

namespace Sender

/-- The frames built are what the socket has taken and what is in flight. -/
structure Flow (s : Sender) : Prop where
  inv : SendInv s.task
  flow : (Act.builtFrames s.acts).flatten = Act.sentBytes s.acts ++ s.task.inFlight

theorem flow_start {opens : Bool} {stSize : Nat} {outs : List SendResult} {s : Sender}
    (h : start opens stSize outs = some s) (hlate : FilesEvent.NoLateError outs) : Flow s := by
  obtain ⟨f, hf, rfl⟩ := Option.map_eq_some_iff.mp h
  obtain ⟨-, -, -, hbuilt, hflow⟩ := SendInv.setFetchFile_built hf
  exact ⟨(SendInv.setFetchFile hf).1, by rw [hbuilt]; simpa using hflow hlate⟩

theorem flow_step {s s' : Sender} {e : SenderEvent} (h : Flow s) (he : e.NoLateError)
    (hs : s.step e = some s') : Flow s' := by
  cases e with
  | write fr outs =>
    obtain ⟨w, hw, rfl⟩ := Option.map_eq_some_iff.mp hs
    refine ⟨(h.inv.writeBuffer hw).1, ?_⟩
    rw [Act.builtFrames_append, List.flatten_append, h.flow, Act.sentBytes_append,
      List.append_assoc, List.append_assoc, h.inv.writeBuffer_flow hw he]
  | read ctl inbox r₁ r₂ =>
    obtain rfl := Option.some.inj hs
    obtain ⟨hb, hsent, hfl⟩ := SendInv.readBuffer_flow (t := s.task) ctl inbox r₁ r₂
    refine ⟨h.inv.readBuffer ctl inbox r₁ r₂, ?_⟩
    rw [Act.builtFrames_append, hb, Act.sentBytes_append, hsent, hfl]
    simpa using h.flow

theorem flow_run {opens : Bool} {stSize : Nat} {outs : List SendResult} {s₀ s : Sender}
    {es : List SenderEvent} (h₀ : start opens stSize outs = some s₀)
    (hlate₀ : FilesEvent.NoLateError outs) (hlate : ∀ e ∈ es, e.NoLateError)
    (hrun : run step s₀ es = some s) : Flow s :=
  run_meets (fun _ _ _ hI hC he => flow_step hI hC he) (flow_start h₀ hlate₀)
    (meets_of_forall (fun e he _ => hlate e he) s₀) hrun

/-- With errors only before a block has begun to go out, what the socket has
taken begins the frames of the task, at every point of every run. -/
theorem sent_prefix_built {opens : Bool} {stSize : Nat} {outs : List SendResult}
    {s₀ s : Sender} {es : List SenderEvent} (h₀ : start opens stSize outs = some s₀)
    (hlate₀ : FilesEvent.NoLateError outs) (hlate : ∀ e ∈ es, e.NoLateError)
    (hrun : run step s₀ es = some s) :
    Act.sentBytes s.acts <+: (Act.builtFrames s.acts).flatten := by
  rw [(flow_run h₀ hlate₀ hlate hrun).flow]
  exact List.prefix_append _ _

/-- An error before the first byte of the header, one EAGAIN after half of it. -/
theorem sent_prefix_built_earlyError :
    ∃ s₀ s, start true 1 [.accepted 1048] = some s₀ ∧
      run step s₀ [.write [1] [.error], .write [] [.accepted 5, .eagain, .accepted 19]] = some s ∧
      (Act.sentBytes s.acts).length = 1072 ∧
      Act.sentBytes s.acts <+: (Act.builtFrames s.acts).flatten := by
  have h : (((start true 1 [.accepted 1048]).bind fun s₀ => run step s₀
      [.write [1] [.error], .write [] [.accepted 5, .eagain, .accepted 19]]).any fun s : Sender =>
        decide ((Act.sentBytes s.acts).length = 1072)) = true := by decide +kernel
  obtain ⟨s, hs, hlen⟩ := (Option.any_eq_true _ _).mp h
  obtain ⟨s₀, h₀, hrun⟩ := Option.bind_eq_some_iff.mp hs
  refine ⟨s₀, s, h₀, hrun, of_decide_eq_true hlen, sent_prefix_built h₀ ?_ ?_ hrun⟩
  · exact .inl (by decide)
  · intro e he
    rcases List.mem_cons.mp he with rfl | he
    · exact .inr (by simp)
    · obtain rfl := List.mem_singleton.mp he
      exact .inl (by decide)

/-- The error comes after five bytes of a FILES header: the next `writeBuffer`
call sends the header again from its first byte. -/
theorem sent_not_prefix_built :
    ∃ s₀ s, start true 1 [.accepted 1048] = some s₀ ∧
      run step s₀ [.write [1] [.accepted 5, .error], .write [] [.accepted 24]] = some s ∧
      ¬ Act.sentBytes s.acts <+: (Act.builtFrames s.acts).flatten := by
  have h : (((start true 1 [.accepted 1048]).bind fun s₀ => run step s₀
      [.write [1] [.accepted 5, .error], .write [] [.accepted 24]]).any fun s : Sender =>
        !(Act.sentBytes s.acts).isPrefixOf (Act.builtFrames s.acts).flatten) = true := by
    decide +kernel
  obtain ⟨s, hs, hnot⟩ := (Option.any_eq_true _ _).mp h
  obtain ⟨s₀, h₀, hrun⟩ := Option.bind_eq_some_iff.mp hs
  refine ⟨s₀, s, h₀, hrun, fun hpre => ?_⟩
  rw [List.isPrefixOf_iff_prefix.mpr hpre] at hnot
  cases hnot

end Sender

end FilesEvent
