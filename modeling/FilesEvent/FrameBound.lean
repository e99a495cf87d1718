import FilesEvent.SendStream
import FilesEvent.EmptyFrames

/-! The largest frame the server sends against the buffer of the client. A FILES
frame of a full block takes 24 bytes more than the block; the client allocates
16 more, so the frames of a file fit exactly up to eight bytes below the block
size. -/

namespace FilesEvent
open Bytes Framing Runs

/-! ## The frames of a task -/

/-- A frame that a task for a file of `fileLen` bytes builds. -/
inductive TaskFrame (fileLen : Nat) : List UInt8 → Prop
  | loginRet : TaskFrame fileLen (loginRetFrame fileLen)
  | files (pos : Nat) (data : List UInt8) (block : data.length ≤ fileMemoryLen)
      (left : data.length ≤ fileLen) : TaskFrame fileLen (filesHead pos data.length ++ data)
  | dataEnd : TaskFrame fileLen (netCmd moduleMsgDataEnd 0 0)

namespace TaskFrame

variable {fileLen : Nat} {f : List UInt8}

theorem isFrame (h : TaskFrame fileLen f) : netFormat.IsFrame f := by
  cases h with
  | loginRet => exact isFrame_loginRetFrame fileLen
  | files pos data block left =>
    have : fileMemoryLen = 1048576 := rfl
    exact isFrame_filesHead pos (by omega)
  | dataEnd => exact isFrame_header moduleMsgDataEnd 0

/-- Frames are not longer than the header of a FILES frame and the largest block. -/
theorem length_le (h : TaskFrame fileLen f) :
    f.length ≤ 1048 ∨ f.length ≤ sizeofNetCmd + sizeofFileGet + min fileMemoryLen fileLen := by
  cases h with
  | loginRet => exact .inl (by simp)
  | files pos data block left =>
    right
    simp only [List.length_append, length_filesHead, sizeofNetCmd, sizeofFileGet]
    omega
  | dataEnd => exact .inl (by decide)

end TaskFrame

namespace SendInv
open TaskFileSend

variable {t : TaskFileSend}

/-- The frames a `writeBuffer` call builds. -/
theorem writeBuffer_built (h : SendInv t) {fr : List UInt8} {outs : List SendResult}
    {s : SendStep} (hs : t.writeBuffer fr outs = some s) :
    s.task.mFileLen = t.mFileLen ∧ ∀ f ∈ Act.builtFrames s.acts, TaskFrame t.mFileLen f := by
  rcases h.writeBuffer_cases hs with ⟨hpos, hs⟩ | ⟨h0, hlt, s', hs', rfl⟩ | ⟨h0, -, s', hs', rfl⟩
  · rw [tcpSendData_builds_nothing h hpos hs]
    exact ⟨by rw [tcpSendData_task hs], by simp⟩
  · obtain ⟨hinv, hpos, -⟩ := h.nextBlock h0 hlt fr
    refine ⟨by rw [tcpSendData_task hs']; rfl, fun f hf => ?_⟩
    rw [Act.builtFrames_append, tcpSendData_builds_nothing hinv hpos hs', List.append_nil] at hf
    have hle := t.nextBlockLen_le
    have hleft := t.nextBlockLen_le_left
    have hgot : (fr.take t.nextBlockLen).length ≤ t.nextBlockLen := by
      rw [List.length_take]; omega
    obtain rfl : f = filesHead (t.mpFile.getD 0 % 4294967296) (fr.take t.nextBlockLen).length ++
        fr.take t.nextBlockLen := by simpa [TaskFileSend.nextBlock, Act.builtFrames] using hf
    exact .files _ _ (by omega) (by omega)
  · refine ⟨by rw [putAndSend_task hs'], fun f hf => ?_⟩
    rw [h.putAndSend_built h0 (by decide) (by decide) dataEnd_cmd hs'] at hf
    obtain rfl := List.mem_singleton.mp hf
    exact .dataEnd

/-- The branch of `writeBuffer` that reads the next block. -/
theorem writeBuffer_next (h : SendInv t) (h0 : t.mSendBuffer.totalLen = 0)
    (hlt : t.mHasReadLen < t.mFileLen) (fr : List UInt8) (outs : List SendResult) :
    t.writeBuffer fr outs = ((t.nextBlock fr).1.tcpSendData outs).map fun s =>
      ⟨s.ret, s.task, (t.nextBlock fr).2 ++ s.acts⟩ := by
  unfold TaskFileSend.writeBuffer
  simp only [h0, ↓reduceIte, if_pos hlt, h.queue, h.sending, Bool.true_eq_false]
  cases (t.nextBlock fr).1.tcpSendData outs <;> rfl

end SendInv

namespace Sender

theorem Reachable.built {opens : Bool} {stSize : Nat} {s : Sender}
    (h : Reachable opens stSize s) :
    ∀ f ∈ Act.builtFrames s.acts, TaskFrame (stSize % 4294967296) f := by
  obtain ⟨outs, s₀, es, h₀, hrun⟩ := h
  obtain ⟨w, hw, rfl⟩ := Option.map_eq_some_iff.mp h₀
  obtain ⟨hlen, -, -, hbuilt, -⟩ := SendInv.setFetchFile_built hw
  refine (run_invariant (I := fun s => SendInv s.task ∧ s.task.mFileLen = stSize % 4294967296 ∧
    ∀ f ∈ Act.builtFrames s.acts, TaskFrame (stSize % 4294967296) f) ?_
    ⟨(SendInv.setFetchFile hw).1, hlen, fun f hf => ?_⟩ hrun).2.2
  · rintro s e s' ⟨hinv, hfile, hall⟩ hs
    cases e with
    | write fr outs =>
      obtain ⟨w, hw, rfl⟩ := Option.map_eq_some_iff.mp hs
      obtain ⟨hfile', hnew⟩ := hinv.writeBuffer_built hw
      refine ⟨(hinv.writeBuffer hw).1, hfile'.trans hfile, fun f hf => ?_⟩
      rw [Act.builtFrames_append] at hf
      rcases List.mem_append.mp hf with hf | hf
      · exact hall f hf
      · exact hfile ▸ hnew f hf
    | read ctl inbox r₁ r₂ =>
      obtain rfl := Option.some.inj hs
      obtain ⟨hnone, -⟩ := SendInv.readBuffer_flow (t := s.task) ctl inbox r₁ r₂
      refine ⟨hinv.readBuffer ctl inbox r₁ r₂,
        (s.task.readBuffer_keeps ctl inbox r₁ r₂ rfl).2.1.trans hfile, fun f hf => ?_⟩
      rw [Act.builtFrames_append, hnone, List.append_nil] at hf
      exact hall f hf
  · rw [hbuilt] at hf
    obtain rfl := List.mem_singleton.mp hf
    exact .loginRet

/-- Every FILES frame that a task for a file of `stSize` bytes ever builds fits
into the buffer of the client, and so does every `recv` with which a client,
saving or not, reads the frames of the task, however their bytes are split. -/
def FitsClient (stSize : Nat) : Prop :=
  ∀ s, Reachable true stSize s →
    (∀ f ∈ Act.builtFrames s.acts, dwCmd f = moduleMsgFiles →
      sizeofNetCmd + dwLength f ≤ TaskFileRecv.memLen) ∧
    ∀ mwFile block es c, block.length = TaskFileRecv.memLen →
      run TaskFileRecv.callback (Endpoint.client mwFile block (Act.builtFrames s.acts)) es =
        some c →
      ∀ a ∈ Act.asks c.acts, a.Inside

theorem fitsClient_of_le {stSize : Nat}
    (h : stSize % 4294967296 ≤ fileMemoryLen - sizeofFileGet) : FitsClient stSize := by
  intro s hs
  have hmem : TaskFileRecv.memLen = 1048592 := rfl
  have hlen : ∀ f ∈ Act.builtFrames s.acts, f.length ≤ TaskFileRecv.memLen := by
    intro f hf
    have hblock : fileMemoryLen = 1048576 := rfl
    have hget : sizeofFileGet = 8 := rfl
    have hcmd : sizeofNetCmd = 16 := rfl
    rcases (hs.built f hf).length_le with hle | hle <;> omega
  refine ⟨fun f hf _ => ?_, fun mwFile block es c hblock hrun => ?_⟩
  · rw [← length_of_isFrame (hs.built f hf).isFrame]
    exact hlen f hf
  · exact TaskFileRecv.receiver.asks_inside_of_frames (by decide) trivial
      (Endpoint.fresh_client mwFile _ hblock)
      (Endpoint.fits_of_length (fun f hf => (hs.built f hf).isFrame) hlen) rfl hrun

/-- A file with less than eight bytes to spare in its first block. -/
theorem not_fitsClient {stSize : Nat}
    (h : fileMemoryLen - sizeofFileGet < stSize % 4294967296) : ¬ FitsClient stSize := by
  intro hfits
  obtain ⟨w, hw, h0⟩ := SendInv.setFetchFile_accepted true stSize
  have hs : start true stSize [.accepted 1048] = some ⟨w.task, w.acts⟩ := by
    rw [start, hw]
    rfl
  have hinv := (SendInv.setFetchFile hw).1
  obtain ⟨hlen, hread, -⟩ := SendInv.setFetchFile_built hw
  have hlt : w.task.mHasReadLen < w.task.mFileLen := by omega
  obtain ⟨hinv', hpos, -⟩ := hinv.nextBlock h0 hlt (zeros w.task.nextBlockLen)
  obtain ⟨w', hw', -⟩ := hinv'.tcpSendData_accepted hpos
  have hstep : Sender.step ⟨w.task, w.acts⟩ (.write (zeros w.task.nextBlockLen)
      [.accepted (w.task.nextBlock (zeros w.task.nextBlockLen)).1.mSendBuffer.totalLen.toNat]) =
      some ⟨w'.task, w.acts ++ ((w.task.nextBlock (zeros w.task.nextBlockLen)).2 ++ w'.acts)⟩ := by
    rw [Sender.step, hinv.writeBuffer_next h0 hlt, hw']
    rfl
  -- the first block, read in full
  have hbuilt := (hfits _ ⟨_, _, [_], hs, run_cons.mpr ⟨_, hstep, rfl⟩⟩).1
    (filesHead (w.task.mpFile.getD 0 % 4294967296) w.task.nextBlockLen ++
      zeros w.task.nextBlockLen) ?_ (dwCmd_filesHead _ _ _)
  · have hblock : fileMemoryLen = 1048576 := rfl
    have hget : sizeofFileGet = 8 := rfl
    have hcmd : sizeofNetCmd = 16 := rfl
    have hmem : TaskFileRecv.memLen = 1048592 := rfl
    have hnext : w.task.nextBlockLen =
        if w.task.mFileLen > fileMemoryLen then fileMemoryLen else w.task.mFileLen := by
      simp [TaskFileSend.nextBlockLen, hread]
    rw [dwLength_filesHead] at hbuilt
    split at hnext <;> omega
  · have htake : (zeros w.task.nextBlockLen).take w.task.nextBlockLen =
        zeros w.task.nextBlockLen := List.take_of_length_le (by simp)
    simp [TaskFileSend.nextBlock, Act.builtFrames, htake]

/-- The two ends agree on the largest frame exactly for the files that leave
eight bytes of the block size free. -/
theorem fitsClient_iff (stSize : Nat) :
    FitsClient stSize ↔ stSize % 4294967296 ≤ fileMemoryLen - sizeofFileGet := by
  refine ⟨fun hfits => Nat.le_of_not_lt fun h => not_fitsClient h hfits, fitsClient_of_le⟩

/-- The smallest file that is too large for the client's buffer. -/
theorem not_fitsClient_1048569 : ¬ FitsClient 1048569 :=
  not_fitsClient (by decide)

end Sender

end FilesEvent
