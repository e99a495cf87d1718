import FilesEvent.Sender
import FilesEvent.Receivers

/-! Frames without payload. Each of the three receivers is a machine of its own
here, read from while no call has returned 0. Not one of them survives a frame
with `dwLength` 0: the session and `TaskFileSend` ask `recv` for zero bytes and
return its 0, which closes the connection; `TaskFileRecv` goes to the payload
phase, and its next call does the same. -/

namespace FilesEvent
open Bytes Framing Runs

/-- An object that receives, the stream it receives from, and what it has done. -/
structure Endpoint (τ : Type) where
  obj : τ
  inbox : List UInt8
  acts : List Act
  alive : Bool

/-! ## The session -/

namespace Session

/-- A read callback of a session: the paths that exist then, and what it meets. -/
structure ReadCall where
  access : List UInt8 → Bool
  env : ReadEnv

/-- A read callback of a session of the server, which `onRead` closes on 0. -/
def callback (s : Endpoint (Session TaskFileSend)) (e : ReadCall) :
    Option (Endpoint (Session TaskFileSend)) :=
  if s.alive then
    (s.obj.readBuffer (handlers e.access) s.inbox e.env).map fun g =>
      ⟨g.sess, g.inbox, s.acts ++ g.acts, decide (g.ret ≠ 0)⟩
  else none

def receiver : Receiver netFormat (Endpoint (Session TaskFileSend)) ReadCall where
  step := callback
  view s := logView s.obj.receiving s.inbox s.acts s.alive
  closes s e := s.obj.Rejects (handlers e.access) s.inbox e.env
  recvs e := some (e.env.r₁, e.env.r₂)
  Inv s := s.obj.BuffersOk
  sound := by
    intro s e s' hs h
    simp only [callback] at h
    split at h
    · rename_i halive
      obtain ⟨g, hg, rfl⟩ := Option.map_eq_some_iff.mp h
      obtain ⟨hok, hr⟩ := readBuffer_reads hs hg s.acts
      exact ⟨hok, halive, by simpa only [halive] using hr⟩
    · cases h

/-- A read callback can happen with any results of `recv`: a new task may send its
LOGINRET at once, and nothing else is sent. -/
theorem readBuffer_total (H : Handlers) (s : Session TaskFileSend) (inbox : List UInt8)
    (r₁ r₂ : RecvResult) : ∃ outs, (s.readBuffer H inbox ⟨r₁, r₂, true, 0, outs⟩).isSome := by
  cases htask : s.mTaskBase with
  | some t => exact ⟨[], by simp [readBuffer, htask]⟩
  | none =>
    simp only [readBuffer, htask, readRequest]
    cases (readFrame netFormat s.rx inbox r₁ r₂).done with
    | false => exact ⟨[], rfl⟩
    | true =>
      cases H.judge (readFrame netFormat s.rx inbox r₁ r₂).rx.buf with
      | fetch path =>
        obtain ⟨t, ht, -⟩ := SendInv.setFetchFile_accepted true 0
        exact ⟨[.accepted 1048], by simp [ht]⟩
      | stay => exact ⟨[], rfl⟩
      | refuse => exact ⟨[], rfl⟩
      | overrun => exact ⟨[], rfl⟩

/-- The frames that a session gets to in the stream of the frames `fs`, whatever
paths exist: each is judged with what `mReadBuff` holds behind it, a lookup that
runs off the buffer ends the session, and a request for a file hands all that
follow to the task. -/
def reached (mReadBuff : List UInt8) : List (List UInt8) → List (List UInt8)
  | [] => []
  | f :: fs =>
      f :: match judge (fun _ => true) (f ++ mReadBuff.drop f.length) with
        | .fetch _ => fs
        | .stay => reached (f ++ mReadBuff.drop f.length) fs
        | .refuse => []
        | .overrun => []

/-- What is ahead of a session, with its task or without one. -/
def ahead (s : Endpoint (Session TaskFileSend)) (rest : List (List UInt8)) :
    List (List UInt8) :=
  match s.obj.mTaskBase with
  | none => reached s.obj.mReadBuff rest
  | some _ => rest

variable {s t : Endpoint (Session TaskFileSend)} {e : ReadCall} {f p : List UInt8}
  {later : List (List UInt8)}

end Session

/-! ## `TaskFileSend` -/

namespace TaskFileSend

def callback (ctl : List UInt8 → Control) (s : Endpoint TaskFileSend)
    (r : RecvResult × RecvResult) : Option (Endpoint TaskFileSend) :=
  if s.alive then
    let g := s.obj.readBuffer ctl s.inbox r.1 r.2
    some ⟨g.task, g.inbox, s.acts ++ g.acts, decide (g.ret ≠ 0)⟩
  else none

def receiver (ctl : List UInt8 → Control) :
    Receiver netFormat (Endpoint TaskFileSend) (RecvResult × RecvResult) where
  step := callback ctl
  view s := logView s.obj.mRecvBuffer.rx s.inbox s.acts s.alive
  closes _ _ := False
  recvs r := some r
  Inv s := s.obj.mRecvBuffer.cmmd.length = cmdLen
  sound := by
    intro s r s' hs h
    simp only [callback] at h
    split at h
    · rename_i halive
      obtain rfl := Option.some.inj h
      obtain ⟨hok, hr⟩ := readBuffer_reads ctl hs s.inbox r.1 r.2 False s.acts rfl
      exact ⟨hok, halive, by simpa only [halive] using hr⟩
    · cases h

theorem total_receiver (ctl : List UInt8 → Control) : (receiver ctl).Total := by
  intro s r₁ r₂ _ (halive : s.alive = true)
  refine ⟨(r₁, r₂), id, rfl, ?_⟩
  show (callback ctl s _).isSome
  rw [callback, if_pos halive]
  rfl

end TaskFileSend

/-! ## `TaskFileRecv` -/

/-- The environment of a read callback of the client: `recv`, and the two blocks
that it sends on a LOGINRET. -/
structure ClientEnv where
  r₁ : RecvResult
  r₂ : RecvResult
  outs₁ : List SendResult
  outs₂ : List SendResult

namespace TaskFileRecv

def callback (s : Endpoint TaskFileRecv) (e : ClientEnv) : Option (Endpoint TaskFileRecv) :=
  if s.alive then
    (s.obj.readBuffer s.inbox e.r₁ e.r₂ e.outs₁ e.outs₂).map fun g =>
      ⟨g.task, g.inbox, s.acts ++ g.acts, decide (g.ret ≠ 0)⟩
  else none

def receiver : Receiver netFormat (Endpoint TaskFileRecv) ClientEnv where
  step := callback
  view s := logView s.obj.mRecvBuffer.rx s.inbox s.acts s.alive
  closes _ _ := False
  recvs e := some (e.r₁, e.r₂)
  Inv _ := True
  sound := by
    intro s e s' _ h
    simp only [callback] at h
    split at h
    · rename_i halive
      obtain ⟨g, hg, rfl⟩ := Option.map_eq_some_iff.mp h
      have hr := readBuffer_reads hg False s.acts
      exact ⟨trivial, halive, by simpa only [halive] using hr⟩
    · cases h

theorem sendCmd_total (cmd : Nat) (index : Int) (lpData : List UInt8) :
    ∃ outs₁ outs₂, (sendCmd cmd index lpData outs₁ outs₂).isSome := by
  obtain ⟨o, ho, hret⟩ := sendEx_accepted (netCmd cmd (asWord index) lpData.length) sizeofNetCmd
  have hpos : ¬ o.ret < 0 := by omega
  obtain ⟨o', ho', -⟩ := sendEx_accepted lpData lpData.length
  by_cases h0 : lpData.length = 0
  · refine ⟨[.accepted sizeofNetCmd], [], ?_⟩
    simp only [sendCmd, ho, Option.bind_eq_bind, Option.bind_some, if_neg hpos, if_pos h0]
    rfl
  · refine ⟨[.accepted sizeofNetCmd], [.accepted lpData.length], ?_⟩
    simp only [sendCmd, ho, Option.bind_eq_bind, Option.bind_some, if_neg hpos, if_neg h0, ho']
    rfl

/-- A LOGINRET is answered by two blocks, each of which the socket may take at once. -/
theorem handle_total (c : TaskFileRecv) : ∃ outs₁ outs₂, (c.handle outs₁ outs₂).isSome := by
  by_cases hcmd : dwCmd c.mRecvBuffer.mem = moduleMsgLoginRet
  · obtain ⟨o₁, o₂, ho⟩ := sendCmd_total moduleMsgControlPlay 0
      (startControl (asInt (loginRetTmEnd c.mRecvBuffer.mem)))
    obtain ⟨o, ho⟩ := Option.isSome_iff_exists.mp ho
    exact ⟨o₁, o₂, by simp [handle, hcmd, ho]⟩
  · refine ⟨[], [], ?_⟩
    simp only [handle, if_neg hcmd, and_self, ↓reduceIte]
    split <;> rfl

theorem recvPackData_total (c : TaskFileRecv) (inbox : List UInt8) (r : RecvResult) :
    ∃ outs₁ outs₂, (c.recvPackData inbox r outs₁ outs₂).isSome := by
  cases hd : (readPack netFormat c.mRecvBuffer.rx inbox r).done with
  | true =>
    obtain ⟨o₁, o₂, ho⟩ := handle_total
      { c with mRecvBuffer := c.mRecvBuffer.setRx (readPack netFormat c.mRecvBuffer.rx inbox r).rx }
    obtain ⟨x, hx⟩ := Option.isSome_iff_exists.mp ho
    exact ⟨o₁, o₂, by simp [recvPackData, hd, hx]⟩
  | false => exact ⟨[], [], by simp [recvPackData, hd]⟩

theorem readBuffer_total (c : TaskFileRecv) (inbox : List UInt8) (r₁ r₂ : RecvResult) :
    ∃ outs₁ outs₂, (c.readBuffer inbox r₁ r₂ outs₁ outs₂).isSome := by
  cases hhead : c.mRecvBuffer.bProcCmmd with
  | true =>
    by_cases hpay : (readHead netFormat c.mRecvBuffer.rx inbox r₁).done = true ∧
        0 < dwLength (readHead netFormat c.mRecvBuffer.rx inbox r₁).rx.buf
    · obtain ⟨o₁, o₂, ho⟩ := recvPackData_total
        { c with mRecvBuffer := c.mRecvBuffer.setRx (readHead netFormat c.mRecvBuffer.rx inbox r₁).rx }
        (readHead netFormat c.mRecvBuffer.rx inbox r₁).inbox r₂
      obtain ⟨p, hp⟩ := Option.isSome_iff_exists.mp ho
      exact ⟨o₁, o₂, by simp [readBuffer, hhead, hpay, hp]⟩
    · exact ⟨[], [], by simp only [readBuffer, hhead, if_neg hpay]; simp⟩
  | false =>
    obtain ⟨o₁, o₂, ho⟩ := recvPackData_total c inbox r₁
    exact ⟨o₁, o₂, by simpa [readBuffer, hhead] using ho⟩

theorem total_receiver : receiver.Total := by
  intro s r₁ r₂ _ (halive : s.alive = true)
  obtain ⟨o₁, o₂, ho⟩ := readBuffer_total s.obj s.inbox r₁ r₂
  refine ⟨⟨r₁, r₂, o₁, o₂⟩, id, rfl, ?_⟩
  show (callback s _).isSome
  rw [callback, if_pos halive, Option.isSome_map, ho]

end TaskFileRecv

/-! ## Streams with empty frames -/

namespace Endpoint

/-- A session that has just been accepted, a new `TaskFileSend`, and a
`TaskFileRecv` whose buffer is `block` and whose save file is open or not, at the
start of a stream of frames. -/
def session (mReadBuff : List UInt8) (fs : List (List UInt8)) : Endpoint (Session TaskFileSend) :=
  ⟨.new none mReadBuff, fs.flatten, [], true⟩
def sender (fs : List (List UInt8)) : Endpoint TaskFileSend := ⟨.new, fs.flatten, [], true⟩
def client (mwFile : Bool) (block : List UInt8) (fs : List (List UInt8)) :
    Endpoint TaskFileRecv :=
  ⟨{ TaskFileRecv.new block with mwFile := mwFile }, fs.flatten, [], true⟩

variable {fs : List (List UInt8)}

theorem fits_of_length {size : Nat} (hfs : ∀ f ∈ fs, netFormat.IsFrame f)
    (hlen : ∀ f ∈ fs, f.length ≤ size) :
    ∀ f ∈ fs, netFormat.IsFrame f ∧ netFormat.h + netFormat.len f ≤ size := by
  intro f hf
  have := (hfs f hf).2
  have := hlen f hf
  exact ⟨hfs f hf, by omega⟩

theorem fresh_client (mwFile : Bool) (fs : List (List UInt8)) {block : List UInt8}
    (hblock : block.length = TaskFileRecv.memLen) :
    Fresh netFormat TaskFileRecv.memLen (TaskFileRecv.receiver.view (client mwFile block fs)) :=
  ⟨rfl, rfl, by decide, hblock, rfl, rfl, rfl⟩

end Endpoint

end FilesEvent
