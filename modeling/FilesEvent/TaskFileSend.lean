import FilesEvent.Buffers
import FilesEvent.SendEx
import FilesEvent.Lookup

/-! `TaskFileSend.cpp`: the server's side of a transfer. The environment of a
callback is given with the call: what `fopen` and `stat` say, the bytes `fread`
delivers, and what the `send` and `recv` calls do. -/

namespace FilesEvent
open Bytes Framing

/-- `mpFile` is the position in the open file. The members that no method reads
(`mInBuffer`, `mFrameCount`, `mRecvDataLen`, `mRecvHeadLen`) are left out. -/
structure TaskFileSend where
  mRecvBuffer : CmdBuffer
  mSendBuffer : FileProcBuffer
  mpFile : Option Nat
  mMsgQueue : List Int
  mFileLen : Nat
  mHasReadLen : Nat
  mbSendingData : Bool

/-- What handling a complete frame from the client amounts to. The values are
the `acValue` arrays of the lookups. -/
inductive Control
  | ignored
  | start (tmstart tmend : List UInt8)
  | setpause (value : List UInt8)
  | send
  | overrun
  deriving DecidableEq, Repr

structure SendStep where
  ret : Int
  task : TaskFileSend
  acts : List Act

/-- `arm` asks for `mSess->addWriteEvent()`. -/
structure TaskRead where
  ret : Int
  task : TaskFileSend
  inbox : List UInt8
  acts : List Act
  arm : Bool

namespace TaskFileSend

/-- The constructor. -/
def new : TaskFileSend where
  mRecvBuffer := .reset
  mSendBuffer := .empty
  mpFile := none
  mMsgQueue := []
  mFileLen := 0
  mHasReadLen := 0
  mbSendingData := true

/-! ## Sending -/

/-- The log entries of the `send` calls made for the frame in `cmmd`. -/
def sentActs (cmmd : List UInt8) (o : SendOut) : List Act :=
  o.calls.map fun c => .sent (dwCmd cmmd) c.bytes

def tcpSendData (t : TaskFileSend) (outs : List SendResult) : Option SendStep := do
  let b := t.mSendBuffer
  if b.bProcCmmd then
    let o ← sendEx (b.cmmd.drop b.hasProcLen.toNat) (b.totalLen - b.hasProcLen) outs
    let b' := if 0 < o.ret then { b with hasProcLen := b.hasProcLen + o.ret } else b
    let b' := if b'.hasProcLen = b'.totalLen then b'.setToVideo else b'
    some ⟨o.ret, { t with mSendBuffer := b' }, sentActs b.cmmd o⟩
  else
    let o ← sendEx (b.mem.drop b.hasProcLen.toNat) (b.totalLen - b.hasProcLen) outs
    let b' := if 0 < o.ret then { b with hasProcLen := b.hasProcLen + o.ret } else b
    let b' := if b'.hasProcLen = b'.totalLen then b'.reset else b'
    some ⟨o.ret, { t with mSendBuffer := b' }, sentActs b.cmmd o⟩

/-- Sending changes nothing but the send buffer, and logs the `send` calls. -/
theorem tcpSendData_frame {t : TaskFileSend} {outs : List SendResult} {s : SendStep}
    (h : t.tcpSendData outs = some s) :
    s.task = { t with mSendBuffer := s.task.mSendBuffer } ∧
      ∃ o, s.acts = sentActs t.mSendBuffer.cmmd o := by
  simp only [tcpSendData, Option.bind_eq_bind] at h
  split at h
  · obtain ⟨o, -, hs⟩ := Option.bind_eq_some_iff.mp h
    obtain rfl := Option.some.inj hs
    exact ⟨rfl, o, rfl⟩
  · obtain ⟨o, -, hs⟩ := Option.bind_eq_some_iff.mp h
    obtain rfl := Option.some.inj hs
    exact ⟨rfl, o, rfl⟩

theorem tcpSendData_task {t : TaskFileSend} {outs : List SendResult} {s : SendStep}
    (h : t.tcpSendData outs = some s) : s.task = { t with mSendBuffer := s.task.mSendBuffer } :=
  (tcpSendData_frame h).1

/-- A frame of `totalLen` header bytes is put into `cmmd`. -/
def putCmd (t : TaskFileSend) (cmd : List UInt8) : TaskFileSend :=
  { t with mSendBuffer := { t.mSendBuffer with
      cmmd := writeAt t.mSendBuffer.cmmd 0 cmd
      totalLen := cmd.length
      bProcCmmd := true } }

/-- The new frame in `cmmd` goes out as far as the socket takes it. -/
def putAndSend (t : TaskFileSend) (cmd : List UInt8) (outs : List SendResult) :
    Option SendStep := do
  let s ← (t.putCmd cmd).tcpSendData outs
  some ⟨s.ret, s.task, .built t.mSendBuffer.totalLen cmd :: s.acts⟩

/-- `setFetchFile`: `opens` tells whether `fopen` succeeds, `stSize` is the
`st_size` of the file, which is stored into an `unsigned int`. -/
def setFetchFile (t : TaskFileSend) (opens : Bool) (stSize : Nat) (outs : List SendResult) :
    Option SendStep :=
  match t.mpFile with
  | some _ => if outs = [] then some ⟨-1, t, []⟩ else none
  | none => do
      let fileLen := stSize % 4294967296
      let t := { t with mpFile := if opens then some 0 else none, mFileLen := fileLen }
      let s ← t.putAndSend (loginRetFrame fileLen) outs
      some ⟨0, s.task, s.acts⟩

def sendVariedCmd (t : TaskFileSend) (iVal : Int) (outs : List SendResult) : Option SendStep :=
  t.putAndSend (netCmd (asWord iVal) 0 0) outs

def pushSendCmd (t : TaskFileSend) (iVal : Nat) (index : Int) (outs : List SendResult) :
    Option SendStep :=
  if iVal = moduleMsgDataEnd ∨ iVal = moduleMsgSectionEnd then
    t.putAndSend (netCmd iVal (asWord index) 0) outs
  else if outs ≠ [] then none
  else if iVal = moduleMsgPing ∧ t.mMsgQueue.length < 10 then
    some ⟨0, { t with mMsgQueue := t.mMsgQueue ++ [(moduleMsgPing : Int)] }, []⟩
  else some ⟨0, t, []⟩

/-- `iBuffLen`, the size of the next block. -/
def nextBlockLen (t : TaskFileSend) : Nat :=
  let iLeftLen := t.mFileLen - t.mHasReadLen
  if iLeftLen > fileMemoryLen then fileMemoryLen else iLeftLen

/-- The part of `writeBuffer` that reads the next block and builds its header;
`fr` is what the file holds for `fread`, which takes at most `iBuffLen` bytes. -/
def nextBlock (t : TaskFileSend) (fr : List UInt8) : TaskFileSend × List Act :=
  let iBuffLen := t.nextBlockLen
  let b := t.mSendBuffer.createMem (zeros iBuffLen)
  let got := fr.take iBuffLen
  let data := writeAt (writeAt b.mem 0 (zeros iBuffLen)) 0 got
  let pos := t.mpFile.getD 0
  let head := filesHead (pos % 4294967296) got.length
  ({ t with
      mSendBuffer := { b with
        cmmd := writeAt b.cmmd 0 head
        totalLen := head.length
        bProcCmmd := true
        dataLen := got.length
        data := some data }
      mpFile := t.mpFile.map (· + got.length)
      mHasReadLen := (t.mHasReadLen + got.length) % 4294967296 },
    [.file t.mpFile.isSome, .memset iBuffLen b.memLen, .fread iBuffLen b.memLen,
      .built t.mSendBuffer.totalLen (head ++ got)])

def writeBuffer (t : TaskFileSend) (fr : List UInt8) (outs : List SendResult) :
    Option SendStep :=
  if t.mSendBuffer.totalLen = 0 then
    if t.mHasReadLen < t.mFileLen then
      match t.mMsgQueue with
      | val :: queue => { t with mMsgQueue := queue }.sendVariedCmd val outs
      | [] =>
          if t.mbSendingData = false then
            if outs = [] then some ⟨0, t, []⟩ else none
          else do
            let (t, acts) := t.nextBlock fr
            let s ← t.tcpSendData outs
            some ⟨s.ret, s.task, acts ++ s.acts⟩
    else do
      let s ← t.pushSendCmd moduleMsgDataEnd 0 outs
      some ⟨ownSockExit, s.task, s.acts⟩
  else t.tcpSendData outs

/-! ## Receiving -/

/-- The handling code of `recvPackData`, on the buffer with the complete frame.
Each lookup starts from a cleared `acValue`; `strcmp` looks at no more bytes than
the literal and its terminator. -/
def control (cmmd : List UInt8) : Control :=
  let acValue := zeros 256
  if dwCmd cmmd ≠ moduleMsgControlPlay then .ignored
  else
    match protoGetValueByName cmmd (lit "name") acValue with
    | none => .overrun
    | some name =>
        if name.pValueOut.take 6 = lit "start" ++ [0] then
          match protoGetValueByName cmmd (lit "tmstart") acValue,
              protoGetValueByName cmmd (lit "tmend") acValue with
          | some tmstart, some tmend => .start tmstart.pValueOut tmend.pValueOut
          | _, _ => .overrun
        else if name.pValueOut.take 9 = lit "setpause" ++ [0] then
          match protoGetValueByName cmmd (lit "value") acValue with
          | some value => .setpause value.pValueOut
          | none => .overrun
        else if name.pValueOut.take 5 = lit "send" ++ [0] then .send
        else .ignored

/-- What the control does to the task, before the receive buffer is reset. -/
def handle (t : TaskFileSend) : Control → TaskFileSend × List Act × Bool
  | .start _ _ => (t, [.start], true)
  | .send => ({ t with mbSendingData := true }, [.resume], true)
  | .overrun => (t, [.overrun], false)
  | .ignored | .setpause _ => (t, [], false)

/-- `readBuffer` with its `recvPackData`; `ctl` is the handling code, `control`
in the source. -/
def readBuffer (ctl : List UInt8 → Control) (t : TaskFileSend) (inbox : List UInt8)
    (r₁ r₂ : RecvResult) : TaskRead :=
  let s := readFrame netFormat t.mRecvBuffer.rx inbox r₁ r₂
  let t := { t with mRecvBuffer := .ofRx s.rx }
  let acts := s.asks.map Act.recv
  if s.done then
    let f := s.rx.buf.take (sizeofNetCmd + s.rx.total.toNat)
    let (t, acts', arm) := t.handle (ctl s.rx.buf)
    ⟨s.ret, { t with mRecvBuffer := .reset }, s.inbox,
      acts ++ .frame .sender f s.inbox :: acts', arm⟩
  else ⟨s.ret, t, s.inbox, acts, false⟩

/-! ## What reading can do -/

/-- The outcomes of a read callback: the frame goes on, or it is complete and the
control in it is handled. -/
inductive ReadCases (ctl : List UInt8 → Control) (t : TaskFileSend) (inbox : List UInt8)
    (r₁ r₂ : RecvResult) (g : TaskRead) : Prop
  | more (f : FrameStep) (frame : readFrame netFormat t.mRecvBuffer.rx inbox r₁ r₂ = f)
      (done : f.done = false)
      (step : g = ⟨f.ret, { t with mRecvBuffer := .ofRx f.rx }, f.inbox, f.asks.map .recv, false⟩) :
      ReadCases ctl t inbox r₁ r₂ g
  | whole (f : FrameStep) (frame : readFrame netFormat t.mRecvBuffer.rx inbox r₁ r₂ = f)
      (done : f.done = true) (c : Control) (control : ctl f.rx.buf = c)
      (step : g = ⟨f.ret,
        { ({ t with mRecvBuffer := .ofRx f.rx }.handle c).1 with mRecvBuffer := .reset }, f.inbox,
        f.asks.map .recv ++ .frame .sender (f.rx.buf.take (sizeofNetCmd + f.rx.total.toNat))
          f.inbox :: ({ t with mRecvBuffer := .ofRx f.rx }.handle c).2.1,
        ({ t with mRecvBuffer := .ofRx f.rx }.handle c).2.2⟩) :
      ReadCases ctl t inbox r₁ r₂ g

theorem readBuffer_cases {ctl : List UInt8 → Control} {t : TaskFileSend} {inbox : List UInt8}
    {r₁ r₂ : RecvResult} {g : TaskRead} (h : t.readBuffer ctl inbox r₁ r₂ = g) :
    ReadCases ctl t inbox r₁ r₂ g := by
  unfold readBuffer at h
  simp only at h
  split at h
  · rename_i hdone
    exact .whole _ rfl hdone _ rfl h.symm
  · rename_i hdone
    exact .more _ rfl (eq_false_of_ne_true hdone) h.symm

end TaskFileSend

end FilesEvent
