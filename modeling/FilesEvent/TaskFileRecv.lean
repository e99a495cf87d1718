import FilesEvent.Buffers
import FilesEvent.SendEx
import FilesEvent.Lookup

/-! `TaskFileRecv.cpp`: the client's side of a transfer. -/

namespace FilesEvent
open Bytes Framing

/-- `mwFile` is the open save file; what is written to it is in the actions.
The two time stamps are left out. -/
structure TaskFileRecv where
  mRecvBuffer : FileProcBuffer
  mwFile : Bool
  mTotalLen : Int
  mRecvDataLen : Int

structure RecvStep where
  ret : Int
  task : TaskFileRecv
  inbox : List UInt8
  acts : List Act

structure CmdOut where
  ret : Int
  acts : List Act

namespace TaskFileRecv

/-- The size of the receive buffer: `FILE_MEMORY_LEN + sizeof(NET_CMD)`. -/
def memLen : Nat := fileMemoryLen + sizeofNetCmd

/-- The constructor; `block` is the memory `malloc` returns, `memLen` bytes in
the source. -/
def new (block : List UInt8) : TaskFileRecv where
  mRecvBuffer := FileProcBuffer.empty.reset.createMem block
  mwFile := false
  mTotalLen := 0
  mRecvDataLen := 0

/-- `SendCmd`: the header and the payload are two calls of `sendEx`. -/
def sendCmd (cmd : Nat) (index : Int) (lpData : List UInt8) (outs₁ outs₂ : List SendResult) :
    Option CmdOut := do
  let head := netCmd cmd (asWord index) lpData.length
  let o ← sendEx head sizeofNetCmd outs₁
  let acts := o.calls.map fun c => Act.sent cmd c.bytes
  if o.ret < 0 then if outs₂ = [] then some ⟨o.ret, acts⟩ else none
  else if lpData.length = 0 then if outs₂ = [] then some ⟨0, acts⟩ else none
  else
    let o' ← sendEx lpData lpData.length outs₂
    some ⟨o'.ret, acts ++ o'.calls.map fun c => Act.sent cmd c.bytes⟩

/-- The request that `setFetchAndSaveFile` prints. -/
def fetchRequest (remotefile : List UInt8) : List UInt8 :=
  lit "<get path=\"" ++ remotefile ++ lit "\"/>"

/-- The login message for `remotefile`, with its header. -/
def loginFrame (remotefile : List UInt8) : List UInt8 :=
  netCmd moduleMsgLogin 0 (fetchRequest remotefile).length ++ fetchRequest remotefile

/-- `setFetchAndSaveFile`; `opens` tells whether the save file can be opened. -/
def setFetchAndSaveFile (c : TaskFileRecv) (remotefile : List UInt8) (opens : Bool)
    (outs₁ outs₂ : List SendResult) : Option (TaskFileRecv × List Act) :=
  if c.mwFile then if outs₁ = [] ∧ outs₂ = [] then some (c, []) else none
  else do
    let o ← sendCmd moduleMsgLogin 0 (fetchRequest remotefile) outs₁ outs₂
    some ({ c with mwFile := opens }, o.acts)

/-- The control message printed on a LOGINRET, with its terminator. -/
def startControl (totalLen : Int) : List UInt8 :=
  lit "<control name=\"start\" tmstart=\"" ++ lit (toString (0 : Int)) ++
    lit "\" tmend=\"" ++ lit (toString totalLen) ++ lit "\" />" ++ [0]

/-- The control message that answers a LOGINRET, with its header. -/
def startFrame (totalLen : Int) : List UInt8 :=
  netCmd moduleMsgControlPlay 0 (startControl totalLen).length ++ startControl totalLen

/-- The handling code of `recvPackData`, on a buffer with a complete frame. -/
def handle (c : TaskFileRecv) (outs₁ outs₂ : List SendResult) :
    Option (TaskFileRecv × List Act) :=
  let buf := c.mRecvBuffer.mem
  if dwCmd buf = moduleMsgLoginRet then do
    let c := { c with mTotalLen := asInt (loginRetTmEnd buf) }
    let o ← sendCmd moduleMsgControlPlay 0 (startControl c.mTotalLen) outs₁ outs₂
    some (c, o.acts)
  else if outs₁ = [] ∧ outs₂ = [] then
    if dwCmd buf = moduleMsgFiles then
      let nLength := asInt (fileGetLength buf)
      let count := asSize nLength
      let beyond := if 24 + count ≤ buf.length then [] else [Act.overrun]
      some ({ c with mRecvDataLen := wrapInt (c.mRecvDataLen + nLength) },
        .file c.mwFile :: .saved ((buf.drop 24).take count) :: beyond)
    else some (c, [])
  else none

/-- `recvPackData`: one `recv` of the payload, and the frame if it is complete. -/
def recvPackData (c : TaskFileRecv) (inbox : List UInt8) (r : RecvResult)
    (outs₁ outs₂ : List SendResult) : Option RecvStep :=
  let s := readPack netFormat c.mRecvBuffer.rx inbox r
  let c := { c with mRecvBuffer := c.mRecvBuffer.setRx s.rx }
  if s.done then do
    let f := s.rx.buf.take (sizeofNetCmd + s.rx.total.toNat)
    let (c, acts) ← c.handle outs₁ outs₂
    some ⟨s.ret, { c with mRecvBuffer := c.mRecvBuffer.reset }, s.inbox,
      .recv s.ask :: .frame .receiver f s.inbox :: acts⟩
  else if outs₁ = [] ∧ outs₂ = [] then some ⟨s.ret, c, s.inbox, [.recv s.ask]⟩
  else none

/-- `readBuffer`: a frame without payload is handled at the end of its header. -/
def readBuffer (c : TaskFileRecv) (inbox : List UInt8) (r₁ r₂ : RecvResult)
    (outs₁ outs₂ : List SendResult) : Option RecvStep :=
  if c.mRecvBuffer.bProcCmmd then
    let s := readHead netFormat c.mRecvBuffer.rx inbox r₁
    let c := { c with mRecvBuffer := c.mRecvBuffer.setRx s.rx }
    if s.done = true ∧ 0 < dwLength s.rx.buf then do
      let p ← c.recvPackData s.inbox r₂ outs₁ outs₂
      some { p with acts := .recv s.ask :: p.acts }
    else if outs₁ = [] ∧ outs₂ = [] then
      let acts := if s.done = true ∧ dwCmd s.rx.buf = moduleMsgDataEnd then [Act.dataEnd] else []
      some ⟨s.ret, c, s.inbox, .recv s.ask :: acts⟩
    else none
  else c.recvPackData inbox r₁ outs₁ outs₂

end TaskFileRecv

end FilesEvent
