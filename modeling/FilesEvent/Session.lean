import FilesEvent.TaskFileSend

/-! `Session.cpp` for a session of the server: the session reads the request,
creates the task that serves it, and keeps its read and write events armed. The
task of the session is a parameter where it does not matter. -/

namespace FilesEvent
open Bytes Framing

/-! ## Events -/

/-- An event of the event library: `event_set` has been applied to it, and it
waits to fire. -/
structure Event where
  isSet : Bool
  pending : Bool
  deriving DecidableEq, Repr

inductive EventKind
  | read
  | write
  deriving DecidableEq, Repr

/-- A session with a task of type `τ`. -/
structure Session (τ : Type) where
  mTaskBase : Option τ
  mReadEvent : Event
  mWriteEvent : Event
  mWriting : Bool
  mReading : Bool
  mTotalDataLen : Int
  mHasRecvLen : Int
  mbRecvHead : Bool
  mReadBuff : List UInt8

namespace Session

variable {τ : Type}

/-- The constructor; `mReadBuff` is not initialised. -/
def new (task : Option τ) (mReadBuff : List UInt8) : Session τ where
  mTaskBase := task
  mReadEvent := ⟨false, false⟩
  mWriteEvent := ⟨false, false⟩
  mWriting := false
  mReading := false
  mTotalDataLen := 0
  mHasRecvLen := 0
  mbRecvHead := true
  mReadBuff := mReadBuff

/-- `addEvent`: sets the flag, then `event_set`, `event_base_set`, `event_add`. -/
def addEvent (s : Session τ) : EventKind → Session τ
  | .write => if s.mWriting then s else { s with mWriting := true, mWriteEvent := ⟨true, true⟩ }
  | .read => if s.mReading then s else { s with mReading := true, mReadEvent := ⟨true, true⟩ }

def addReadEvent (s : Session τ) : Session τ :=
  if s.mReading then s else { s.addEvent .read with mReading := true }

def addWriteEvent (s : Session τ) : Session τ :=
  if s.mWriting then s else { s.addEvent .write with mWriting := true }

/-- What the callbacks start with: the event, which is not persistent, no longer
waits, and `setReading(0)` or `setWriting(0)` has cleared its flag. -/
def fired (s : Session τ) : EventKind → Session τ
  | .read => { s with mReading := false, mReadEvent := { s.mReadEvent with pending := false } }
  | .write => { s with mWriting := false, mWriteEvent := { s.mWriteEvent with pending := false } }

/-- The fields that frames go through while there is no task. -/
def rx (s : Session τ) : Rx := ⟨s.mReadBuff, s.mbRecvHead, s.mHasRecvLen, s.mTotalDataLen⟩
def setRx (s : Session τ) (x : Rx) : Session τ :=
  { s with mReadBuff := x.buf, mbRecvHead := x.head, mHasRecvLen := x.has, mTotalDataLen := x.total }

@[simp] theorem rx_setRx (s : Session τ) (x : Rx) : (s.setRx x).rx = x := rfl

end Session

/-! ## The request -/

/-- What handling the request amounts to: `refuse` when the path does not exist,
`stay` when the session goes on without a task. -/
inductive Verdict
  | refuse
  | stay
  | fetch (path : List UInt8)
  | overrun
  deriving DecidableEq, Repr

/-- The first of the three lookups that reports a positive length decides
`dataType`; each leaves its value in `fetchPath`. -/
def Session.dataType (mReadBuff : List UInt8) : Option (Int × List UInt8) := do
  let play ← protoGetValueByName mReadBuff (lit "play path") (zeros 256)
  if 0 < play.pValueLen then some (0, play.pValueOut)
  else
    let get ← protoGetValueByName mReadBuff (lit "get path") play.pValueOut
    if 0 < get.pValueLen then some (1, get.pValueOut)
    else
      let real ← protoGetValueByName mReadBuff (lit "play real") get.pValueOut
      if 0 < real.pValueLen then some (2, real.pValueOut) else some (-1, real.pValueOut)

/-- The handling code of `recvPackData` up to the creation of the task. `access`
tells which paths exist. -/
def Session.judge (access : List UInt8 → Bool) (mReadBuff : List UInt8) : Verdict :=
  match Session.dataType mReadBuff with
  | none => .overrun
  | some (dataType, fetchPath) =>
      match cString fetchPath with
      | none => .overrun
      | some path =>
          if access path = false then .refuse
          else if dataType = 1 then .fetch path
          else .stay

/-! ## Reading and writing -/

/-- The two pieces of code that handle a complete frame of the client. Results
about framing hold for any of them; `handlers` are those of the source. -/
structure Handlers where
  judge : List UInt8 → Verdict
  control : List UInt8 → Control

def handlers (access : List UInt8 → Bool) : Handlers :=
  ⟨Session.judge access, TaskFileSend.control⟩

/-- The environment of one read callback: the two `recv` calls, and what a new
task meets in `setFetchFile`. -/
structure ReadEnv where
  r₁ : RecvResult
  r₂ : RecvResult
  opens : Bool
  stSize : Nat
  outs : List SendResult

structure SessionRead where
  ret : Int
  sess : Session TaskFileSend
  inbox : List UInt8
  acts : List Act

namespace Session

/-- `readBuffer` of a session without a task, with its `recvPackData`. -/
def readRequest (H : Handlers) (s : Session TaskFileSend) (inbox : List UInt8) (e : ReadEnv) :
    Option SessionRead :=
  let f := readFrame netFormat s.rx inbox e.r₁ e.r₂
  let s := s.setRx f.rx
  let acts := f.asks.map Act.recv
  let back : Rx := ⟨f.rx.buf, true, 0, 0⟩
  if f.done then
    let acts := acts ++ [.frame .session (f.rx.buf.take (sizeofNetCmd + f.rx.total.toNat)) f.inbox]
    match H.judge f.rx.buf with
    | .fetch path => do
        let t ← TaskFileSend.new.setFetchFile e.opens e.stSize e.outs
        some ⟨f.ret, { s.setRx back with mTaskBase := some t.task }, f.inbox,
          acts ++ .fetch path :: t.acts⟩
    | .stay => if e.outs = [] then some ⟨f.ret, s.setRx back, f.inbox, acts⟩ else none
    | .refuse => if e.outs = [] then some ⟨0, s, f.inbox, acts⟩ else none
    | .overrun => if e.outs = [] then some ⟨0, s, f.inbox, acts ++ [.overrun]⟩ else none
  else if e.outs = [] then some ⟨f.ret, s, f.inbox, acts⟩
  else none

/-- `readBuffer`: the task reads for the session once there is one. -/
def readBuffer (H : Handlers) (s : Session TaskFileSend) (inbox : List UInt8) (e : ReadEnv) :
    Option SessionRead :=
  match s.mTaskBase with
  | some t =>
      if e.outs = [] then
        let g := t.readBuffer H.control inbox e.r₁ e.r₂
        let s := { s with mTaskBase := some g.task }
        some ⟨g.ret, if g.arm then s.addWriteEvent else s, g.inbox, g.acts⟩
      else none
  | none => s.readRequest H inbox e

/-- `writeBuffer`. -/
def writeBuffer (s : Session TaskFileSend) (fr : List UInt8) (outs : List SendResult) :
    Option (Int × Session TaskFileSend × List Act) :=
  match s.mTaskBase with
  | some t => (t.writeBuffer fr outs).map fun w =>
      (w.ret, { s with mTaskBase := some w.task }, w.acts)
  | none => if outs = [] then some (0, s, []) else none

end Session

/-! ## What reading the request can do -/

namespace Session

/-- The outcomes of handling a complete frame, in which the session does `after`. -/
inductive Handled (H : Handlers) (s : Session TaskFileSend) (e : ReadEnv) (f : FrameStep)
    (g : SessionRead) : List Act → Prop
  | fetch (path : List UInt8) (t : SendStep) (judge : H.judge f.rx.buf = .fetch path)
      (task : TaskFileSend.new.setFetchFile e.opens e.stSize e.outs = some t) (ret : g.ret = f.ret)
      (sess : g.sess = { s.setRx ⟨f.rx.buf, true, 0, 0⟩ with mTaskBase := some t.task }) :
      Handled H s e f g (.fetch path :: t.acts)
  | stay (judge : H.judge f.rx.buf = .stay) (outs : e.outs = []) (ret : g.ret = f.ret)
      (sess : g.sess = s.setRx ⟨f.rx.buf, true, 0, 0⟩) : Handled H s e f g []
  | refuse (judge : H.judge f.rx.buf = .refuse) (outs : e.outs = []) (ret : g.ret = 0)
      (sess : g.sess = s.setRx f.rx) : Handled H s e f g []
  | overrun (judge : H.judge f.rx.buf = .overrun) (outs : e.outs = []) (ret : g.ret = 0)
      (sess : g.sess = s.setRx f.rx) : Handled H s e f g [.overrun]

/-- A read callback of a session without a task. -/
theorem readRequest_cases {H : Handlers} {s : Session TaskFileSend} {inbox : List UInt8}
    {e : ReadEnv} {g : SessionRead} {f : FrameStep} (h : s.readRequest H inbox e = some g)
    (hf : readFrame netFormat s.rx inbox e.r₁ e.r₂ = f) :
    g.inbox = f.inbox ∧
      ((f.done = false ∧ e.outs = [] ∧ g.ret = f.ret ∧ g.sess = s.setRx f.rx ∧
          g.acts = f.asks.map .recv) ∨
        (f.done = true ∧ ∃ after, Handled H s e f g after ∧
          g.acts = f.asks.map .recv ++
            .frame .session (f.rx.buf.take (sizeofNetCmd + f.rx.total.toNat)) f.inbox :: after)) := by
  unfold readRequest at h
  simp only [hf] at h
  split at h
  · rename_i hdone
    split at h
    · rename_i path hj
      simp only [Option.bind_eq_bind, Option.bind_eq_some_iff, Option.some.injEq] at h
      obtain ⟨t, ht, rfl⟩ := h
      exact ⟨rfl, .inr ⟨hdone, _, .fetch path t hj ht rfl rfl, by simp⟩⟩
    · rename_i hj
      split at h
      · rename_i houts
        obtain rfl := Option.some.inj h
        exact ⟨rfl, .inr ⟨hdone, _, .stay hj houts rfl rfl, rfl⟩⟩
      · cases h
    · rename_i hj
      split at h
      · rename_i houts
        obtain rfl := Option.some.inj h
        exact ⟨rfl, .inr ⟨hdone, _, .refuse hj houts rfl rfl, rfl⟩⟩
      · cases h
    · rename_i hj
      split at h
      · rename_i houts
        obtain rfl := Option.some.inj h
        exact ⟨rfl, .inr ⟨hdone, _, .overrun hj houts rfl rfl, by simp⟩⟩
      · cases h
  · rename_i hdone
    split at h
    · rename_i houts
      obtain rfl := Option.some.inj h
      exact ⟨rfl, .inl ⟨eq_false_of_ne_true hdone, houts, rfl, rfl, rfl⟩⟩
    · cases h

/-- A read callback: the task reads, or the session reads the request. -/
theorem readBuffer_cases {H : Handlers} {s : Session TaskFileSend} {inbox : List UInt8}
    {e : ReadEnv} {g : SessionRead} (h : s.readBuffer H inbox e = some g) :
    (∃ t r, s.mTaskBase = some t ∧ e.outs = [] ∧ t.readBuffer H.control inbox e.r₁ e.r₂ = r ∧
        g = ⟨r.ret, if r.arm then { s with mTaskBase := some r.task }.addWriteEvent
          else { s with mTaskBase := some r.task }, r.inbox, r.acts⟩) ∨
      (s.mTaskBase = none ∧ s.readRequest H inbox e = some g) := by
  unfold readBuffer at h
  split at h
  · rename_i t ht
    split at h
    · rename_i houts
      exact .inl ⟨t, _, ht, houts, rfl, (Option.some.inj h).symm⟩
    · cases h
  · rename_i hnone
    exact .inr ⟨hnone, h⟩

end Session

/-! ## The session in the event loop -/

/-- A session as the event loop runs it: the stream from the peer not yet
received, what the callbacks have done, and whether the session still exists. -/
structure Conn where
  sess : Session TaskFileSend
  inbox : List UInt8
  acts : List Act
  alive : Bool

inductive ConnEvent
  | onRead (H : Handlers) (e : ReadEnv)
  | onWrite (fr : List UInt8) (outs : List SendResult)

namespace Conn

/-- `TcpServer::onAccept`: a new session with both events armed. `stream` is
all the peer will ever send. -/
def onAccept (mReadBuff stream : List UInt8) : Conn where
  sess := (Session.new none mReadBuff).addReadEvent.addWriteEvent
  inbox := stream
  acts := []
  alive := true

/-- `Session::onRead` when the read event fires. On 0 the session is removed
from the table, its events are deleted, and it is destroyed. -/
def onRead (H : Handlers) (c : Conn) (e : ReadEnv) : Option Conn := do
  let g ← (c.sess.fired .read).readBuffer H c.inbox e
  if g.ret = 0 then some ⟨g.sess, g.inbox, c.acts ++ g.acts, false⟩
  else some ⟨g.sess.addEvent .read, g.inbox, c.acts ++ g.acts, true⟩

/-- `Session::onWrite` when the write event fires. -/
def onWrite (c : Conn) (fr : List UInt8) (outs : List SendResult) : Option Conn := do
  let (ret, s, acts) ← (c.sess.fired .write).writeBuffer fr outs
  if ret = ownSockExit then some ⟨s, c.inbox, c.acts ++ acts, true⟩
  else if ret ≠ 0 then some ⟨s.addEvent .write, c.inbox, c.acts ++ acts, true⟩
  else some ⟨s, c.inbox, c.acts ++ acts, true⟩

/-- Both callbacks fire only while their event is pending. -/
def step (c : Conn) : ConnEvent → Option Conn
  | .onRead H e => if c.alive = true ∧ c.sess.mReadEvent.pending = true then c.onRead H e else none
  | .onWrite fr outs =>
      if c.alive = true ∧ c.sess.mWriteEvent.pending = true then c.onWrite fr outs else none

/-- A callback fires on a session that exists; it does what the session does,
and arms its event again or not. -/
theorem step_cases {c c' : Conn} {e : ConnEvent} (h : c.step e = some c') :
    c.alive = true ∧
      ((∃ H env g, e = .onRead H env ∧ c.sess.mReadEvent.pending = true ∧
          (c.sess.fired .read).readBuffer H c.inbox env = some g ∧
          c' = ⟨if g.ret = 0 then g.sess else g.sess.addEvent .read, g.inbox, c.acts ++ g.acts,
            decide (g.ret ≠ 0)⟩) ∨
        (∃ fr outs ret s acts, e = .onWrite fr outs ∧ c.sess.mWriteEvent.pending = true ∧
          (c.sess.fired .write).writeBuffer fr outs = some (ret, s, acts) ∧
          c' = ⟨if ret = ownSockExit ∨ ret = 0 then s else s.addEvent .write, c.inbox,
            c.acts ++ acts, true⟩)) := by
  cases e with
  | onRead H env =>
    simp only [step] at h
    split at h
    · rename_i hfire
      simp only [onRead, Option.bind_eq_bind, Option.bind_eq_some_iff] at h
      obtain ⟨g, hg, h⟩ := h
      refine ⟨hfire.1, .inl ⟨H, env, g, rfl, hfire.2, hg, ?_⟩⟩
      split at h
      · rename_i h0
        simpa [h0] using h.symm
      · rename_i h0
        simpa [h0] using h.symm
    · cases h
  | onWrite fr outs =>
    simp only [step] at h
    split at h
    · rename_i hfire
      simp only [onWrite, Option.bind_eq_bind, Option.bind_eq_some_iff] at h
      obtain ⟨⟨ret, s, acts⟩, hw, h⟩ := h
      refine ⟨hfire.1, .inr ⟨fr, outs, ret, s, acts, rfl, hfire.2, hw, ?_⟩⟩
      simp only at h
      split at h
      · rename_i h0
        simpa [h0] using h.symm
      · split at h
        · rename_i h0 h1
          simpa [h0, h1] using h.symm
        · rename_i h0 h1
          have h2 : ret = 0 := Classical.byContradiction h1
          simpa [h0, h2] using h.symm
    · cases h

end Conn

end FilesEvent
