import FilesEvent.EmptyFrames

/-! Sessions as objects of the process: those that `TcpServer::onAccept` creates
and those that `TcpClient::connect` creates, from the constructor to the
destructor. `Flags` is what a session keeps of its events, and what the event
library knows of them; every callback changes it by `fire`, `add` and `del`. -/

namespace FilesEvent
open Bytes Framing

/-! ## The log of the process -/

/-- The three event structures of a session. -/
inductive SessionEvent
  | read
  | write
  | time
  deriving DecidableEq, Repr

/-- What is done to events, descriptors and sessions. Sessions are numbered in
the order of their creation, clients by any number.

* `set pending`: `event_set` is applied to an event, which waits to fire or not;
* `del event isSet`: `event_del` is applied to an event, set before or not;
* `close p n other`: the session `p`, or its read callback, closes the
  descriptor `n`, which at that moment belongs to another session or not;
* `deref p live`: a call of a `TcpClient` uses the session `p`, destroyed or not;
* `connected i p`: the client `i` connects, and `p` is its session;
* `readZero p`: the read callback of `p` gets 0 from `readBuffer`;
* `disconnected i`: the client `i`, with a descriptor and a session, disconnects. -/
inductive Op
  | set (pending : Bool)
  | del (event : SessionEvent) (isSet : Bool)
  | close (p n : Nat) (other : Bool)
  | deref (p : Nat) (live : Bool)
  | connected (i p : Nat)
  | readZero (p : Nat)
  | disconnected (i : Nat)
  deriving DecidableEq, Repr

/-! ## Events of a session -/

namespace Session

variable {τ : Type}

/-- The `event_set` of `addEvent`, which is not reached while the flag is set. -/
def sets (s : Session τ) : EventKind → List Op
  | .read => if s.mReading then [] else [.set s.mReadEvent.pending]
  | .write => if s.mWriting then [] else [.set s.mWriteEvent.pending]

/-- `event_del`. -/
def eventDel (s : Session τ) : EventKind → Session τ
  | .read => { s with mReadEvent := { s.mReadEvent with pending := false } }
  | .write => { s with mWriteEvent := { s.mWriteEvent with pending := false } }

/-- What `onRead` does to the events when `readBuffer` has returned 0. -/
def quit (s : Session τ) : Session τ := (s.eventDel .read).eventDel .write
def quitOps (s : Session τ) : List Op :=
  [.del .read s.mReadEvent.isSet, .del .write s.mWriteEvent.isSet, .del .time false]

/-- What the destructor does to the events. -/
def destruct (s : Session τ) : Session τ :=
  let s := s.eventDel .read
  if s.mWriting then s.eventDel .write else s
def destructOps (s : Session τ) : List Op :=
  .del .read s.mReadEvent.isSet ::
    if s.mWriting then [.del .write s.mWriteEvent.isSet] else []

/-- The `event_set` of `readBuffer`: a control can make the task arm the write event. -/
def readSets (H : Handlers) (s : Session TaskFileSend) (inbox : List UInt8) (e : ReadEnv) :
    List Op :=
  match s.mTaskBase with
  | some t => if (t.readBuffer H.control inbox e.r₁ e.r₂).arm then s.sets .write else []
  | none => []

end Session

namespace Conn

/-- The `event_set` calls of `onAccept`. -/
def acceptSets (mReadBuff : List UInt8) : List Op :=
  let s : Session TaskFileSend := .new none mReadBuff
  s.sets .read ++ s.addReadEvent.sets .write

/-- The `event_set` calls of a callback. -/
def sets (c : Conn) : ConnEvent → List Op
  | .onRead H e =>
      let s := c.sess.fired .read
      match s.readBuffer H c.inbox e with
      | none => []
      | some g => s.readSets H c.inbox e ++ if g.ret = 0 then [] else g.sess.sets .read
  | .onWrite fr outs =>
      match (c.sess.fired .write).writeBuffer fr outs with
      | none => []
      | some (ret, s, _) => if ret = ownSockExit ∨ ret = 0 then [] else s.sets .write

end Conn

/-! ## The session of a client -/

/-- A session of a `TcpClient`, as `Conn` is one of the server. -/
structure ClientConn where
  sess : Session TaskFileRecv
  inbox : List UInt8
  acts : List Act
  alive : Bool

namespace ClientConn

/-- The constructor with `FILE_RECV_MSG`, which creates the task. -/
def new (block mReadBuff stream : List UInt8) : ClientConn :=
  ⟨.new (some (.new block)) mReadBuff, stream, [], true⟩

/-- `fetchFileAndSave`. -/
def fetchFileAndSave (c : ClientConn) (remoteFile : List UInt8) (opens : Bool)
    (outs₁ outs₂ : List SendResult) : Option ClientConn :=
  match c.sess.mTaskBase with
  | some t => (t.setFetchAndSaveFile remoteFile opens outs₁ outs₂).map fun (t, acts) =>
      { c with sess := { c.sess with mTaskBase := some t }, acts := c.acts ++ acts }
  | none => if outs₁ = [] ∧ outs₂ = [] then some c else none

/-- `Session::onRead`; a session of a client has a task from the start. -/
def onRead (c : ClientConn) (e : ClientEnv) : Option ClientConn := do
  let s := c.sess.fired .read
  let g ← (← s.mTaskBase).readBuffer c.inbox e.r₁ e.r₂ e.outs₁ e.outs₂
  let s := { s with mTaskBase := some g.task }
  if g.ret = 0 then some ⟨s, g.inbox, c.acts ++ g.acts, false⟩
  else some ⟨s.addEvent .read, g.inbox, c.acts ++ g.acts, true⟩

/-- The `event_set` of a callback. -/
def sets (c : ClientConn) (e : ClientEnv) : List Op :=
  match c.onRead e with
  | none => []
  | some c' => if c'.alive then (c.sess.fired .read).sets .read else []

/-- It fires only while the read event is pending. -/
def step (c : ClientConn) (e : ClientEnv) : Option ClientConn :=
  if c.alive = true ∧ c.sess.mReadEvent.pending = true then c.onRead e else none

end ClientConn

/-! ## Flags -/

/-- A flag of a session, and whether its event waits to fire. -/
structure Flag where
  on : Bool
  pending : Bool
  deriving DecidableEq, Repr

namespace Flag

/-- In the callback of the event. -/
def fired : Flag := ⟨false, false⟩

def add (f : Flag) : Flag := if f.on then f else ⟨true, true⟩

/-- The `event_set` of `add`. -/
def sets (f : Flag) : List Op := if f.on then [] else [.set f.pending]

def addIf (b : Bool) (f : Flag) : Flag := if b then f.add else f
def setsIf (b : Bool) (f : Flag) : List Op := if b then f.sets else []

/-- The flag tells whether the event waits to fire. -/
def Mirrors (f : Flag) : Prop := f.on = f.pending

/-- An event that waits to fire has its flag set. -/
def Covers (f : Flag) : Prop := f.pending = true → f.on = true

variable {f : Flag}

theorem Mirrors.covers (h : f.Mirrors) : f.Covers := fun hp => h.trans hp

theorem mirrors_fired : fired.Mirrors := rfl

theorem Mirrors.add (h : f.Mirrors) : f.add.Mirrors := by
  unfold Flag.add
  split
  · exact h
  · rfl

theorem Covers.add (h : f.Covers) : f.add.Covers := by
  unfold Flag.add
  split
  · exact h
  · exact fun _ => rfl

theorem Mirrors.addIf (h : f.Mirrors) (b : Bool) : (f.addIf b).Mirrors := by
  cases b
  · exact h
  · exact h.add

/-- No `event_set` is applied to an event that waits to fire. -/
theorem Covers.sets (h : f.Covers) {op : Op} (hop : op ∈ f.sets) : op = .set false := by
  unfold Flag.sets at hop
  split at hop
  · cases hop
  · rename_i hoff
    have hpending : f.pending = false := eq_false_of_ne_true fun hp => hoff (h hp)
    simpa [hpending] using hop

theorem Covers.setsIf (h : f.Covers) {b : Bool} {op : Op} (hop : op ∈ f.setsIf b) :
    op = .set false := by
  cases b
  · cases hop
  · exact h.sets hop

theorem pending_add (h : f.Mirrors) : f.add.pending = true := by
  unfold Flag.add
  split
  · rename_i hon
    exact h.symm.trans hon
  · rfl

end Flag

namespace Session

variable {τ : Type}

/-- An event of a session with its flag. -/
def event (s : Session τ) : EventKind → Bool × Event
  | .read => (s.mReading, s.mReadEvent)
  | .write => (s.mWriting, s.mWriteEvent)

/-- A request leaves the events alone. -/
theorem readRequest_event {H : Handlers} {s : Session TaskFileSend} {inbox : List UInt8}
    {e : ReadEnv} {g : SessionRead} (h : s.readRequest H inbox e = some g) (k : EventKind) :
    g.sess.event k = s.event k := by
  obtain ⟨-, ⟨-, -, -, hsess, -⟩ | ⟨-, after, hafter, -⟩⟩ := readRequest_cases h rfl
  · rw [hsess]
    cases k <;> rfl
  · cases hafter with
    | fetch path t judge task ret sess => rw [sess]; cases k <;> rfl
    | stay judge outs ret sess => rw [sess]; cases k <;> rfl
    | refuse judge outs ret sess => rw [sess]; cases k <;> rfl
    | overrun judge outs ret sess => rw [sess]; cases k <;> rfl

theorem writeBuffer_event {s s' : Session TaskFileSend} {fr : List UInt8}
    {outs : List SendResult} {ret : Int} {acts : List Act}
    (h : s.writeBuffer fr outs = some (ret, s', acts)) (k : EventKind) :
    s'.event k = s.event k := by
  unfold writeBuffer at h
  split at h
  · obtain ⟨w, -, hw⟩ := Option.map_eq_some_iff.mp h
    obtain ⟨-, hw⟩ := Prod.mk.inj hw
    obtain ⟨rfl, -⟩ := Prod.mk.inj hw
    cases k <;> rfl
  · split at h
    · obtain ⟨-, hw⟩ := Prod.mk.inj (Option.some.inj h)
      obtain ⟨rfl, -⟩ := Prod.mk.inj hw
      rfl
    · cases h

def flag (s : Session τ) : EventKind → Flag
  | .read => ⟨s.mReading, s.mReadEvent.pending⟩
  | .write => ⟨s.mWriting, s.mWriteEvent.pending⟩

theorem flag_eq (s : Session τ) (k : EventKind) :
    s.flag k = ⟨(s.event k).1, (s.event k).2.pending⟩ := by
  cases k <;> rfl

theorem flag_addEvent (s : Session τ) (k k' : EventKind) :
    (s.addEvent k).flag k' = if k' = k then (s.flag k).add else s.flag k' := by
  cases k <;> cases k' <;> simp only [addEvent, flag, Flag.add] <;> split <;> simp_all

theorem flag_fired (s : Session τ) (k k' : EventKind) :
    (s.fired k).flag k' = if k' = k then .fired else s.flag k' := by
  cases k <;> cases k' <;> rfl

theorem sets_eq (s : Session τ) (k : EventKind) : s.sets k = (s.flag k).sets := by
  cases k <;> rfl

theorem readBuffer_flag {H : Handlers} {s : Session TaskFileSend} {inbox : List UInt8}
    {e : ReadEnv} {g : SessionRead} (h : s.readBuffer H inbox e = some g) :
    ∃ arm, g.sess.flag .read = s.flag .read ∧ g.sess.flag .write = (s.flag .write).addIf arm ∧
      s.readSets H inbox e = (s.flag .write).setsIf arm := by
  rcases readBuffer_cases h with ⟨t, r, ht, -, hr, rfl⟩ | ⟨hnone, h⟩
  · refine ⟨r.arm, ?_⟩
    simp only [readSets, ht, hr]
    cases r.arm with
    | false => exact ⟨rfl, rfl, rfl⟩
    | true =>
      simp only [if_true, addWriteEvent_eq, flag_addEvent, sets_eq]
      exact ⟨rfl, rfl, rfl⟩
  · refine ⟨false, ?_⟩
    have hflag (k : EventKind) : g.sess.flag k = s.flag k := by
      rw [flag_eq, readRequest_event h, flag_eq]
    exact ⟨hflag .read, hflag .write, by simp only [readSets, hnone]; rfl⟩

theorem writeBuffer_flag {s s' : Session TaskFileSend} {fr : List UInt8}
    {outs : List SendResult} {ret : Int} {acts : List Act}
    (h : s.writeBuffer fr outs = some (ret, s', acts)) (k : EventKind) : s'.flag k = s.flag k := by
  rw [flag_eq, writeBuffer_event h, flag_eq]

end Session

/-- What a callback does to the flags `f` of a session, with the `event_set` calls
`ops`: a read callback arms the read event again if it leaves the session alive. -/
inductive Rearms (f f' : EventKind → Flag) (alive : Bool) (ops : List Op) : Prop
  | read (arm : Bool) (read : f' .read = Flag.fired.addIf alive)
      (write : f' .write = (f .write).addIf arm)
      (ops : ops = (f .write).setsIf arm ++ Flag.fired.setsIf alive)
  | write (arm : Bool) (live : alive = true) (read : f' .read = f .read)
      (write : f' .write = Flag.fired.addIf arm) (ops : ops = Flag.fired.setsIf arm)

theorem Conn.step_rearms {c c' : Conn} {e : ConnEvent} (h : c.step e = some c') :
    Rearms c.sess.flag c'.sess.flag c'.alive (c.sets e) := by
  obtain ⟨-, ⟨H, env, g, rfl, -, hg, rfl⟩ | ⟨fr, outs, ret, s, acts, rfl, -, hw, rfl⟩⟩ :=
    step_cases h
  · obtain ⟨arm, hread, hwrite, hsets⟩ := Session.readBuffer_flag hg
    rw [Session.flag_fired] at hread hwrite hsets
    simp only [if_true, reduceCtorEq, if_false] at hread hwrite hsets
    refine .read arm ?_ ?_ ?_
    · by_cases h0 : g.ret = 0
      · simpa [h0, Flag.addIf] using hread
      · simp [h0, Flag.addIf, Session.flag_addEvent, hread]
    · by_cases h0 : g.ret = 0
      · simpa [h0] using hwrite
      · simp [h0, Session.flag_addEvent, hwrite]
    · simp only [sets, hg, hsets, Session.sets_eq, hread]
      by_cases h0 : g.ret = 0 <;> simp [h0, Flag.setsIf]
  · have hflag := Session.writeBuffer_flag hw
    by_cases h0 : ret = ownSockExit ∨ ret = 0
    · refine .write false rfl ?_ ?_ ?_
      · simp [h0, hflag, Session.flag_fired]
      · simp [h0, hflag, Session.flag_fired, Flag.addIf]
      · simp [sets, hw, h0, Flag.setsIf]
    · refine .write true rfl ?_ ?_ ?_
      · simp [h0, hflag, Session.flag_fired, Session.flag_addEvent]
      · simp [h0, hflag, Session.flag_fired, Session.flag_addEvent, Flag.addIf]
      · simp [sets, hw, h0, Session.sets_eq, hflag, Session.flag_fired, Flag.setsIf]

namespace ClientConn

/-- The task of a client reads, and the session arms its read event again unless it
is to be closed. -/
theorem step_cases {c c' : ClientConn} {e : ClientEnv} (h : c.step e = some c') :
    c.alive = true ∧ c.sess.mReadEvent.pending = true ∧
      ∃ t g, c.sess.mTaskBase = some t ∧ t.readBuffer c.inbox e.r₁ e.r₂ e.outs₁ e.outs₂ = some g ∧
        ∃ s, s = { c.sess.fired .read with mTaskBase := some g.task } ∧
          c' = ⟨if g.ret = 0 then s else s.addEvent .read, g.inbox, c.acts ++ g.acts,
            decide (g.ret ≠ 0)⟩ := by
  unfold step at h
  split at h
  · rename_i hfire
    simp only [onRead, Option.bind_eq_bind, Option.bind_eq_some_iff] at h
    obtain ⟨t, ht, g, hg, h⟩ := h
    refine ⟨hfire.1, hfire.2, t, g, ht, hg, _, rfl, ?_⟩
    split at h
    · rename_i h0
      simpa [h0] using h.symm
    · rename_i h0
      simpa [h0] using h.symm
  · cases h

/-- A read callback of a client leaves the write event alone. -/
theorem step_flag {c c' : ClientConn} {e : ClientEnv} (h : c.step e = some c') :
    c'.sess.flag .read = Flag.fired.addIf c'.alive ∧ c'.sess.flag .write = c.sess.flag .write ∧
      c.sets e = Flag.fired.setsIf c'.alive := by
  have hread : c.onRead e = some c' := by
    unfold step at h
    split at h
    · exact h
    · cases h
  obtain ⟨-, -, t, g, -, -, s, hs, rfl⟩ := step_cases h
  have hflag : ∀ k, s.flag k = (c.sess.fired .read).flag k := by
    intro k
    rw [hs]
    cases k <;> rfl
  simp only [sets, hread, Session.sets_eq]
  by_cases h0 : g.ret = 0
  · simp [h0, hflag, Session.flag_fired, Flag.addIf, Flag.setsIf]
  · simp [h0, hflag, Session.flag_addEvent, Session.flag_fired, Flag.addIf, Flag.setsIf]

theorem step_rearms {c c' : ClientConn} {e : ClientEnv} (h : c.step e = some c') :
    Rearms c.sess.flag c'.sess.flag c'.alive (c.sets e) := by
  obtain ⟨hread, hwrite, hsets⟩ := step_flag h
  exact .read false hread hwrite hsets

end ClientConn

/-! ## Sessions of both kinds -/

inductive Body
  | server (c : Conn)
  | client (c : ClientConn)

/-- The callbacks of the event loop on a session. -/
inductive Callback
  | onRead (access : List UInt8 → Bool) (e : ReadEnv)
  | onReadClient (e : ClientEnv)
  | onWrite (fr : List UInt8) (outs : List SendResult)

namespace Body

def alive : Body → Bool
  | .server c => c.alive
  | .client c => c.alive

def flag : Body → EventKind → Flag
  | .server c => c.sess.flag
  | .client c => c.sess.flag

/-- A callback, with its `event_set` calls. Only sessions of the server arm the
write event. -/
def step : Body → Callback → Option (Body × List Op)
  | .server c, .onRead access e =>
      (c.step (.onRead (handlers access) e)).map fun c' =>
        (.server c', c.sets (.onRead (handlers access) e))
  | .server c, .onWrite fr outs =>
      (c.step (.onWrite fr outs)).map fun c' => (.server c', c.sets (.onWrite fr outs))
  | .client c, .onReadClient e => (c.step e).map fun c' => (.client c', c.sets e)
  | _, _ => none

/-- The events after `readBuffer` has returned 0. -/
def quit : Body → Body
  | .server c => .server { c with sess := c.sess.quit }
  | .client c => .client { c with sess := c.sess.quit }

def quitOps : Body → List Op
  | .server c => c.sess.quitOps
  | .client c => c.sess.quitOps

/-- The destructor. `TaskFileRecv` asks for the position in its save file. -/
def destruct : Body → Body
  | .server c => .server { c with sess := c.sess.destruct }
  | .client c => .client { c with
      sess := c.sess.destruct
      acts := c.acts ++ (c.sess.mTaskBase.map fun t => Act.file t.mwFile).toList }

def destructOps : Body → List Op
  | .server c => c.sess.destructOps
  | .client c => c.sess.destructOps

/-- `addReadEvent` by a client, after which the callbacks of a session that has
been closed but not destroyed run again. -/
def addReadEvent : Body → Body
  | .server c => .server { c with sess := c.sess.addReadEvent }
  | .client c => .client { c with sess := c.sess.addReadEvent, alive := true }

def addReadSets : Body → List Op
  | .server c => c.sess.sets .read
  | .client c => c.sess.sets .read

/-- The read callback completes a message that is a request for an existing file. -/
def requestsFile : Body → Callback → Bool
  | .server c, .onRead access e =>
      let f := readFrame netFormat c.sess.rx c.inbox e.r₁ e.r₂
      f.done && match Session.judge access f.rx.buf with
        | .fetch _ => true
        | _ => false
  | _, _ => false

/-- The callbacks that can run, and what each of them does. -/
inductive Steps : Body → Callback → Body → List Op → Prop
  | onRead {c c' : Conn} {access : List UInt8 → Bool} {e : ReadEnv} {g : SessionRead}
      (step : c.step (.onRead (handlers access) e) = some c')
      (read : (c.sess.fired .read).readBuffer (handlers access) c.inbox e = some g)
      (after : c' = ⟨if g.ret = 0 then g.sess else g.sess.addEvent .read, g.inbox, c.acts ++ g.acts,
        decide (g.ret ≠ 0)⟩) :
      Steps (.server c) (.onRead access e) (.server c') (c.sets (.onRead (handlers access) e))
  | onWrite {c c' : Conn} {fr : List UInt8} {outs : List SendResult} {ret : Int}
      {s : Session TaskFileSend} {acts : List Act} (step : c.step (.onWrite fr outs) = some c')
      (write : (c.sess.fired .write).writeBuffer fr outs = some (ret, s, acts))
      (after : c' = ⟨if ret = ownSockExit ∨ ret = 0 then s else s.addEvent .write, c.inbox,
        c.acts ++ acts, true⟩) :
      Steps (.server c) (.onWrite fr outs) (.server c') (c.sets (.onWrite fr outs))
  | onReadClient {c c' : ClientConn} {e : ClientEnv} (step : c.step e = some c') :
      Steps (.client c) (.onReadClient e) (.client c') (c.sets e)

theorem step_cases {b b' : Body} {cb : Callback} {ops : List Op}
    (h : b.step cb = some (b', ops)) : Steps b cb b' ops := by
  cases b with
  | server c =>
    cases cb with
    | onRead access e =>
      obtain ⟨c', hc, heq⟩ := Option.map_eq_some_iff.mp h
      obtain ⟨rfl, rfl⟩ := Prod.mk.inj heq
      obtain ⟨-, ⟨H, env, g, he, -, hg, hc'⟩ | ⟨_, _, _, _, _, he, -⟩⟩ := Conn.step_cases hc
      · obtain ⟨rfl, rfl⟩ := ConnEvent.onRead.inj he
        exact .onRead hc hg hc'
      · cases he
    | onWrite fr outs =>
      obtain ⟨c', hc, heq⟩ := Option.map_eq_some_iff.mp h
      obtain ⟨rfl, rfl⟩ := Prod.mk.inj heq
      obtain ⟨-, ⟨_, _, _, he, -⟩ | ⟨_, _, ret, s, acts, he, -, hw, hc'⟩⟩ := Conn.step_cases hc
      · cases he
      · obtain ⟨rfl, rfl⟩ := ConnEvent.onWrite.inj he
        exact .onWrite hc hw hc'
    | onReadClient e => cases h
  | client c =>
    cases cb with
    | onReadClient e =>
      obtain ⟨c', hc, heq⟩ := Option.map_eq_some_iff.mp h
      obtain ⟨rfl, rfl⟩ := Prod.mk.inj heq
      exact .onReadClient hc
    | onRead access e => cases h
    | onWrite fr outs => cases h

theorem step_rearms {b b' : Body} {cb : Callback} {ops : List Op}
    (h : b.step cb = some (b', ops)) : Rearms b.flag b'.flag b'.alive ops := by
  cases step_cases h with
  | onRead step => exact Conn.step_rearms step
  | onWrite step => exact Conn.step_rearms step
  | onReadClient step => exact ClientConn.step_rearms step

end Body

/-- `mStatus` of a session. -/
inductive SessionStatus
  | eNormal
  | eWouldExit
  | eExit
  deriving DecidableEq, Repr

/-- A session in memory. `fd` is the descriptor that `accept` or `connect`
returned; `sid`, the `mSid.sid` of the session and of its task, is what is left of
it in 16 bits. `mArg` tells whether `setGlobal` has been called. -/
structure Obj where
  fd : Nat
  sid : UInt16
  mStatus : SessionStatus
  mArg : Bool
  body : Body
  destroyed : Bool

/-- The session has been torn down: closed by `onRead`, or destroyed. -/
def Obj.torn (o : Obj) : Bool := o.destroyed || !o.body.alive

end FilesEvent
