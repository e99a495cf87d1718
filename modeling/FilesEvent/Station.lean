import FilesEvent.Objects
import FilesEvent.SessionManager

/-! A process with a `TcpServer` and any number of `TcpClient`s on one event loop:
the sessions in memory, the table of the `SessionManager`, and the descriptors.
Calls of clients, from another thread, come between any two steps of the loop; a
teardown by `onRead` is two steps, since it closes the descriptor a second time
after the destructor has. A call on a session that has been destroyed, or through a
null pointer, ends the run. -/

namespace FilesEvent
open Bytes Framing Runs

/-- `TcpClient`: its descriptor, 0 at first, and its session, NULL at first. -/
structure TcpClient where
  mSockId : Nat
  mSession : Option Nat

/-- `TcpServer`: the values of `setMaxConnections`, in order, and the limit that
`registerEvent` hands to the `EventGlobal`. -/
def TcpServer.mMaxConnections (calls : List Int) : Int :=
  calls.foldl (fun mMaxConnections n => if n > 0 then n else mMaxConnections) 256

/-- `heap` holds the sessions in the order of their creation, and `mSessionManager`
their numbers. `opened` tells which descriptors are open. `closing` is a teardown
whose second `close` is still to come, with the session and the descriptor. -/
structure Station where
  heap : List Obj
  mSessionManager : Option (SessionManager Nat)
  mMaxConnections : Int
  clients : Nat → TcpClient
  opened : Nat → Bool
  closing : Option (Nat × Nat)
  log : List Op
  crashed : Bool

/-- `accept`, `callback` and `close` are steps of the loop; `destroy` is that of the
`EventGlobal` when the loop has ended. -/
inductive StationEvent
  | accept (fd : Nat) (mReadBuff stream : List UInt8)
  | callback (p : Nat) (cb : Callback)
  | close
  | connect (i fd : Nat) (block mReadBuff stream : List UInt8)
  | registerEvent (i : Nat)
  | fetchAndSaveFile (i : Nat) (remoteFile : List UInt8) (opens : Bool)
      (outs₁ outs₂ : List SendResult)
  | disConnect (i : Nat)
  | destroy

/-- The client whose session a call uses, if it has one. -/
def StationEvent.usedBy : StationEvent → Option Nat
  | .registerEvent i | .fetchAndSaveFile i _ _ _ _ | .disConnect i => some i
  | _ => none

namespace Station

/-- The process at the start; `opened` are the descriptors it has by then. -/
def start (calls : List Int) (opened : Nat → Bool) : Station where
  heap := []
  mSessionManager := some .new
  mMaxConnections := TcpServer.mMaxConnections calls
  clients _ := ⟨0, none⟩
  opened := opened
  closing := none
  log := []
  crashed := false

/-! ## Descriptors and sessions -/

def note (s : Station) (ops : List Op) : Station := { s with log := s.log ++ ops }
def crash (s : Station) : Station := { s with crashed := true }

def setManager (s : Station) (m : SessionManager Nat) : Station :=
  { s with mSessionManager := some m }

/-- The session `p` becomes `o`. -/
def put (s : Station) (p : Nat) (o : Obj) (ops : List Op) : Station :=
  { s with heap := s.heap.set p o, log := s.log ++ ops }

/-- The descriptor `n` belongs to a session other than `p`. -/
def belongs (s : Station) (p n : Nat) : Bool :=
  s.heap.zipIdx.any fun oq => decide (oq.2 ≠ p) && !oq.1.torn && decide (oq.1.fd = n)

/-- `close(n)`, by the session `p` or its callback; it fails when `n` is not open. -/
def close (s : Station) (p n : Nat) : Station :=
  { s with opened := Function.update s.opened n false, log := s.log ++ [.close p n (s.belongs p n)] }

/-- `delete`, with the destructor of the session. -/
def delete (s : Station) (p : Nat) : Station :=
  match s.heap[p]? with
  | none => s
  | some o =>
      if o.destroyed then s.crash
      else (s.put p { o with body := o.body.destruct, destroyed := true }
        o.body.destructOps).close p o.sid.toNat

/-! ## The event loop -/

/-- `TcpServer::onAccept`. -/
def onAccept (s : Station) (fd : Nat) (mReadBuff stream : List UInt8) : Station :=
  match s.mSessionManager with
  | none => s.crash
  | some m =>
      let sid := UInt16.ofNat fd
      let m := (m.put sid (some s.heap.length)).1
      let mStatus : SessionStatus := if m.getCount > s.mMaxConnections then .eExit else .eNormal
      { s with
        heap := s.heap ++ [⟨fd, sid, mStatus, true, .server (.onAccept mReadBuff stream), false⟩]
        mSessionManager := some m
        opened := Function.update s.opened fd true
        log := s.log ++ Conn.acceptSets mReadBuff }

/-- The end of `onRead` when `readBuffer` has returned 0, up to the second `close`.
The session with the id of the descriptor is removed; it is deleted if it is `p`. -/
def quit (s : Station) (p : Nat) (o : Obj) : Station :=
  if o.mArg then
    match s.mSessionManager with
    | none => s.crash
    | some m =>
        let r := m.getAndRemove o.sid
        let s := (s.put p { o with body := o.body.quit } o.body.quitOps).setManager r.1
        if r.2.1 = some p then s.delete p else s
  else s

/-- The callback closes the descriptor too, if it is not 0. -/
def closeLater (s : Station) (p : Nat) (sid : UInt16) : Station :=
  if 0 < sid.toNat then { s with closing := some (p, sid.toNat) } else s

/-- A read or write callback of the session `p`. -/
def callback (s : Station) (p : Nat) (cb : Callback) : Option Station := do
  let o ← s.heap[p]?
  let (body, ops) ← o.body.step cb
  let o := { o with body := body }
  let s := s.put p o ops
  if body.alive then some s
  else some (((s.note [.readZero p]).quit p o).closeLater p o.sid)

/-! ## The calls of a client -/

/-- `connect`, when the connection is established: a failing one changes nothing. -/
def connect (s : Station) (i fd : Nat) (block mReadBuff stream : List UInt8) : Station :=
  { s with
    heap := s.heap ++
      [⟨fd, UInt16.ofNat fd, .eNormal, false, .client (.new block mReadBuff stream), false⟩]
    clients := Function.update s.clients i ⟨fd, some s.heap.length⟩
    opened := Function.update s.opened fd true
    log := s.log ++ [.connected i s.heap.length] }

/-- A call that uses the session of the client `i`, if there is one. -/
def useSession (s : Station) (i : Nat) (call : Station → Nat → Obj → Option Station) :
    Option Station :=
  match (s.clients i).mSession with
  | none => some s
  | some p =>
      match s.heap[p]? with
      | none => some s
      | some o =>
          let s := s.note [.deref p (!o.destroyed)]
          if o.destroyed then some s.crash else call s p o

/-- `registerEvent`, after its `setGlobal`. -/
def register (i : Nat) (s : Station) (p : Nat) (o : Obj) : Option Station :=
  match s.mSessionManager with
  | none => some s.crash
  | some m =>
      some ((s.put p { o with mArg := true, body := o.body.addReadEvent } o.body.addReadSets).setManager
        (m.put (UInt16.ofNat (s.clients i).mSockId) (some p)).1)

/-- `fetchFileAndSave` of the session. -/
def fetch (remoteFile : List UInt8) (opens : Bool) (outs₁ outs₂ : List SendResult)
    (s : Station) (p : Nat) (o : Obj) : Option Station :=
  match o.body with
  | .server _ => none
  | .client c => (c.fetchFileAndSave remoteFile opens outs₁ outs₂).map fun c =>
      s.put p { o with body := .client c } []

/-- `disConnect` with a session; `mArg` of one that is not registered is NULL. -/
def remove (i : Nat) (s : Station) (_ : Nat) (o : Obj) : Option Station :=
  if o.mArg then
    match s.mSessionManager with
    | none => some s.crash
    | some m =>
        let sid := UInt16.ofNat (s.clients i).mSockId
        let s := s.note [.disconnected i]
        if (m.get sid).1.isSome then
          let r := m.getAndRemove sid
          match r.2.1 with
          | some q => some ((s.setManager r.1).delete q)
          | none => some (s.setManager r.1)
        else some s
  else some s.crash

/-- The ids of the table. -/
def sids : List UInt16 := (List.range 65536).map UInt16.ofNat

/-- The destructor of the `SessionManager`, from the first of the ids `ids` on. -/
def deleteAll (m : SessionManager Nat) : List UInt16 → Station → Station
  | [], s => s
  | sid :: ids, s =>
      match (m.get sid).1 with
      | some q => deleteAll m ids (s.delete q)
      | none => deleteAll m ids s

/-- `EventGlobal::Destroy`. -/
def destroy (s : Station) : Station :=
  match s.mSessionManager with
  | none => s
  | some m => { deleteAll m sids s with mSessionManager := none }

/-- One step. The system hands out descriptors that are not open. The loop is
over when the `EventGlobal` has been destroyed. -/
def step (s : Station) (e : StationEvent) : Option Station :=
  if s.crashed then none
  else
    match e with
    | .accept fd mReadBuff stream =>
        if s.mSessionManager.isSome ∧ s.closing = none ∧ s.opened fd = false then
          some (s.onAccept fd mReadBuff stream)
        else none
    | .callback p cb =>
        if s.mSessionManager.isSome ∧ s.closing = none then s.callback p cb else none
    | .close => s.closing.map fun c => { s.close c.1 c.2 with closing := none }
    | .connect i fd block mReadBuff stream =>
        if s.opened fd = false then some (s.connect i fd block mReadBuff stream) else none
    | .registerEvent i => s.useSession i (register i)
    | .fetchAndSaveFile i remoteFile opens outs₁ outs₂ =>
        s.useSession i (fetch remoteFile opens outs₁ outs₂)
    | .disConnect i =>
        if 0 < (s.clients i).mSockId then s.useSession i (remove i) else some s
    | .destroy => if s.closing = none then some s.destroy else none

/-! ## What a step can do -/

/-- What a step can do: `idle` are calls that find no session, or no descriptor to
disconnect; `stale` and `null` are calls that end the run. -/
inductive Moves (s : Station) : StationEvent → Station → Prop
  | accept {fd : Nat} {mReadBuff stream : List UInt8} (m : SessionManager Nat)
      (manager : s.mSessionManager = some m) (closing : s.closing = none)
      (free : s.opened fd = false) :
      Moves s (.accept fd mReadBuff stream) (s.onAccept fd mReadBuff stream)
  | live {p : Nat} {cb : Callback} (o : Obj) (b : Body) (ops : List Op)
      (closing : s.closing = none) (heap : s.heap[p]? = some o)
      (body : o.body.step cb = some (b, ops)) (alive : b.alive = true) :
      Moves s (.callback p cb) (s.put p { o with body := b } ops)
  | dead {p : Nat} {cb : Callback} (o : Obj) (b : Body) (ops : List Op) (m : SessionManager Nat)
      (manager : s.mSessionManager = some m) (closing : s.closing = none)
      (heap : s.heap[p]? = some o) (body : o.body.step cb = some (b, ops))
      (alive : b.alive = false) :
      Moves s (.callback p cb) ((((s.put p { o with body := b } ops).note [.readZero p]).quit p
        { o with body := b }).closeLater p o.sid)
  | close {p n : Nat} (closing : s.closing = some (p, n)) :
      Moves s .close { s.close p n with closing := none }
  | connect {i fd : Nat} {block mReadBuff stream : List UInt8} (free : s.opened fd = false) :
      Moves s (.connect i fd block mReadBuff stream) (s.connect i fd block mReadBuff stream)
  | idle {e : StationEvent} {i : Nat} (call : e.usedBy = some i)
      (unused : ∀ p o, (s.clients i).mSession = some p → s.heap[p]? = some o →
        e = .disConnect i) : Moves s e s
  | stale {e : StationEvent} {i : Nat} (p : Nat) (o : Obj) (call : e.usedBy = some i)
      (client : (s.clients i).mSession = some p) (heap : s.heap[p]? = some o)
      (dead : o.destroyed = true) : Moves s e (s.note [.deref p false]).crash
  | null {e : StationEvent} {i : Nat} (p : Nat) (call : e.usedBy = some i) :
      Moves s e (s.note [.deref p true]).crash
  | register {i : Nat} (p : Nat) (o : Obj) (m : SessionManager Nat)
      (manager : s.mSessionManager = some m) (client : (s.clients i).mSession = some p)
      (heap : s.heap[p]? = some o) (live : o.destroyed = false) :
      Moves s (.registerEvent i) (((s.note [.deref p true]).put p
        { o with mArg := true, body := o.body.addReadEvent } o.body.addReadSets).setManager
          (m.put (UInt16.ofNat (s.clients i).mSockId) (some p)).1)
  | fetch {i : Nat} {remoteFile : List UInt8} {opens : Bool} {outs₁ outs₂ : List SendResult}
      (p : Nat) (o : Obj) (c c' : ClientConn) (client : (s.clients i).mSession = some p)
      (heap : s.heap[p]? = some o) (live : o.destroyed = false) (body : o.body = .client c)
      (fetch : c.fetchFileAndSave remoteFile opens outs₁ outs₂ = some c') :
      Moves s (.fetchAndSaveFile i remoteFile opens outs₁ outs₂)
        ((s.note [.deref p true]).put p { o with body := .client c' } [])
  | missing {i : Nat} (p : Nat) (o : Obj) (m : SessionManager Nat)
      (manager : s.mSessionManager = some m) (sockId : 0 < (s.clients i).mSockId)
      (client : (s.clients i).mSession = some p) (heap : s.heap[p]? = some o)
      (live : o.destroyed = false) (mArg : o.mArg = true)
      (get : (m.get (UInt16.ofNat (s.clients i).mSockId)).1 = none) :
      Moves s (.disConnect i) ((s.note [.deref p true]).note [.disconnected i])
  | remove {i : Nat} (p q : Nat) (o : Obj) (m : SessionManager Nat)
      (manager : s.mSessionManager = some m) (sockId : 0 < (s.clients i).mSockId)
      (client : (s.clients i).mSession = some p) (heap : s.heap[p]? = some o)
      (live : o.destroyed = false) (mArg : o.mArg = true)
      (get : (m.get (UInt16.ofNat (s.clients i).mSockId)).1 = some q) :
      Moves s (.disConnect i) ((((s.note [.deref p true]).note [.disconnected i]).setManager
        (m.getAndRemove (UInt16.ofNat (s.clients i).mSockId)).1).delete q)
  | destroy (closing : s.closing = none) : Moves s .destroy s.destroy

variable {s s' : Station} {e : StationEvent}

theorem useSession_moves {i : Nat} {call : Station → Nat → Obj → Option Station}
    (hi : e.usedBy = some i) (h : s.useSession i call = some s')
    (hlive : ∀ p o, (s.clients i).mSession = some p → s.heap[p]? = some o →
      o.destroyed = false → call (s.note [.deref p true]) p o = some s' → Moves s e s') :
    Moves s e s' := by
  unfold useSession at h
  split at h
  · rename_i hnone
    obtain rfl := Option.some.inj h
    exact .idle hi fun p o hp => by cases hnone.symm.trans hp
  · rename_i p hp
    split at h
    · rename_i hnone
      obtain rfl := Option.some.inj h
      refine .idle hi fun q o hq ho => ?_
      obtain rfl := Option.some.inj (hp.symm.trans hq)
      cases hnone.symm.trans ho
    · rename_i o ho
      cases hd : o.destroyed with
      | true =>
        simp only [hd, if_true, Option.some.injEq] at h
        subst h
        exact .stale p o hi hp ho hd
      | false =>
        simp only [hd, Bool.false_eq_true, if_false] at h
        exact hlive p o hp ho hd h

theorem step_moves (h : s.step e = some s') : s.crashed = false ∧ Moves s e s' := by
  unfold step at h
  split at h
  · cases h
  rename_i hrun
  refine ⟨eq_false_of_ne_true hrun, ?_⟩
  cases e with
  | accept fd mReadBuff stream =>
    simp only at h
    split at h
    · rename_i hguard
      obtain ⟨m, hm⟩ := Option.isSome_iff_exists.mp hguard.1
      obtain rfl := Option.some.inj h
      exact .accept m hm hguard.2.1 hguard.2.2
    · cases h
  | callback p cb =>
    simp only at h
    split at h
    · rename_i hguard
      obtain ⟨m, hm⟩ := Option.isSome_iff_exists.mp hguard.1
      simp only [callback, Option.bind_eq_bind, Option.bind_eq_some_iff] at h
      obtain ⟨o, ho, ⟨b, ops⟩, hb, h⟩ := h
      simp only at h
      split at h
      · rename_i halive
        obtain rfl := Option.some.inj h
        exact .live o b ops hguard.2 ho hb halive
      · rename_i hdead
        obtain rfl := Option.some.inj h
        exact .dead o b ops m hm hguard.2 ho hb (eq_false_of_ne_true hdead)
    · cases h
  | close =>
    obtain ⟨⟨p, n⟩, hc, rfl⟩ := Option.map_eq_some_iff.mp h
    exact .close hc
  | connect i fd block mReadBuff stream =>
    simp only at h
    split at h
    · rename_i hfree
      obtain rfl := Option.some.inj h
      exact .connect hfree
    · cases h
  | registerEvent i =>
    refine useSession_moves rfl h fun p o hp ho hd hcall => ?_
    unfold Station.register at hcall
    split at hcall
    · obtain rfl := Option.some.inj hcall
      exact .null p rfl
    · rename_i m hm
      obtain rfl := Option.some.inj hcall
      exact .register p o m hm hp ho hd
  | fetchAndSaveFile i remoteFile opens outs₁ outs₂ =>
    refine useSession_moves rfl h fun p o hp ho hd hcall => ?_
    unfold Station.fetch at hcall
    split at hcall
    · cases hcall
    · rename_i c hbody
      obtain ⟨c', hc', rfl⟩ := Option.map_eq_some_iff.mp hcall
      exact .fetch p o c c' hp ho hd hbody hc'
  | disConnect i =>
    simp only at h
    split at h
    · rename_i hsock
      refine useSession_moves rfl h fun p o hp ho hd hcall => ?_
      unfold Station.remove at hcall
      split at hcall
      · rename_i harg
        split at hcall
        · obtain rfl := Option.some.inj hcall
          exact .null p rfl
        · rename_i m hm
          simp only [SessionManager.getAndRemove_session] at hcall
          cases hget : (m.get (UInt16.ofNat (s.clients i).mSockId)).1 with
          | none =>
            have hget' : (m.get (UInt16.ofNat ((s.note [.deref p true]).clients i).mSockId)).1 =
              none := hget
            simp only [hget', Option.isSome_none, Bool.false_eq_true, if_false,
              Option.some.injEq] at hcall
            subst hcall
            exact .missing p o m hm hsock hp ho hd harg hget
          | some q =>
            have hget' : (m.get (UInt16.ofNat ((s.note [.deref p true]).clients i).mSockId)).1 =
              some q := hget
            simp only [hget', Option.isSome_some, if_true, Option.some.injEq] at hcall
            subst hcall
            exact .remove p q o m hm hsock hp ho hd harg hget
      · obtain rfl := Option.some.inj hcall
        exact .null p rfl
    · obtain rfl := Option.some.inj h
      exact .idle rfl fun _ _ _ _ => rfl
  | destroy =>
    simp only at h
    split at h
    · rename_i hclosing
      obtain rfl := Option.some.inj h
      exact .destroy hclosing
    · cases h

/-! ## The sessions in memory -/

theorem mem_heap_put {p q : Nat} {o x : Obj} (h : (s.heap.set p o)[q]? = some x) :
    (q = p ∧ x = o) ∨ (q ≠ p ∧ s.heap[q]? = some x) := by
  rw [List.getElem?_set] at h
  split at h
  · rename_i hp
    split at h
    · exact .inl ⟨hp.symm, (Option.some.inj h).symm⟩
    · cases h
  · rename_i hp
    exact .inr ⟨Ne.symm hp, h⟩

theorem heap_put {p : Nat} {o : Obj} (h : s.heap[p]? = some o) (o' : Obj) (ops : List Op)
    (q : Nat) : (s.put p o' ops).heap[q]? = if q = p then some o' else s.heap[q]? := by
  have hp : p < s.heap.length := (List.getElem?_eq_some_iff.mp h).1
  by_cases hq : q = p
  · simp [put, hq, hp]
  · simp [put, hq, Ne.symm hq]

theorem put_note_put (s : Station) (p : Nat) (o o' : Obj) (ops l ops' : List Op) :
    ((s.put p o ops).note l).put p o' ops' = s.put p o' (ops ++ l ++ ops') := by
  simp only [put, note, List.set_set, List.append_assoc]

theorem mem_heap_append {o x : Obj} {q : Nat} (h : (s.heap ++ [o])[q]? = some x) :
    (q = s.heap.length ∧ x = o) ∨ s.heap[q]? = some x := by
  rw [List.getElem?_append] at h
  split at h
  · exact .inr h
  · rename_i hq
    rw [List.getElem?_singleton] at h
    split at h
    · exact .inl ⟨by omega, (Option.some.inj h).symm⟩
    · cases h

/-- What `delete` does: nothing, or it ends the run, or the destructor. -/
theorem delete_cases (s : Station) (p : Nat) :
    (s.heap[p]? = none ∧ s.delete p = s) ∨
      ∃ o, s.heap[p]? = some o ∧
        ((o.destroyed = true ∧ s.delete p = s.crash) ∨
          (o.destroyed = false ∧ s.delete p =
            (s.put p { o with body := o.body.destruct, destroyed := true }
              o.body.destructOps).close p o.sid.toNat)) := by
  unfold delete
  cases hp : s.heap[p]? with
  | none => exact .inl ⟨rfl, rfl⟩
  | some o =>
    cases hd : o.destroyed with
    | true => exact .inr ⟨o, rfl, .inl ⟨hd, by simp [hd]⟩⟩
    | false => exact .inr ⟨o, rfl, .inr ⟨hd, by simp [hd]⟩⟩

/-- A session that is closed by its callback is deleted if the table has it. -/
theorem quit_eq {p : Nat} {o : Obj} {m : SessionManager Nat} (harg : o.mArg = true)
    (hm : s.mSessionManager = some m) :
    s.quit p o =
      let t := (s.put p { o with body := o.body.quit } o.body.quitOps).setManager
        (m.getAndRemove o.sid).1
      if (m.get o.sid).1 = some p then t.delete p else t := by
  simp only [quit, harg, if_true, hm, SessionManager.getAndRemove_session]

theorem destroyed_of_delete {p : Nat} {o : Obj} (h : (s.delete p).heap[p]? = some o) :
    o.destroyed = true := by
  rcases delete_cases s p with ⟨hnone, heq⟩ | ⟨x, hx, ⟨hd, heq⟩ | ⟨hd, heq⟩⟩
  · rw [heq, hnone] at h
    cases h
  · rw [heq] at h
    obtain rfl := Option.some.inj (hx.symm.trans h)
    exact hd
  · rw [heq] at h
    simp only [close, heap_put hx, if_true, Option.some.injEq] at h
    rw [← h]

theorem heap_delete_of_ne {p q : Nat} (h : q ≠ p) : (s.delete p).heap[q]? = s.heap[q]? := by
  rcases delete_cases s p with ⟨-, heq⟩ | ⟨x, hx, ⟨-, heq⟩ | ⟨-, heq⟩⟩
  · rw [heq]
  · rw [heq]
    rfl
  · rw [heq]
    simp only [close, heap_put hx, if_neg h]

theorem opened_delete {p : Nat} {o : Obj} (hp : s.heap[p]? = some o) (hlive : o.destroyed = false) :
    (s.delete p).opened o.sid.toNat = false := by
  simp [delete, hp, hlive, close]

theorem manager_delete (p : Nat) : (s.delete p).mSessionManager = s.mSessionManager := by
  rcases delete_cases s p with ⟨-, heq⟩ | ⟨x, hx, ⟨-, heq⟩ | ⟨-, heq⟩⟩ <;> rw [heq] <;> rfl

@[simp] theorem heap_closeLater (s : Station) (p : Nat) (sid : UInt16) :
    (s.closeLater p sid).heap = s.heap := by
  unfold closeLater
  split <;> rfl

/-- What the deletion of each session in the table keeps, the destructor of the
table keeps. -/
theorem deleteAll_induction {I : Station → Prop} {m : SessionManager Nat}
    (hdelete : ∀ s k q, (m.get k).1 = some q → I s → I (s.delete q)) (ids : List UInt16)
    {s : Station} (h : I s) : I (deleteAll m ids s) := by
  induction ids generalizing s with
  | nil => exact h
  | cons sid ids ih =>
    unfold deleteAll
    split
    · rename_i q hget
      exact ih (hdelete s sid q hget h)
    · exact ih h

/-- What every deletion keeps, and the loss of the table, `Destroy` keeps. -/
theorem destroy_induction {I : Station → Prop} (hdelete : ∀ s q, I s → I (s.delete q))
    (hclear : ∀ s, I s → I { s with mSessionManager := none }) (h : I s) : I s.destroy := by
  unfold destroy
  split
  · exact h
  · rename_i m _
    have hall := deleteAll_induction (fun s _ q (_ : (m.get _).1 = some q) => hdelete s q) sids h
    generalize deleteAll m sids s = t at hall
    exact hclear t hall

theorem manager_destroy (s : Station) : s.destroy.mSessionManager = none := by
  unfold destroy
  split
  · assumption
  · rfl

end Station

end FilesEvent
