import FilesEvent.Closes

/-! The calls of a `TcpClient` and its session. `mSession` is set by `connect` only:
when the session is deleted, by its read callback or by `disConnect`, the client
keeps the pointer, and its next call uses it. -/

namespace FilesEvent
open Bytes Framing Runs

/-- What an entry of the log does to the session that the client `i` may use. -/
def track (i : Nat) (session : Option Nat) : Op → Option Nat
  | .connected j p => if j = i then some p else session
  | .readZero p => if session = some p then none else session
  | .disconnected j => if j = i then none else session
  | _ => session

/-- The session of the last `connect` of the client `i`, if since then its read
callback has not got 0 from `readBuffer` and the client has not disconnected. -/
def connection (i : Nat) (log : List Op) : Option Nat := log.foldl (track i) none

/-- An entry that is not about a connection, nor a use of a destroyed session. -/
def Op.silent : Op → Bool
  | .set _ | .del _ _ | .close _ _ _ | .deref _ true => true
  | _ => false

variable {ops : List Op} {i p q : Nat} {o o' : Obj}

theorem track_silent {op : Op} (h : op.silent = true) (session : Option Nat) :
    track i session op = session := by
  cases op with
  | connected => cases h
  | readZero => cases h
  | disconnected => cases h
  | _ => rfl

theorem connection_append_silent (log : List Op) (h : ∀ op ∈ ops, op.silent = true) :
    connection i (log ++ ops) = connection i log := by
  rw [connection, List.foldl_append]
  change ops.foldl (track i) (connection i log) = connection i log
  induction ops with
  | nil => rfl
  | cons op ops ih =>
    rw [List.foldl_cons, track_silent (h op List.mem_cons_self)]
    exact ih fun op hop => h op (List.mem_cons_of_mem _ hop)

theorem connection_concat (log : List Op) (op : Op) :
    connection i (log ++ [op]) = track i (connection i log) op := by
  rw [connection, List.foldl_append]
  rfl

theorem silent_of_onEvent (h : ∀ op ∈ ops, op.onEvent = true) : ∀ op ∈ ops, op.silent = true := by
  intro op hop
  have hevent := h op hop
  cases op with
  | set => rfl
  | del => rfl
  | _ => cases hevent

/-- The steps of a process in which no client but `i` makes calls, while the loop runs. -/
def StationEvent.ofClient (i : Nat) : StationEvent → Bool
  | .connect j _ _ _ _ | .registerEvent j | .fetchAndSaveFile j _ _ _ _ | .disConnect j => j = i
  | .accept _ _ _ | .callback _ _ | .close => true
  | .destroy => false

namespace Station

variable {s s' t : Station} {e : StationEvent}

/-- One step of such a process. -/
def interleave (i : Nat) (s : Station) (e : StationEvent) : Option Station :=
  if e.ofClient i then s.step e else none

theorem interleave_step (h : s.interleave i e = some s') :
    e.ofClient i = true ∧ s.step e = some s' := by
  unfold interleave at h
  split at h
  · rename_i he
    exact ⟨he, h⟩
  · cases h

/-- A call that uses the session is made while the connection stands. -/
def UsesConnected (i : Nat) (s : Station) (e : StationEvent) : Prop :=
  e.usedBy = some i → (s.clients i).mSession ≠ none → connection i s.log ≠ none

instance (i : Nat) (s : Station) (e : StationEvent) : Decidable (UsesConnected i s e) :=
  inferInstanceAs (Decidable (_ → _ → _))

/-- While the connection stands, `mSession` points to its session, which has not been
destroyed; and no call has used one that had been. -/
structure Attached (i : Nat) (s : Station) : Prop where
  session : ∀ p, connection i s.log = some p → (s.clients i).mSession = some p ∧
    ∃ o : Obj, s.heap[p]? = some o ∧ o.destroyed = false
  derefs : ∀ p, .deref p false ∉ s.log

theorem Attached.extend (h : s.Attached i) (hops : ∀ op ∈ ops, op.silent = true)
    (hlog : t.log = s.log ++ ops) (hclient : t.clients i = s.clients i)
    (hheap : ∀ (p : Nat) (o : Obj), connection i s.log = some p → s.heap[p]? = some o →
      o.destroyed = false → ∃ x : Obj, t.heap[p]? = some x ∧ x.destroyed = false) :
    t.Attached i where
  session p hp := by
    rw [hlog, connection_append_silent _ hops] at hp
    obtain ⟨hsession, o, ho, hlive⟩ := h.session p hp
    rw [hclient]
    exact ⟨hsession, hheap p o hp ho hlive⟩
  derefs p hp := by
    rw [hlog] at hp
    rcases List.mem_append.mp hp with hp | hp
    · exact h.derefs p hp
    · cases hops _ hp

theorem Attached.note (h : s.Attached i) (hops : ∀ op ∈ ops, op.silent = true) :
    (s.note ops).Attached i :=
  h.extend hops rfl rfl fun _ o _ ho hlive => ⟨o, ho, hlive⟩

theorem Attached.crash (h : s.Attached i) : s.crash.Attached i := ⟨h.session, h.derefs⟩
theorem Attached.setManager (h : s.Attached i) (m : SessionManager Nat) :
    (s.setManager m).Attached i :=
  ⟨h.session, h.derefs⟩

theorem Attached.put (h : s.Attached i) (hp : s.heap[p]? = some o)
    (hops : ∀ op ∈ ops, op.silent = true)
    (hlive : connection i s.log = some p → o'.destroyed = o.destroyed) :
    (s.put p o' ops).Attached i := by
  refine h.extend hops rfl rfl fun q x hq hx hxl => ?_
  rw [heap_put hp]
  by_cases hqp : q = p
  · subst hqp
    obtain rfl := Option.some.inj (hp.symm.trans hx)
    exact ⟨o', by rw [if_pos rfl], (hlive hq).trans hxl⟩
  · exact ⟨x, by rw [if_neg hqp]; exact hx, hxl⟩

/-- A session that is not the client's is deleted. -/
theorem Attached.delete (h : s.Attached i) (hne : connection i s.log ≠ some p) :
    (s.delete p).Attached i := by
  rcases delete_cases s p with ⟨-, heq⟩ | ⟨o, hp, ⟨-, heq⟩ | ⟨-, heq⟩⟩
  · rw [heq]
    exact h
  · rw [heq]
    exact h.crash
  · rw [heq]
    have hput : (s.put p { o with body := o.body.destruct, destroyed := true }
        o.body.destructOps).Attached i :=
      h.put hp (silent_of_onEvent (onEvent_destructOps o.body)) fun hc => absurd hc hne
    have hclose : ∀ op ∈ [Op.close p o.sid.toNat ((s.put p { o with
        body := o.body.destruct, destroyed := true } o.body.destructOps).belongs p o.sid.toNat)],
        op.silent = true := by
      simp [Op.silent]
    exact hput.extend hclose rfl rfl fun _ x _ hx hxl => ⟨x, hx, hxl⟩

/-- The connection ends: the session may go. -/
theorem Attached.ends (h : s.Attached i) {op : Op} (hop : ∀ p, op ≠ .deref p false)
    (hc : ∀ p, track i (connection i s.log) op = some p → connection i s.log = some p) :
    (s.note [op]).Attached i where
  session p hp := by
    have hlog : (s.note [op]).log = s.log ++ [op] := rfl
    rw [hlog, connection_concat] at hp
    exact h.session p (hc p hp)
  derefs p hp := by
    rcases List.mem_append.mp hp with hp | hp
    · exact h.derefs p hp
    · exact hop p (List.mem_singleton.mp hp).symm

theorem Attached.closeLater (h : s.Attached i) (p : Nat) (sid : UInt16) :
    (s.closeLater p sid).Attached i := by
  unfold Station.closeLater
  split
  · exact ⟨h.session, h.derefs⟩
  · exact h

/-- The end of a read callback that has got 0 from `readBuffer` concerns its own
session only. -/
theorem Attached.quit (h : s.Attached i) (hne : connection i s.log ≠ some p)
    (hp : s.heap[p]? = some o) (harg : o.mArg = true) {m : SessionManager Nat}
    (hm : s.mSessionManager = some m) : (s.quit p o).Attached i := by
  have hops := silent_of_onEvent (onEvent_quitOps o.body)
  have hput : (s.put p { o with body := o.body.quit } o.body.quitOps).Attached i :=
    h.put hp hops fun hc => absurd hc hne
  have hlog : connection i (s.put p { o with body := o.body.quit } o.body.quitOps).log =
      connection i s.log := connection_append_silent s.log hops
  simp only [quit_eq harg hm]
  split
  · exact (hput.setManager _).delete (fun hc => hne (hlog.symm.trans hc))
  · exact hput.setManager _

theorem Attached.connect (h : s.Attached i) (fd : Nat) (block mReadBuff stream : List UInt8) :
    (s.connect i fd block mReadBuff stream).Attached i where
  session p hp := by
    have hlog : (s.connect i fd block mReadBuff stream).log =
        s.log ++ [.connected i s.heap.length] := rfl
    rw [hlog, connection_concat] at hp
    obtain rfl : s.heap.length = p := by simpa [track] using hp
    exact ⟨by simp [Station.connect], _, List.getElem?_concat_length, rfl⟩
  derefs p hp := by
    rcases List.mem_append.mp hp with hp | hp
    · exact h.derefs p hp
    · simp at hp

/-- A session that gets 0 from `readBuffer` is not one that the client may use. -/
theorem Attached.readZero (h : s.Attached i) (p : Nat) :
    (s.note [.readZero p]).Attached i ∧ connection i (s.note [.readZero p]).log ≠ some p := by
  have hlog : (s.note [.readZero p]).log = s.log ++ [.readZero p] := rfl
  constructor
  · refine h.ends (by simp) fun q hq => ?_
    simp only [track] at hq
    split at hq
    · cases hq
    · exact hq
  · rw [hlog, connection_concat, track]
    split
    · exact Option.some_ne_none p |>.symm
    · assumption

/-- After `disConnect` it may use none. -/
theorem Attached.disconnected (h : s.Attached i) :
    (s.note [.disconnected i]).Attached i ∧ connection i (s.note [.disconnected i]).log = none := by
  have hlog : (s.note [.disconnected i]).log = s.log ++ [.disconnected i] := rfl
  refine ⟨h.ends (by simp) (by simp [track]), ?_⟩
  rw [hlog, connection_concat]
  simp [track]

theorem Attached.step (h : s.Attached i) (hsane : s.Sane) (huse : UsesConnected i s e)
    (he : s.interleave i e = some s') : s'.Attached i := by
  obtain ⟨hclient, hstep⟩ := interleave_step he
  have hderef : ∀ p, ∀ op ∈ [Op.deref p true], op.silent = true := by simp [Op.silent]
  cases (step_moves hstep).2 with
  | accept m manager closing free =>
    unfold onAccept
    rw [manager]
    exact h.extend (silent_of_onEvent (onEvent_acceptSets _)) rfl rfl fun p o _ ho hlive =>
      ⟨o, heap_append_old ho _, hlive⟩
  | @live p cb o b ops closing heap body alive =>
    exact h.put heap (silent_of_onEvent ((hsane.objs p o heap).callback_onEvent body)) fun _ => rfl
  | @dead p cb o b ops m manager closing heap body alive =>
    have ho := hsane.objs p o heap
    have hput : (s.put p { o with body := b } ops).Attached i :=
      h.put heap (silent_of_onEvent (ho.callback_onEvent body)) fun _ => rfl
    obtain ⟨hread, hne⟩ := hput.readZero p
    have hheap := (heap_put heap { o with body := b } ops p).trans (if_pos rfl)
    have hquit := hread.quit (o := { o with body := b }) hne hheap (ho.not_torn body).2 manager
    exact hquit.closeLater p o.sid
  | @close p n closing =>
    have hclose : ∀ op ∈ [Op.close p n (s.belongs p n)], op.silent = true := by simp [Op.silent]
    exact h.extend hclose rfl rfl fun q o _ ho hlive => ⟨o, ho, hlive⟩
  | @connect j fd block mReadBuff stream free =>
    obtain rfl : j = i := by simpa [StationEvent.ofClient] using hclient
    exact h.connect fd block mReadBuff stream
  | idle call => exact h
  | @stale e j p o call client heap dead =>
    -- the connection stands, so the session has not been destroyed
    obtain rfl : j = i := by
      cases e with
      | registerEvent => simpa [StationEvent.ofClient, ← Option.some.inj call] using hclient
      | fetchAndSaveFile => simpa [StationEvent.ofClient, ← Option.some.inj call] using hclient
      | disConnect => simpa [StationEvent.ofClient, ← Option.some.inj call] using hclient
      | _ => cases call
    obtain ⟨q, hq⟩ := Option.ne_none_iff_exists'.mp (huse call (by simp [client]))
    obtain ⟨hsession, x, hx, hlive⟩ := h.session q hq
    obtain rfl := Option.some.inj (client.symm.trans hsession)
    obtain rfl := Option.some.inj (heap.symm.trans hx)
    rw [dead] at hlive
    cases hlive
  | null p call => exact (h.note (hderef p)).crash
  | register p o m manager client heap live =>
    have hops := silent_of_onEvent (onEvent_addReadSets o.body)
    have hput : ((s.note [.deref p true]).put p
        { o with mArg := true, body := o.body.addReadEvent } o.body.addReadSets).Attached i :=
      (h.note (hderef p)).put heap hops fun _ => rfl
    exact hput.setManager _
  | fetch p o c c' client heap live body fetch =>
    exact (h.note (hderef p)).put (p := p) heap (by simp) fun _ => rfl
  | @missing j p o m manager sockId client heap live mArg get =>
    obtain rfl : j = i := by simpa [StationEvent.ofClient] using hclient
    exact (h.note (hderef p)).disconnected.1
  | @remove j p q o m manager sockId client heap live mArg get =>
    obtain rfl : j = i := by simpa [StationEvent.ofClient] using hclient
    obtain ⟨hended, hnone⟩ := (h.note (hderef p)).disconnected
    refine (hended.setManager _).delete fun hq => ?_
    cases hnone.symm.trans hq
  | destroy closing => cases hclient

/-- In every run in which the client `i` uses its session only while the connection
stands, no call has used a session that had been destroyed. -/
theorem derefs_alive {calls : List Int} {opened : Nat → Bool} {es : List StationEvent}
    (huse : Meets (interleave i) (UsesConnected i) (start calls opened) es)
    (h : run (interleave i) (start calls opened) es = some s) (p : Nat) :
    .deref p false ∉ s.log := by
  have hstart : (start calls opened).Sane ∧ (start calls opened).Attached i :=
    ⟨sane_start calls opened, (fun p hp => by cases hp), (fun p hp => by cases hp)⟩
  have hrun := run_meets (I := fun s => s.Sane ∧ s.Attached i)
    (fun _ _ _ hs huse he => ⟨hs.1.step (interleave_step he).2, hs.2.step hs.1 huse he⟩)
    hstart huse h
  exact hrun.2.derefs p

/-- A client connects, disconnects, and connects again. -/
theorem derefs_alive_reconnect :
    ∃ s, run (interleave 0) (start [] fun _ => false)
        [.connect 0 5 [] (zeros cmdLen) [], .registerEvent 0, .disConnect 0,
          .connect 0 6 [] (zeros cmdLen) [], .registerEvent 0] = some s ∧
      .deref 0 false ∉ s.log := by
  have hsome : (run (interleave 0) (start [] fun _ => false)
      [.connect 0 5 [] (zeros cmdLen) [], .registerEvent 0, .disConnect 0,
        .connect 0 6 [] (zeros cmdLen) [], .registerEvent 0]).isSome = true := by decide +kernel
  have huse : Meets (interleave 0) (UsesConnected 0) (start [] fun _ => false)
      [.connect 0 5 [] (zeros cmdLen) [], .registerEvent 0, .disConnect 0,
        .connect 0 6 [] (zeros cmdLen) [], .registerEvent 0] := by decide +kernel
  obtain ⟨s, hs⟩ := Option.isSome_iff_exists.mp hsome
  exact ⟨s, hs, derefs_alive huse hs 0⟩

/-- The server closes, the read callback deletes the session, and the client, whose
`mSession` still points to it, disconnects. -/
theorem deref_destroyed :
    ∃ s, run (interleave 0) (start [] fun _ => false)
        [.connect 0 5 [] (zeros cmdLen) [], .registerEvent 0,
          .callback 0 (.onReadClient ⟨.eof, .eof, [], []⟩), .close, .disConnect 0] = some s ∧
      .deref 0 false ∈ s.log := by
  have hlog : (run (interleave 0) (start [] fun _ => false)
      [.connect 0 5 [] (zeros cmdLen) [], .registerEvent 0,
        .callback 0 (.onReadClient ⟨.eof, .eof, [], []⟩), .close, .disConnect 0]).map (fun s =>
          decide (Op.deref 0 false ∈ s.log)) = some true := by
    decide +kernel
  obtain ⟨s, hs, hmem⟩ := Option.map_eq_some_iff.mp hlog
  exact ⟨s, hs, of_decide_eq_true hmem⟩

end Station

end FilesEvent
