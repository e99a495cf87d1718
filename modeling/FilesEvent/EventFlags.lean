import FilesEvent.Station

/-! The flags `mReading` and `mWriting` against the event library. A session that
has been closed but not destroyed can have `mWriting` set with no event behind
it; so the destructor, which looks at the flag, deletes at least what is pending. -/

namespace FilesEvent
open Bytes Framing Runs

/-! ## What an event or a destructor does to the flags -/

namespace Session

variable {τ : Type}

theorem addReadEvent_eq (s : Session τ) : s.addReadEvent = s.addEvent .read := by
  simp only [addReadEvent, addEvent]
  split <;> rfl

theorem flag_quit (s : Session τ) (k : EventKind) : s.quit.flag k = ⟨(s.flag k).on, false⟩ := by
  cases k <;> rfl

theorem flag_destruct_read (s : Session τ) :
    s.destruct.flag .read = ⟨(s.flag .read).on, false⟩ := by
  simp only [destruct]
  split <;> rfl

theorem flag_destruct_write (s : Session τ) : s.destruct.flag .write =
    ⟨(s.flag .write).on, !(s.flag .write).on && (s.flag .write).pending⟩ := by
  cases s with
  | mk _ _ _ mWriting _ _ _ _ _ => cases mWriting <;> rfl

end Session

namespace Body

theorem flag_quit (b : Body) (k : EventKind) : b.quit.flag k = ⟨(b.flag k).on, false⟩ := by
  cases b with
  | server c => exact c.sess.flag_quit k
  | client c => exact c.sess.flag_quit k

theorem flag_destruct (b : Body) (k : EventKind) (h : k = .write → (b.flag .write).Covers) :
    (b.destruct.flag k).pending = false := by
  have hread : b.destruct.flag .read = ⟨(b.flag .read).on, false⟩ := by
    cases b with
    | server c => exact c.sess.flag_destruct_read
    | client c => exact c.sess.flag_destruct_read
  have hwrite : b.destruct.flag .write =
      ⟨(b.flag .write).on, !(b.flag .write).on && (b.flag .write).pending⟩ := by
    cases b with
    | server c => exact c.sess.flag_destruct_write
    | client c => exact c.sess.flag_destruct_write
  cases k with
  | read => rw [hread]
  | write =>
    have hcov := h rfl
    rw [hwrite]
    cases hp : (b.flag .write).pending with
    | false => simp
    | true => simp [hcov hp]

theorem flag_addReadEvent (b : Body) (k : EventKind) :
    b.addReadEvent.flag k = if k = .read then (b.flag .read).add else b.flag k := by
  cases b with
  | server c =>
    simp only [addReadEvent, flag, Session.addReadEvent_eq]
    exact c.sess.flag_addEvent .read k
  | client c =>
    simp only [addReadEvent, flag, Session.addReadEvent_eq]
    exact c.sess.flag_addEvent .read k

theorem addReadSets_eq (b : Body) : b.addReadSets = (b.flag .read).sets := by
  cases b <;> exact Session.sets_eq _ .read

/-- A callback runs on a session that has not been closed, whose event is pending. -/
theorem step_pending {b b' : Body} {cb : Callback} {ops : List Op}
    (h : b.step cb = some (b', ops)) : b.alive = true ∧ ∃ k, (b.flag k).pending = true := by
  have hconn : ∀ {c c' : Conn} {e : ConnEvent}, c.step e = some c' →
      c.alive = true ∧ ∃ k, (c.sess.flag k).pending = true := by
    intro c c' e hc
    obtain ⟨halive, ⟨-, -, -, -, hp, -⟩ | ⟨-, -, -, -, -, -, hp, -⟩⟩ := Conn.step_cases hc
    · exact ⟨halive, .read, hp⟩
    · exact ⟨halive, .write, hp⟩
  cases step_cases h with
  | onRead step => exact hconn step
  | onWrite step => exact hconn step
  | onReadClient step =>
    obtain ⟨halive, hp, -⟩ := ClientConn.step_cases step
    exact ⟨halive, .read, hp⟩

end Body

/-! ## What the log says of it -/

/-- An entry about events alone. -/
def Op.onEvent : Op → Bool
  | .set _ | .del _ _ => true
  | _ => false

theorem Flag.mem_sets {f : Flag} {op : Op} (h : op ∈ f.sets) : op = .set f.pending := by
  unfold Flag.sets at h
  split at h
  · cases h
  · exact List.mem_singleton.mp h

/-- Both events of a new session are set for the first time. -/
theorem Conn.mem_acceptSets {mReadBuff : List UInt8} {op : Op} (h : op ∈ acceptSets mReadBuff) :
    op = .set false := by
  simpa [acceptSets, Session.sets, Session.new, Session.addReadEvent, Session.addEvent] using h

theorem Body.mem_quitOps {b : Body} {op : Op} (h : op ∈ b.quitOps) :
    ∃ event isSet, op = .del event isSet := by
  have hsess : ∀ {τ : Type} (s : Session τ), op ∈ s.quitOps →
      ∃ event isSet, op = .del event isSet := by
    intro τ s hop
    simp only [Session.quitOps, List.mem_cons, List.not_mem_nil, or_false] at hop
    rcases hop with rfl | rfl | rfl <;> exact ⟨_, _, rfl⟩
  cases b with
  | server c => exact hsess c.sess h
  | client c => exact hsess c.sess h

theorem Body.mem_destructOps {b : Body} {op : Op} (h : op ∈ b.destructOps) :
    ∃ event isSet, op = .del event isSet := by
  have hsess : ∀ {τ : Type} (s : Session τ), op ∈ s.destructOps →
      ∃ event isSet, op = .del event isSet := by
    intro τ s hop
    rcases List.mem_cons.mp hop with rfl | hop
    · exact ⟨_, _, rfl⟩
    · split at hop
      · obtain rfl := List.mem_singleton.mp hop
        exact ⟨_, _, rfl⟩
      · cases hop
  cases b with
  | server c => exact hsess c.sess h
  | client c => exact hsess c.sess h

theorem onEvent_sets (f : Flag) : ∀ op ∈ f.sets, op.onEvent = true := by
  intro op hop
  rw [Flag.mem_sets hop]
  rfl

theorem onEvent_acceptSets (mReadBuff : List UInt8) :
    ∀ op ∈ Conn.acceptSets mReadBuff, op.onEvent = true := by
  intro op hop
  rw [Conn.mem_acceptSets hop]
  rfl

theorem onEvent_addReadSets (b : Body) : ∀ op ∈ b.addReadSets, op.onEvent = true := by
  rw [Body.addReadSets_eq]
  exact onEvent_sets _

theorem onEvent_quitOps (b : Body) : ∀ op ∈ b.quitOps, op.onEvent = true := by
  intro op hop
  obtain ⟨_, _, rfl⟩ := Body.mem_quitOps hop
  rfl

theorem onEvent_destructOps (b : Body) : ∀ op ∈ b.destructOps, op.onEvent = true := by
  intro op hop
  obtain ⟨_, _, rfl⟩ := Body.mem_destructOps hop
  rfl

/-! ## One session -/

/-- What holds of the flags of a session between two steps. -/
structure Obj.Sane (o : Obj) : Prop where
  read : o.destroyed = false → (o.body.flag .read).Mirrors
  write : o.torn = false → (o.body.flag .write).Mirrors
  covers : o.destroyed = false → (o.body.flag .write).Covers
  armed : o.torn = false → o.mArg = true → (o.body.flag .read).pending = true
  known : ∀ k, (o.body.flag k).pending = true → o.mArg = true
  gone : o.destroyed = true → ∀ k, (o.body.flag k).pending = false
  client : ∀ c, o.body = .client c → o.body.flag .write = ⟨false, false⟩

/-- The kind of a session does not change, and a client never arms its write event. -/
theorem Body.step_client {b : Body} {cb : Callback} {c' : ClientConn} {ops : List Op}
    (h : b.step cb = some (.client c', ops)) :
    ∃ c, b = .client c ∧ c'.sess.flag .write = c.sess.flag .write := by
  cases step_cases h with
  | onReadClient step => exact ⟨_, rfl, (ClientConn.step_flag step).2.1⟩

namespace Obj

variable {o : Obj} {b : Body} {ops : List Op} {cb : Callback}

theorem torn_eq_false : o.torn = false ↔ o.destroyed = false ∧ o.body.alive = true := by
  simp [torn]

theorem torn_of_not_alive (h : o.body.alive = false) : o.torn = true := by simp [torn, h]

theorem torn_quit (h : b.alive = false) : Obj.torn { o with body := b.quit } = true := by
  refine torn_of_not_alive ?_
  cases b with
  | server c => exact h
  | client c => exact h

/-- A callback runs only on a session that has not been torn down. -/
theorem Sane.not_torn (h : o.Sane) (hb : o.body.step cb = some (b, ops)) :
    o.torn = false ∧ o.mArg = true := by
  obtain ⟨halive, k, hk⟩ := Body.step_pending hb
  refine ⟨torn_eq_false.mpr ⟨?_, halive⟩, h.known k hk⟩
  cases hd : o.destroyed with
  | false => rfl
  | true =>
    rw [h.gone hd k] at hk
    cases hk

/-- No callback applies `event_set` to an event that waits to fire. -/
theorem Sane.callback_sets (h : o.Sane) (hb : o.body.step cb = some (b, ops)) {op : Op}
    (hop : op ∈ ops) : op = .set false := by
  have hcovers := h.covers (torn_eq_false.mp (h.not_torn hb).1).1
  cases Body.step_rearms hb with
  | read arm hread hwrite hops =>
    rw [hops] at hop
    rcases List.mem_append.mp hop with hop | hop
    · exact hcovers.setsIf hop
    · exact Flag.mirrors_fired.covers.setsIf hop
  | write arm live hread hwrite hops =>
    rw [hops] at hop
    exact Flag.mirrors_fired.covers.setsIf hop

theorem Sane.callback_onEvent (h : o.Sane) (hb : o.body.step cb = some (b, ops)) :
    ∀ op ∈ ops, op.onEvent = true := by
  intro op hop
  rw [h.callback_sets hb hop]
  rfl

theorem Sane.callback (h : o.Sane) (hb : o.body.step cb = some (b, ops)) :
    Sane { o with body := b } := by
  obtain ⟨htorn, harg⟩ := h.not_torn hb
  have hlive := (torn_eq_false.mp htorn).1
  have hread : (b.flag .read).Mirrors ∧ (b.alive = true → (b.flag .read).pending = true) := by
    cases Body.step_rearms hb with
    | read arm hread hwrite hops =>
      rw [hread]
      exact ⟨Flag.mirrors_fired.addIf _, fun halive => by rw [halive]; rfl⟩
    | write arm live hread hwrite hops =>
      rw [hread]
      exact ⟨h.read hlive, fun _ => h.armed htorn harg⟩
  have hwrite : (b.flag .write).Mirrors := by
    cases Body.step_rearms hb with
    | read arm hread hwrite hops =>
      rw [hwrite]
      exact (h.write htorn).addIf arm
    | write arm live hread hwrite hops =>
      rw [hwrite]
      exact Flag.mirrors_fired.addIf arm
  constructor
  · exact fun _ => hread.1
  · exact fun _ => hwrite
  · exact fun _ => hwrite.covers
  · exact fun ht _ => hread.2 (torn_eq_false.mp ht).2
  · exact fun _ _ => harg
  · intro hd
    rw [hlive] at hd
    cases hd
  · rintro c' rfl
    obtain ⟨c, hc, hflag⟩ := Body.step_client hb
    have := h.client c hc
    rw [hc] at this
    exact hflag.trans this

/-- What `onRead` does to a session that it closes. -/
theorem Sane.quit (h : o.Sane) (hb : o.body.step cb = some (b, ops)) (halive : b.alive = false) :
    Sane { o with body := b.quit } := by
  have hlive := (torn_eq_false.mp (h.not_torn hb).1).1
  have hread : b.flag .read = .fired := by
    cases Body.step_rearms hb with
    | read arm hread hwrite hops =>
      rw [hread, halive]
      rfl
    | write arm live hread hwrite hops =>
      rw [halive] at live
      cases live
  have htorn : Obj.torn { o with body := b.quit } = true := torn_quit halive
  constructor
  · intro _
    show (b.quit.flag .read).Mirrors
    rw [Body.flag_quit, hread]
    rfl
  · intro hnot
    rw [htorn] at hnot
    cases hnot
  · intro _ hp
    rw [Body.flag_quit] at hp
    cases hp
  · intro hnot
    rw [htorn] at hnot
    cases hnot
  · intro k hk
    rw [Body.flag_quit] at hk
    cases hk
  · intro hd
    rw [hlive] at hd
    cases hd
  · intro c' hc'
    show b.quit.flag .write = _
    rw [Body.flag_quit]
    cases b with
    | server c => cases hc'
    | client c =>
      obtain ⟨c₀, hc₀, hflag⟩ := Body.step_client hb
      have := h.client c₀ hc₀
      rw [hc₀] at this
      have hw : (Body.client c).flag .write = ⟨false, false⟩ := hflag.trans this
      rw [hw]

/-- The destructor leaves no event pending. -/
theorem Sane.delete (h : o.Sane) (hlive : o.destroyed = false) :
    Sane { o with body := o.body.destruct, destroyed := true } := by
  have hgone : ∀ k, (o.body.destruct.flag k).pending = false := fun k =>
    o.body.flag_destruct k fun _ => h.covers hlive
  have htorn : Obj.torn { o with body := o.body.destruct, destroyed := true } = true := rfl
  constructor
  · exact fun hd => by cases hd
  · intro hnot
    rw [htorn] at hnot
    cases hnot
  · exact fun hd => by cases hd
  · intro hnot
    rw [htorn] at hnot
    cases hnot
  · intro k hk
    rw [hgone k] at hk
    cases hk
  · exact fun _ => hgone
  · intro c' hc'
    cases hbody : o.body with
    | server c =>
      rw [hbody] at hc'
      cases hc'
    | client c =>
      have hw := h.client c hbody
      rw [hbody] at hw
      show c.sess.destruct.flag .write = _
      rw [Session.flag_destruct_write, show c.sess.flag .write = ⟨false, false⟩ from hw]
      rfl

theorem Sane.register (h : o.Sane) (hlive : o.destroyed = false) :
    Sane { o with mArg := true, body := o.body.addReadEvent } := by
  have hread := h.read hlive
  have hflag : ∀ k, o.body.addReadEvent.flag k =
      if k = .read then (o.body.flag .read).add else o.body.flag k := o.body.flag_addReadEvent
  constructor
  · intro _
    show (o.body.addReadEvent.flag .read).Mirrors
    rw [hflag]
    exact hread.add
  · intro htorn
    show (o.body.addReadEvent.flag .write).Mirrors
    rw [hflag]
    cases hbody : o.body with
    | server c =>
      refine (hbody ▸ h.write) (torn_eq_false.mpr ⟨hlive, ?_⟩)
      have := (torn_eq_false.mp htorn).2
      simp only [hbody] at this ⊢
      exact this
    | client c =>
      have hw := h.client c hbody
      rw [hbody] at hw
      rw [if_neg (by decide), hw]
      rfl
  · intro _
    show (o.body.addReadEvent.flag .write).Covers
    rw [hflag]
    exact h.covers hlive
  · intro _ _
    show (o.body.addReadEvent.flag .read).pending = true
    rw [hflag]
    exact Flag.pending_add hread
  · exact fun _ _ => rfl
  · intro hd
    rw [hlive] at hd
    cases hd
  · intro c' hc'
    show o.body.addReadEvent.flag .write = _
    rw [hflag, if_neg (by decide)]
    cases hbody : o.body with
    | server c =>
      rw [hbody] at hc'
      cases hc'
    | client c =>
      rw [← hbody]
      exact h.client c hbody

theorem Sane.of_flag (h : o.Sane) (hflag : ∀ k, b.flag k = o.body.flag k)
    (halive : b.alive = o.body.alive) (hclient : ∀ c', b = .client c' → ∃ c, o.body = .client c) :
    Sane { o with body := b } := by
  have htorn : Obj.torn { o with body := b } = o.torn := by simp only [torn, halive]
  constructor
  · intro hd
    show (b.flag .read).Mirrors
    rw [hflag]
    exact h.read hd
  · intro ht
    show (b.flag .write).Mirrors
    rw [hflag]
    exact h.write (htorn ▸ ht)
  · intro hd
    show (b.flag .write).Covers
    rw [hflag]
    exact h.covers hd
  · intro ht
    show _ → (b.flag .read).pending = true
    rw [hflag]
    exact h.armed (htorn ▸ ht)
  · intro k
    show (b.flag k).pending = true → _
    rw [hflag]
    exact h.known k
  · intro hd k
    show (b.flag k).pending = false
    rw [hflag]
    exact h.gone hd k
  · intro c' hc'
    show b.flag .write = _
    obtain ⟨c, hc⟩ := hclient c' hc'
    rw [hflag]
    exact h.client c hc

theorem sane_accepted (fd : Nat) (sid : UInt16) (mStatus : SessionStatus)
    (mReadBuff stream : List UInt8) :
    Sane ⟨fd, sid, mStatus, true, .server (.onAccept mReadBuff stream), false⟩ where
  read _ := rfl
  write _ := rfl
  covers _ _ := rfl
  armed _ _ := rfl
  known _ _ := rfl
  gone hd := by cases hd
  client c hc := by cases hc

theorem sane_connected (fd : Nat) (sid : UInt16) (mStatus : SessionStatus)
    (block mReadBuff stream : List UInt8) :
    Sane ⟨fd, sid, mStatus, false, .client (.new block mReadBuff stream), false⟩ where
  read _ := rfl
  write _ := rfl
  covers _ hp := by cases hp
  armed _ harg := by cases harg
  known k hk := by cases k <;> cases hk
  gone hd := by cases hd
  client c hc := rfl

end Obj

/-- A call for the task leaves the events alone. -/
theorem ClientConn.fetchFileAndSave_sess {c c' : ClientConn} {remoteFile : List UInt8}
    {opens : Bool} {outs₁ outs₂ : List SendResult}
    (h : c.fetchFileAndSave remoteFile opens outs₁ outs₂ = some c') :
    (∀ k, c'.sess.flag k = c.sess.flag k) ∧ c'.alive = c.alive := by
  unfold fetchFileAndSave at h
  split at h
  · obtain ⟨⟨t, acts⟩, -, rfl⟩ := Option.map_eq_some_iff.mp h
    exact ⟨fun k => by cases k <;> rfl, rfl⟩
  · split at h
    · obtain rfl := Option.some.inj h
      exact ⟨fun _ => rfl, rfl⟩
    · cases h

/-! ## Every session of the process -/

namespace Station

/-- Every session is sane, and `event_set` has not been applied to a waiting event. -/
structure Sane (s : Station) : Prop where
  objs : ∀ (p : Nat) (o : Obj), s.heap[p]? = some o → o.Sane
  sets : ∀ pending, Op.set pending ∈ s.log → pending = false

variable {s s' : Station} {p : Nat} {o : Obj} {ops : List Op} {e : StationEvent}

theorem Sane.put (h : s.Sane) (ho : o.Sane) (hops : ∀ b, Op.set b ∈ ops → b = false) :
    (s.put p o ops).Sane where
  objs q x hx := by
    rcases mem_heap_put hx with ⟨-, rfl⟩ | ⟨-, hx⟩
    · exact ho
    · exact h.objs q x hx
  sets b hb := (List.mem_append.mp hb).elim (h.sets b) (hops b)

theorem Sane.note (h : s.Sane) (hops : ∀ b, Op.set b ∉ ops) : (s.note ops).Sane where
  objs := h.objs
  sets b hb := (List.mem_append.mp hb).elim (h.sets b) fun hb => absurd hb (hops b)

theorem Sane.crash (h : s.Sane) : s.crash.Sane := ⟨h.objs, h.sets⟩

theorem Sane.setManager (h : s.Sane) (m : SessionManager Nat) : (s.setManager m).Sane :=
  ⟨h.objs, h.sets⟩

theorem Sane.close (h : s.Sane) (p n : Nat) : (s.close p n).Sane where
  objs := h.objs
  sets b hb := (List.mem_append.mp hb).elim (h.sets b) fun hb => by simp at hb

theorem Sane.delete (h : s.Sane) (p : Nat) : (s.delete p).Sane := by
  rcases delete_cases s p with ⟨-, heq⟩ | ⟨o, ho, ⟨-, heq⟩ | ⟨hlive, heq⟩⟩
  · rw [heq]
    exact h
  · rw [heq]
    exact h.crash
  · rw [heq]
    refine Sane.close (h.put ((h.objs p o ho).delete hlive) fun b hb => ?_) p _
    obtain ⟨_, _, hdel⟩ := Body.mem_destructOps hb
    cases hdel

theorem Sane.quit (h : s.Sane) (ho : Obj.Sane { o with body := o.body.quit })
    (harg : o.mArg = true) {m : SessionManager Nat} (hm : s.mSessionManager = some m) :
    (s.quit p o).Sane := by
  have hput : (s.put p { o with body := o.body.quit } o.body.quitOps).Sane := by
    refine h.put ho fun b hb => ?_
    obtain ⟨_, _, hdel⟩ := Body.mem_quitOps hb
    cases hdel
  simp only [quit_eq harg hm]
  split
  · exact (hput.setManager _).delete p
  · exact hput.setManager _

theorem Sane.closeLater (h : s.Sane) (p : Nat) (sid : UInt16) : (s.closeLater p sid).Sane := by
  unfold Station.closeLater
  split
  · exact ⟨h.objs, h.sets⟩
  · exact h

theorem Sane.destroy (h : s.Sane) : s.destroy.Sane :=
  destroy_induction (fun _ q hs => hs.delete q) (fun _ hs => ⟨hs.objs, hs.sets⟩) h

theorem Sane.step (h : s.Sane) (hs : s.step e = some s') : s'.Sane := by
  obtain ⟨-, hm⟩ := step_moves hs
  cases hm with
  | accept m manager closing free =>
    unfold Station.onAccept
    rw [manager]
    refine ⟨fun q x hx => ?_, fun b hb => (List.mem_append.mp hb).elim (h.sets b) fun hb => ?_⟩
    · rcases mem_heap_append hx with ⟨-, rfl⟩ | hx
      · exact Obj.sane_accepted _ _ _ _ _
      · exact h.objs q x hx
    · exact Op.set.inj (Conn.mem_acceptSets hb)
  | live o b ops closing heap body alive =>
    have ho := h.objs _ o heap
    exact h.put (ho.callback body) fun pending hp => by
      simpa using ho.callback_sets body hp
  | @dead p cb o b ops m manager closing heap body alive =>
    have ho := h.objs p o heap
    have hput : (s.put p { o with body := b } ops).Sane :=
      h.put (ho.callback body) fun pending hp => by simpa using ho.callback_sets body hp
    have hnote : ((s.put p { o with body := b } ops).note [.readZero p]).Sane := hput.note (by simp)
    exact (hnote.quit (o := { o with body := b }) (ho.quit body alive) (ho.not_torn body).2
      manager).closeLater p o.sid
  | @close p n closing =>
    have hclose := h.close p n
    exact ⟨hclose.objs, hclose.sets⟩
  | connect free =>
    refine ⟨fun q x hx => ?_, fun b hb => (List.mem_append.mp hb).elim (h.sets b) fun hb => ?_⟩
    · rcases mem_heap_append hx with ⟨-, rfl⟩ | hx
      · exact Obj.sane_connected _ _ _ _ _ _
      · exact h.objs q x hx
    · simp at hb
  | idle => exact h
  | stale p o call client heap dead => exact (h.note (by simp)).crash
  | null p => exact (h.note (by simp)).crash
  | register p o m manager client heap live =>
    have ho := h.objs p o heap
    refine ((h.note (by simp)).put (ho.register live) fun pending hp => ?_).setManager _
    rw [Body.addReadSets_eq] at hp
    simpa using (ho.read live).covers.sets hp
  | fetch p o c c' client heap live body fetch =>
    have ho := h.objs p o heap
    have hbody := ClientConn.fetchFileAndSave_sess fetch
    exact (h.note (by simp)).put (ho.of_flag (fun k => by rw [body]; exact hbody.1 k)
      (by rw [body]; exact hbody.2) fun _ _ => ⟨c, body⟩) (by simp)
  | missing p o m manager sockId client heap live mArg get =>
    exact (h.note (by simp)).note (by simp)
  | remove p q o m manager sockId client heap live mArg get =>
    exact (((h.note (by simp)).note (by simp)).setManager _).delete q
  | destroy closing => exact h.destroy

theorem sane_start (calls : List Int) (opened : Nat → Bool) : (start calls opened).Sane where
  objs p o ho := by simp [start] at ho
  sets b hb := by cases hb

theorem sane_run {calls : List Int} {opened : Nat → Bool} {es : List StationEvent}
    (h : run step (start calls opened) es = some s) : s.Sane :=
  run_invariant (fun _ _ _ hs he => Sane.step hs he) (sane_start calls opened) h

/-- A read callback that gets 0 from `readBuffer` closes its session, takes the session
with its id out of the table, and deletes its own if that is the one. -/
theorem Sane.dead_eq (h : s.Sane) (hp : s.heap[p]? = some o) {b : Body} {cb : Callback}
    (hb : o.body.step cb = some (b, ops)) {m : SessionManager Nat}
    (hm : s.mSessionManager = some m) :
    ((s.put p { o with body := b } ops).note [.readZero p]).quit p { o with body := b } =
      let t := (s.put p { o with body := b.quit } (ops ++ [.readZero p] ++ b.quitOps)).setManager
        (m.getAndRemove o.sid).1
      if (m.get o.sid).1 = some p then t.delete p else t := by
  have harg := ((h.objs p o hp).not_torn hb).2
  have hm' : ((s.put p { o with body := b } ops).note [.readZero p]).mSessionManager = some m := hm
  rw [Station.quit_eq (o := { o with body := b }) harg hm', put_note_put]

/-- Outside its callbacks a session that has not been destroyed has `mReading` set
exactly while its read event is pending. One that has not been torn down has
`mWriting` set exactly while its write event is pending, and once it is registered its
read event is. A session that has been destroyed has no event pending. -/
structure MirrorsEvents (o : Obj) : Prop where
  mReading : o.destroyed = false →
    ((o.body.flag .read).on = true ↔ (o.body.flag .read).pending = true)
  mWriting : o.torn = false → ((o.body.flag .write).on = true ↔ (o.body.flag .write).pending = true)
  registered : o.torn = false → o.mArg = true → (o.body.flag .read).pending = true
  destroyed : o.destroyed = true → ∀ k, (o.body.flag k).pending = false

theorem mirrorsEvents_of_sane (h : o.Sane) : MirrorsEvents o where
  mReading hlive := by rw [h.read hlive]
  mWriting ht := by rw [h.write ht]
  registered := h.armed
  destroyed := h.gone

/-- The session that `onRead` closes has been torn down. -/
theorem torn_of_quit {o x : Obj} {m : SessionManager Nat} (harg : o.mArg = true)
    (hm : s.mSessionManager = some m) (halive : o.body.alive = false)
    (h : (s.quit p o).heap[p]? = some x) : x.torn = true := by
  simp only [quit_eq harg hm] at h
  split at h
  · rw [Obj.torn, destroyed_of_delete h]
    rfl
  · rcases mem_heap_put h with ⟨-, rfl⟩ | ⟨hne, -⟩
    · exact Obj.torn_quit halive
    · exact absurd rfl hne

/-- In every state of every run the flags of each session tell what the event
library knows, `event_set` has not been applied to a pending event, and after a
callback that does not tear the session down the read event is pending. -/
theorem flags_mirror_events {calls : List Int} {opened : Nat → Bool} {es : List StationEvent}
    (h : run step (start calls opened) es = some s) :
    (∀ (p : Nat) (o : Obj), s.heap[p]? = some o → MirrorsEvents o) ∧
      (∀ pending, Op.set pending ∈ s.log → pending = false) ∧
      (∀ (p : Nat) (cb : Callback) (s' : Station) (o : Obj), s.step (.callback p cb) = some s' →
        s'.heap[p]? = some o → o.torn = false → (o.body.flag .read).pending = true) := by
  have hsane := sane_run h
  refine ⟨fun p o ho => mirrorsEvents_of_sane (hsane.objs p o ho), hsane.sets, ?_⟩
  intro p cb s' o' hstep ho' htorn
  have hafter := (hsane.step hstep).objs p o' ho'
  refine hafter.armed htorn ?_
  cases (step_moves hstep).2 with
  | live o b ops closing heap body alive =>
    rw [heap_put heap, if_pos rfl] at ho'
    obtain rfl := Option.some.inj ho'
    exact ((hsane.objs p o heap).not_torn body).2
  | dead o b ops m manager closing heap body alive =>
    rw [heap_closeLater] at ho'
    have harg := ((hsane.objs p o heap).not_torn body).2
    have hquit : o'.torn = true :=
      torn_of_quit (o := { o with body := b }) (m := m) harg (by exact manager) alive ho'
    rw [htorn] at hquit
    cases hquit
  | idle call => cases call
  | stale p' o call => cases call
  | null p' call => cases call

/-- A connection that is accepted, and closed by its peer. -/
theorem flags_mirror_events_eof :
    ∃ s, run step (start [] fun _ => false)
        [.accept 5 (zeros cmdLen) [],
          .callback 0 (.onRead (fun _ => true) ⟨.eof, .eof, true, 0, []⟩)] = some s ∧
      (∀ (p : Nat) (o : Obj), s.heap[p]? = some o → MirrorsEvents o) ∧
      (∀ pending, Op.set pending ∈ s.log → pending = false) ∧
      (∀ (p : Nat) (cb : Callback) (s' : Station) (o : Obj), s.step (.callback p cb) = some s' →
        s'.heap[p]? = some o → o.torn = false → (o.body.flag .read).pending = true) := by
  have hsome : (run step (start [] fun _ => false)
      [.accept 5 (zeros cmdLen) [],
        .callback 0 (.onRead (fun _ => true) ⟨.eof, .eof, true, 0, []⟩)]).isSome = true := by
    decide +kernel
  obtain ⟨s, hs⟩ := Option.isSome_iff_exists.mp hsome
  exact ⟨s, hs, flags_mirror_events hs⟩

end Station

end FilesEvent
