import FilesEvent.Closes

/-! The calls of `event_del`. The destructor asks the flags which of the events it
has to delete, and `mTimeEvent` is left alone there; `onRead` deletes all three when
the connection ends, and no session ever sets its `mTimeEvent`. -/

namespace FilesEvent
open Bytes Framing Runs

/-- A flag of a session, and whether `event_set` has been applied to its event. -/
structure Mark where
  on : Bool
  isSet : Bool
  deriving DecidableEq, Repr

namespace Mark

variable {m m' m'' : Mark}

/-- The event has been set if the flag is. -/
def Sound (m : Mark) : Prop := m.on = true → m.isSet = true

/-- An event that has been set stays so, and the flag is set with the event. -/
structure Keeps (m m' : Mark) : Prop where
  isSet : m.isSet = true → m'.isSet = true
  on : m'.on = true → m.on = true ∨ m'.isSet = true

theorem Keeps.refl (m : Mark) : m.Keeps m := ⟨id, .inl⟩

theorem Keeps.trans (h : m.Keeps m') (h' : m'.Keeps m'') : m.Keeps m'' where
  isSet := h'.isSet ∘ h.isSet
  on hon := by
    rcases h'.on hon with hon | hset
    · rcases h.on hon with hon | hset
      · exact .inl hon
      · exact .inr (h'.isSet hset)
    · exact .inr hset

theorem Sound.keeps (hm : m.Sound) (h : m.Keeps m') : m'.Sound := by
  intro hon
  rcases h.on hon with hon | hset
  · exact h.isSet (hm hon)
  · exact hset

end Mark

/-! ## Sessions -/

namespace Session

variable {τ : Type}

def mark (s : Session τ) : EventKind → Mark
  | .read => ⟨s.mReading, s.mReadEvent.isSet⟩
  | .write => ⟨s.mWriting, s.mWriteEvent.isSet⟩

theorem mark_eq (s : Session τ) (k : EventKind) :
    s.mark k = ⟨(s.event k).1, (s.event k).2.isSet⟩ := by
  cases k <;> rfl

theorem mark_addEvent (s : Session τ) (k k' : EventKind) :
    (s.mark k').Keeps ((s.addEvent k).mark k') := by
  cases k <;> cases k' <;> simp only [addEvent] <;> split <;>
    first | exact .refl _ | exact ⟨fun _ => rfl, fun _ => .inr rfl⟩

theorem mark_fired (s : Session τ) (k k' : EventKind) :
    (s.mark k').Keeps ((s.fired k).mark k') := by
  cases k <;> cases k' <;> first | exact .refl _ | exact ⟨id, nofun⟩

theorem mark_destruct (s : Session τ) (k : EventKind) : s.destruct.mark k = s.mark k := by
  unfold destruct
  dsimp only
  split <;> cases k <;> rfl

theorem readBuffer_mark {H : Handlers} {s : Session TaskFileSend} {inbox : List UInt8}
    {e : ReadEnv} {g : SessionRead} (h : s.readBuffer H inbox e = some g) (k : EventKind) :
    (s.mark k).Keeps (g.sess.mark k) := by
  rcases readBuffer_cases h with ⟨t, r, -, -, -, rfl⟩ | ⟨-, h⟩
  · dsimp only
    split
    · rw [addWriteEvent_eq]
      exact mark_addEvent { s with mTaskBase := some r.task } .write k
    · cases k <;> exact .refl _
  · rw [mark_eq g.sess, readRequest_event h, ← mark_eq]
    exact .refl _

theorem writeBuffer_mark {s s' : Session TaskFileSend} {fr : List UInt8}
    {outs : List SendResult} {ret : Int} {acts : List Act}
    (h : s.writeBuffer fr outs = some (ret, s', acts)) (k : EventKind) : s'.mark k = s.mark k := by
  rw [mark_eq, writeBuffer_event h, mark_eq]

end Session

theorem Conn.step_mark {c c' : Conn} {e : ConnEvent} (h : c.step e = some c') (k : EventKind) :
    (c.sess.mark k).Keeps (c'.sess.mark k) := by
  obtain ⟨-, ⟨H, env, g, rfl, -, hg, rfl⟩ | ⟨fr, outs, ret, s, acts, rfl, -, hw, rfl⟩⟩ :=
    step_cases h
  · have hread := (c.sess.mark_fired .read k).trans (Session.readBuffer_mark hg k)
    dsimp only
    split
    · exact hread
    · exact hread.trans (g.sess.mark_addEvent .read k)
  · have hwrite := c.sess.mark_fired .write k
    rw [← Session.writeBuffer_mark hw k] at hwrite
    dsimp only
    split
    · exact hwrite
    · exact hwrite.trans (s.mark_addEvent .write k)

theorem ClientConn.step_mark {c c' : ClientConn} {e : ClientEnv} (h : c.step e = some c')
    (k : EventKind) : (c.sess.mark k).Keeps (c'.sess.mark k) := by
  obtain ⟨-, -, t, g, -, -, s, hs, rfl⟩ := step_cases h
  have hread : (c.sess.mark k).Keeps (s.mark k) := by
    have hfired := c.sess.mark_fired .read k
    rw [hs]
    cases k <;> exact hfired
  dsimp only
  split
  · exact hread
  · exact hread.trans (s.mark_addEvent .read k)

namespace Body

variable {b b' : Body} {cb : Callback} {ops : List Op}

def mark : Body → EventKind → Mark
  | .server c => c.sess.mark
  | .client c => c.sess.mark

theorem step_mark (h : b.step cb = some (b', ops)) (k : EventKind) :
    (b.mark k).Keeps (b'.mark k) := by
  cases step_cases h with
  | onRead step => exact Conn.step_mark step k
  | onWrite step => exact Conn.step_mark step k
  | onReadClient step => exact ClientConn.step_mark step k

theorem mark_destruct (b : Body) (k : EventKind) : b.destruct.mark k = b.mark k := by
  cases b with
  | server c => exact c.sess.mark_destruct k
  | client c => exact c.sess.mark_destruct k

theorem mark_addReadEvent (b : Body) (k : EventKind) :
    (b.mark k).Keeps (b.addReadEvent.mark k) := by
  cases b with
  | server c =>
    simp only [addReadEvent, mark, Session.addReadEvent_eq]
    exact c.sess.mark_addEvent .read k
  | client c =>
    simp only [addReadEvent, mark, Session.addReadEvent_eq]
    exact c.sess.mark_addEvent .read k

theorem isSet_addReadEvent {b : Body} (h : (b.mark .read).Sound) :
    (b.addReadEvent.mark .read).isSet = true := by
  have hsess : ∀ {τ : Type} (s : Session τ), (s.mark .read).Sound →
      (s.addReadEvent.mark .read).isSet = true := by
    intro τ s hs
    rw [Session.addReadEvent_eq, Session.addEvent]
    split
    · rename_i hon
      exact hs hon
    · rfl
  cases b with
  | server c => exact hsess c.sess h
  | client c => exact hsess c.sess h

end Body

theorem ClientConn.fetchFileAndSave_mark {c c' : ClientConn} {remoteFile : List UInt8}
    {opens : Bool} {outs₁ outs₂ : List SendResult}
    (h : c.fetchFileAndSave remoteFile opens outs₁ outs₂ = some c') (k : EventKind) :
    c'.sess.mark k = c.sess.mark k := by
  unfold fetchFileAndSave at h
  split at h
  · obtain ⟨⟨t, acts⟩, -, rfl⟩ := Option.map_eq_some_iff.mp h
    cases k <;> rfl
  · split at h
    · obtain rfl := Option.some.inj h
      rfl
    · cases h

/-! ## The log -/

/-- `event_del` has been applied only to events that had been set. -/
def DelsSet (log : List Op) : Prop := ∀ event isSet, Op.del event isSet ∈ log → isSet = true

variable {ops ops' : List Op}

theorem delsSet_append : DelsSet (ops ++ ops') ↔ DelsSet ops ∧ DelsSet ops' := by
  constructor
  · intro h
    exact ⟨fun event isSet hd => h event isSet (List.mem_append_left _ hd),
      fun event isSet hd => h event isSet (List.mem_append_right _ hd)⟩
  · rintro ⟨h, h'⟩ event isSet hd
    exact (List.mem_append.mp hd).elim (h event isSet) (h' event isSet)

theorem DelsSet.note (h : DelsSet ops) {op : Op} (hop : ∀ event isSet, op ≠ .del event isSet) :
    DelsSet (ops ++ [op]) :=
  delsSet_append.mpr ⟨h, fun _ _ hd => absurd (List.mem_singleton.mp hd).symm (hop _ _)⟩

theorem delsSet_of_sets (h : ∀ op ∈ ops, ∃ pending, op = .set pending) : DelsSet ops := by
  intro event isSet hd
  obtain ⟨pending, hset⟩ := h _ hd
  cases hset

theorem Body.delsSet_step {b b' : Body} {cb : Callback} (h : b.step cb = some (b', ops)) :
    DelsSet ops := by
  have hsets : ∀ (f : Flag) arm, DelsSet (f.setsIf arm) := by
    intro f arm
    cases arm with
    | false => exact fun _ _ hd => absurd hd List.not_mem_nil
    | true => exact delsSet_of_sets fun _ hop => ⟨_, Flag.mem_sets hop⟩
  cases step_rearms h with
  | read arm read write ops =>
    rw [ops]
    exact delsSet_append.mpr ⟨hsets _ arm, hsets _ _⟩
  | write arm live read write ops =>
    rw [ops]
    exact hsets _ arm

/-- The destructor deletes the read event, and the write event if its flag is set. -/
theorem Body.delsSet_destructOps {b : Body} (hread : (b.mark .read).isSet = true)
    (hwrite : (b.mark .write).Sound) : DelsSet b.destructOps := by
  have hsess : ∀ {τ : Type} (s : Session τ), (s.mark .read).isSet = true → (s.mark .write).Sound →
      DelsSet s.destructOps := by
    rintro τ s hr hw event isSet hd
    rcases List.mem_cons.mp hd with heq | hd
    · obtain ⟨rfl, rfl⟩ := Op.del.inj heq
      exact hr
    · split at hd
      · rename_i hon
        obtain ⟨rfl, rfl⟩ := Op.del.inj (List.mem_singleton.mp hd)
        exact hw hon
      · cases hd
  cases b with
  | server c => exact hsess c.sess hread hwrite
  | client c => exact hsess c.sess hread hwrite

/-- `onRead` deletes the timer, which is never set. -/
theorem Body.not_delsSet_quitOps (b : Body) : ¬ DelsSet b.quitOps := by
  intro h
  have htime : Op.del .time false ∈ b.quitOps := by
    cases b <;> simp [quitOps, Session.quitOps]
  cases h _ _ htime

/-! ## The process -/

namespace Station

variable {s s' : Station} {e : StationEvent} {p : Nat} {o o' : Obj}

/-- Each session in the table has been given its `EventGlobal`. -/
def Registered (s : Station) (m : SessionManager Nat) : Prop :=
  ∀ k q, (m.get k).1 = some q → ∃ o : Obj, s.heap[q]? = some o ∧ o.mArg = true

/-- Flags are set only with their events, the read event of a session with an
`EventGlobal` has been set, and the table has only such sessions. -/
structure Marked (s : Station) : Prop where
  marks : ∀ (p : Nat) (o : Obj), s.heap[p]? = some o → ∀ k, (o.body.mark k).Sound
  read : ∀ (p : Nat) (o : Obj), s.heap[p]? = some o → o.mArg = true →
    (o.body.mark .read).isSet = true
  table : ∀ m, s.mSessionManager = some m → s.Registered m

/-- `readBuffer` does not return 0 to the read callback. -/
def ReadsOn (s : Station) : StationEvent → Prop
  | .callback p cb => ∀ o ∈ s.heap[p]?, o.body.readsZero cb = false
  | _ => True

theorem Registered.put {m : SessionManager Nat} (h : s.Registered m) (hp : s.heap[p]? = some o)
    (o' : Obj) (harg : o.mArg = true → o'.mArg = true) (ops : List Op) :
    (s.put p o' ops).Registered m := by
  intro k q hq
  obtain ⟨x, hx, hxarg⟩ := h k q hq
  rw [heap_put hp]
  split
  · rename_i hqp
    subst hqp
    obtain rfl := Option.some.inj (hp.symm.trans hx)
    exact ⟨o', rfl, harg hxarg⟩
  · exact ⟨x, hx, hxarg⟩

theorem Marked.put (h : s.Marked) (hp : s.heap[p]? = some o) (o' : Obj)
    (hmarks : ∀ k, (o'.body.mark k).Sound)
    (hread : o'.mArg = true → (o'.body.mark .read).isSet = true)
    (harg : o.mArg = true → o'.mArg = true) (ops : List Op) : (s.put p o' ops).Marked where
  marks q x hx := by
    rcases mem_heap_put hx with ⟨-, rfl⟩ | ⟨-, hx⟩
    · exact hmarks
    · exact h.marks q x hx
  read q x hx hxarg := by
    rcases mem_heap_put hx with ⟨-, rfl⟩ | ⟨-, hx⟩
    · exact hread hxarg
    · exact h.read q x hx hxarg
  table m hm := (h.table m hm).put hp o' harg ops

theorem Marked.note (h : s.Marked) (ops : List Op) : (s.note ops).Marked :=
  ⟨h.marks, h.read, h.table⟩
theorem Marked.crash (h : s.Marked) : s.crash.Marked := ⟨h.marks, h.read, h.table⟩

theorem Marked.setManager (h : s.Marked) {m : SessionManager Nat} (hm : s.Registered m) :
    (s.setManager m).Marked :=
  ⟨h.marks, h.read, fun _ hm' => Option.some.inj hm' ▸ hm⟩

/-- Removing a session leaves a table of registered sessions. -/
theorem Registered.getAndRemove {m : SessionManager Nat} (h : s.Registered m) (k : UInt16) :
    s.Registered (m.getAndRemove k).1 := by
  intro k' q hq
  by_cases hk : k' = k
  · rw [hk, SessionManager.get_getAndRemove_self] at hq
    cases hq
  · rw [m.get_getAndRemove_of_ne _ hk] at hq
    exact h k' q hq

theorem Registered.insert {m : SessionManager Nat} (h : s.Registered m) (k : UInt16)
    (hp : s.heap[p]? = some o) (harg : o.mArg = true) : s.Registered (m.put k (some p)).1 := by
  intro k' q hq
  by_cases hk : k' = k
  · rw [hk, SessionManager.get_put_self] at hq
    obtain rfl := Option.some.inj hq
    exact ⟨o, hp, harg⟩
  · rw [m.get_put_of_ne _ _ hk] at hq
    exact h k' q hq

theorem Marked.delete (h : s.Marked) (p : Nat) : (s.delete p).Marked := by
  rcases delete_cases s p with ⟨-, heq⟩ | ⟨o, hp, ⟨-, heq⟩ | ⟨-, heq⟩⟩
  · rw [heq]
    exact h
  · rw [heq]
    exact h.crash
  · have hput : (s.put p { o with body := o.body.destruct, destroyed := true }
        o.body.destructOps).Marked := by
      refine h.put hp { o with body := o.body.destruct, destroyed := true } (fun k => ?_)
        (fun harg => ?_) id _
      · rw [Body.mark_destruct]
        exact h.marks p o hp k
      · rw [Body.mark_destruct]
        exact h.read p o hp harg
    rw [heq]
    exact ⟨hput.marks, hput.read, hput.table⟩

/-- The destructor of a registered session deletes events that have been set. -/
theorem Marked.dels_delete (h : s.Marked) (hdels : DelsSet s.log)
    (harg : ∃ o : Obj, s.heap[p]? = some o ∧ o.mArg = true) : DelsSet (s.delete p).log := by
  obtain ⟨o, hp, harg⟩ := harg
  rcases delete_cases s p with ⟨hnone, -⟩ | ⟨x, hx, ⟨-, heq⟩ | ⟨-, heq⟩⟩
  · cases hnone.symm.trans hp
  · rw [heq]
    exact hdels
  · obtain rfl := Option.some.inj (hp.symm.trans hx)
    rw [heq]
    have hops := Body.delsSet_destructOps (h.read p o hp harg) (h.marks p o hp .write)
    exact (delsSet_append.mpr ⟨hdels, hops⟩).note nofun

/-- Deleting a session leaves the registered sessions registered. -/
theorem Registered.delete {m : SessionManager Nat} (h : s.Registered m) (p : Nat) :
    (s.delete p).Registered m := by
  rcases delete_cases s p with ⟨-, heq⟩ | ⟨o, hp, ⟨-, heq⟩ | ⟨-, heq⟩⟩
  · rw [heq]
    exact h
  · rw [heq]
    exact h
  · rw [heq]
    exact h.put hp { o with body := o.body.destruct, destroyed := true } id o.body.destructOps

theorem Marked.destroy (h : s.Marked) :
    s.destroy.Marked ∧ (DelsSet s.log → DelsSet s.destroy.log) := by
  unfold Station.destroy
  split
  · exact ⟨h, id⟩
  · rename_i m hm
    have hall := deleteAll_induction (m := m)
      (I := fun t => t.Marked ∧ t.Registered m ∧ (DelsSet s.log → DelsSet t.log))
      (fun t k q hget ⟨ht, hreg, hdels⟩ => ⟨ht.delete q, hreg.delete q,
        fun hlog => ht.dels_delete (hdels hlog) (hreg k q hget)⟩) sids ⟨h, h.table m hm, id⟩
    obtain ⟨t, ht⟩ : ∃ t, deleteAll m sids s = t := ⟨_, rfl⟩
    rw [ht] at hall ⊢
    exact ⟨⟨hall.1.marks, hall.1.read, nofun⟩, hall.2.2⟩

/-- A new session, which waits for no event without having set it. -/
theorem Marked.append {t : Station} (h : s.Marked) (ht : t.heap = s.heap ++ [o])
    (hmarks : ∀ k, (o.body.mark k).Sound)
    (hread : o.mArg = true → (o.body.mark .read).isSet = true)
    (htable : ∀ m, t.mSessionManager = some m → t.Registered m) : t.Marked where
  marks q x hx := by
    rw [ht] at hx
    rcases mem_heap_append hx with ⟨-, rfl⟩ | hx
    · exact hmarks
    · exact h.marks q x hx
  read q x hx hxarg := by
    rw [ht] at hx
    rcases mem_heap_append hx with ⟨-, rfl⟩ | hx
    · exact hread hxarg
    · exact h.read q x hx hxarg
  table := htable

theorem Registered.append {t : Station} {m : SessionManager Nat} (h : s.Registered m)
    (ht : t.heap = s.heap ++ [o]) : t.Registered m := by
  intro k q hq
  obtain ⟨x, hx, hxarg⟩ := h k q hq
  exact ⟨x, ht ▸ heap_append_old hx o, hxarg⟩

/-- A step in which no read callback gets 0 deletes only events that have been set. -/
theorem Marked.step (h : s.Marked) (hreads : ReadsOn s e) (hm : Moves s e s') :
    s'.Marked ∧ (DelsSet s.log → DelsSet s'.log) := by
  have hderef : ∀ {p live}, DelsSet s.log → DelsSet (s.log ++ [.deref p live]) :=
    fun hdels => hdels.note nofun
  cases hm with
  | @accept fd mReadBuff stream m manager closing free =>
    have hsets : DelsSet (Conn.acceptSets mReadBuff) :=
      delsSet_of_sets fun _ hop => ⟨false, Conn.mem_acceptSets hop⟩
    unfold onAccept
    rw [manager]
    refine ⟨h.append rfl (fun k => ?_) (fun _ => rfl) fun m' hm' => ?_, fun hdels => ?_⟩
    · cases k <;> exact fun _ => rfl
    · obtain rfl := Option.some.inj hm'
      exact Registered.insert ((h.table m manager).append rfl) _ List.getElem?_concat_length rfl
    · exact delsSet_append.mpr ⟨hdels, hsets⟩
  | @live p cb o b ops closing heap body alive =>
    refine ⟨h.put heap { o with body := b }
      (fun k => (h.marks p o heap k).keeps (Body.step_mark body k))
      (fun harg => (Body.step_mark body .read).isSet (h.read p o heap harg)) id ops, fun hdels => ?_⟩
    exact delsSet_append.mpr ⟨hdels, Body.delsSet_step body⟩
  | @dead p cb o b ops m manager closing heap body alive =>
    have hzero := hreads o heap
    rw [Body.step_readsZero body, alive] at hzero
    cases hzero
  | close closing => exact ⟨⟨h.marks, h.read, h.table⟩, fun hdels => hdels.note nofun⟩
  | connect free =>
    refine ⟨h.append rfl (fun k => ?_) nofun fun m hm => (h.table m hm).append rfl,
      fun hdels => hdels.note nofun⟩
    cases k <;> exact nofun
  | idle call => exact ⟨h, id⟩
  | stale p o call client heap dead => exact ⟨(h.note _).crash, hderef⟩
  | null p call => exact ⟨(h.note _).crash, hderef⟩
  | @register i p o m manager client heap live =>
    have hread := Body.isSet_addReadEvent (h.marks p o heap .read)
    have hput := (h.note [.deref p true]).put heap { o with mArg := true, body := o.body.addReadEvent }
      (fun k => (h.marks p o heap k).keeps (o.body.mark_addReadEvent k)) (fun _ => hread)
      (fun _ => rfl) o.body.addReadSets
    refine ⟨hput.setManager ?_, fun hdels => ?_⟩
    · exact Registered.insert (hput.table m manager) _
        ((heap_put heap _ o.body.addReadSets p).trans (if_pos rfl)) rfl
    · refine delsSet_append.mpr ⟨hderef hdels, delsSet_of_sets fun op hop => ?_⟩
      rw [Body.addReadSets_eq] at hop
      exact ⟨_, Flag.mem_sets hop⟩
  | fetch p o c c' client heap live body fetch =>
    have hmark : ∀ k, (Body.client c').mark k = o.body.mark k := by
      rw [body]
      exact ClientConn.fetchFileAndSave_mark fetch
    refine ⟨(h.note [.deref p true]).put heap { o with body := .client c' } (fun k => ?_)
      (fun harg => ?_) id [], fun hdels => ?_⟩
    · rw [hmark k]
      exact h.marks p o heap k
    · rw [hmark .read]
      exact h.read p o heap harg
    · exact delsSet_append.mpr ⟨hderef hdels, fun _ _ hd => absurd hd List.not_mem_nil⟩
  | missing p o m manager sockId client heap live mArg get =>
    exact ⟨(h.note _).note _, fun hdels => (hderef hdels).note nofun⟩
  | @remove i p q o m manager sockId client heap live mArg get =>
    have hmarked := ((h.note [.deref p true]).note [.disconnected i]).setManager
      (Registered.getAndRemove (h.table m manager) (UInt16.ofNat (s.clients i).mSockId))
    refine ⟨hmarked.delete q, fun hdels => hmarked.dels_delete ((hderef hdels).note nofun) ?_⟩
    exact h.table m manager _ q get
  | destroy closing => exact h.destroy

theorem mem_log_delete {op : Op} (h : op ∈ s.log) (p : Nat) : op ∈ (s.delete p).log := by
  rcases delete_cases s p with ⟨-, heq⟩ | ⟨o, hp, ⟨-, heq⟩ | ⟨-, heq⟩⟩
  · rw [heq]
    exact h
  · rw [heq]
    exact h
  · rw [heq]
    exact List.mem_append_left _ (List.mem_append_left _ h)

theorem log_closeLater (s : Station) (p : Nat) (sid : UInt16) :
    (s.closeLater p sid).log = s.log := by
  unfold closeLater
  split <;> rfl

/-- A step deletes only events that have been set exactly if no read callback gets 0. -/
theorem Marked.step_iff (h : s.Marked) (hs : s.Sane) (hdels : DelsSet s.log)
    (he : s.step e = some s') : DelsSet s'.log ↔ ReadsOn s e := by
  obtain ⟨-, hm⟩ := step_moves he
  refine ⟨fun hdels' => ?_, fun hreads => (h.step hreads hm).2 hdels⟩
  cases hm with
  | @live p cb o b ops closing heap body alive =>
    intro x hx
    obtain rfl := Option.some.inj (heap.symm.trans hx)
    rw [Body.step_readsZero body, alive]
    rfl
  | @dead p cb o b ops m manager closing heap body alive =>
    -- `onRead` deletes the timer of its session
    refine absurd (fun event isSet hd => hdels' event isSet ?_) b.not_delsSet_quitOps
    rw [log_closeLater, hs.dead_eq heap body manager]
    have hlog : Op.del event isSet ∈ ((s.put p { o with body := b.quit }
        (ops ++ [.readZero p] ++ b.quitOps)).setManager (m.getAndRemove o.sid).1).log :=
      List.mem_append_right _ (List.mem_append_right _ hd)
    split
    · exact mem_log_delete hlog p
    · exact hlog
  | accept => trivial
  | close => trivial
  | connect => trivial
  | register => trivial
  | fetch => trivial
  | missing => trivial
  | remove => trivial
  | destroy => trivial
  | idle call => cases e <;> trivial
  | stale p o call => cases e <;> trivial
  | null p call => cases e <;> trivial

/-- At every moment of every run: `event_del` has been applied only to events that
had been set, if and only if no read callback has got 0 from `readBuffer`. -/
theorem delsSet_iff {calls : List Int} {opened : Nat → Bool} {es : List StationEvent}
    (h : run step (start calls opened) es = some s) :
    (∀ as bs u, es = as ++ bs → run step (start calls opened) as = some u → DelsSet u.log) ↔
      Meets step ReadsOn (start calls opened) es := by
  have hstart : (start calls opened).Marked := by
    refine ⟨fun p o ho => ?_, fun p o ho => ?_, fun m hm k q hq => ?_⟩
    · simp [start] at ho
    · simp [start] at ho
    · obtain rfl := Option.some.inj hm
      cases hq
  exact always_iff_meets (I := fun s => s.Sane ∧ s.Marked)
    (fun _ _ _ hs hreads he => ⟨hs.1.step he, (hs.2.step hreads (step_moves he).2).1⟩)
    (fun _ _ _ hs hdels he => hs.2.step_iff hs.1 hdels he)
    ⟨sane_start calls opened, hstart⟩ (fun _ _ hd => absurd hd List.not_mem_nil) h

/-- A client connects, registers and disconnects. -/
def connectAndLeave : List StationEvent :=
  [.connect 0 6 (zeros TaskFileRecv.memLen) (zeros cmdLen) [], .registerEvent 0, .disConnect 0]

theorem delsSet_iff_connectAndLeave :
    ∃ s, run step (start [] fun _ => false) connectAndLeave = some s ∧
      ((∀ as bs u, connectAndLeave = as ++ bs →
          run step (start [] fun _ => false) as = some u → DelsSet u.log) ↔
        Meets step ReadsOn (start [] fun _ => false) connectAndLeave) := by
  have hsome : (run step (start [] fun _ => false) connectAndLeave).isSome = true := by
    decide +kernel
  obtain ⟨s, hs⟩ := Option.isSome_iff_exists.mp hsome
  exact ⟨s, hs, delsSet_iff hs⟩

/-- The peer of an accepted session closes the connection: `onRead` deletes the
timer of the session, which nothing has set. -/
theorem not_delsSet_eof :
    ∃ s, run step (start [] fun _ => false)
        [.accept 5 (zeros cmdLen) [],
          .callback 0 (.onRead (fun _ => true) ⟨.eof, .eof, true, 0, []⟩)] = some s ∧
      ¬ DelsSet s.log := by
  have hlog : (run step (start [] fun _ => false) [.accept 5 (zeros cmdLen) [],
      .callback 0 (.onRead (fun _ => true) ⟨.eof, .eof, true, 0, []⟩)]).any
        (fun s => decide (Op.del .time false ∈ s.log)) = true := by decide +kernel
  obtain ⟨s, hs, htime⟩ := (Option.any_eq_true _ _).mp hlog
  exact ⟨s, hs, fun h => Bool.noConfusion (h _ _ (of_decide_eq_true htime))⟩

end Station

end FilesEvent
