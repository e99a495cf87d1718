import FilesEvent.Closes

/-! The files of the two tasks. `fopen` can fail, and neither side looks at its
result: the server goes on with the size that `stat` reports, the client saves what
arrives, and its destructor asks for the position in a save file that a session
without a fetch never opens. -/

namespace FilesEvent
open Bytes Framing Runs

/-- No `ftell`, `fread` or `fwrite` is applied to a null pointer. -/
def OnOpen (acts : List Act) : Prop := Act.file false ∉ acts

theorem onOpen_append {acts acts' : List Act} :
    OnOpen (acts ++ acts') ↔ OnOpen acts ∧ OnOpen acts' := by
  simp [OnOpen]

theorem onOpen_recv (asks : List Ask) : OnOpen (asks.map .recv) := by
  simp [OnOpen]

/-! ## The tasks -/

namespace TaskFileSend

variable {t : TaskFileSend} {outs : List SendResult} {w : SendStep}

/-- The branch of `writeBuffer` that asks for the position in the file and reads
the next block. -/
def ReadsFile (t : TaskFileSend) : Prop :=
  t.mSendBuffer.totalLen = 0 ∧ t.mHasReadLen < t.mFileLen ∧ t.mMsgQueue = [] ∧
    t.mbSendingData = true

theorem tcpSendData_onOpen (h : t.tcpSendData outs = some w) : OnOpen w.acts := by
  intro hfile
  obtain ⟨cmd, bs, hsent⟩ := (tcpSendData_sent h).2 _ hfile
  cases hsent

theorem putAndSend_onOpen {cmd : List UInt8} (h : t.putAndSend cmd outs = some w) :
    OnOpen w.acts := by
  simp only [putAndSend, Option.bind_eq_bind, Option.bind_eq_some_iff, Option.some.injEq] at h
  obtain ⟨w', hw', rfl⟩ := h
  simpa [OnOpen] using tcpSendData_onOpen hw'

/-- The task is made for a path, whether or not `fopen` succeeds. -/
theorem setFetchFile_onOpen {opens : Bool} {stSize : Nat}
    (h : t.setFetchFile opens stSize outs = some w) : OnOpen w.acts := by
  unfold setFetchFile at h
  split at h
  · split at h
    · obtain rfl := Option.some.inj h
      exact List.not_mem_nil
    · cases h
  · simp only [Option.bind_eq_bind, Option.bind_eq_some_iff, Option.some.injEq] at h
    obtain ⟨w', hw', rfl⟩ := h
    have hopen := putAndSend_onOpen hw'
    exact hopen

theorem writeBuffer_onOpen {fr : List UInt8} (h : t.writeBuffer fr outs = some w) :
    OnOpen w.acts ↔ (t.ReadsFile → t.mpFile.isSome = true) := by
  unfold writeBuffer at h
  split at h
  · rename_i htotal
    split at h
    · rename_i hlt
      split at h
      · rename_i val queue hqueue
        refine iff_of_true (putAndSend_onOpen h) fun hreads => ?_
        rw [hreads.2.2.1] at hqueue
        cases hqueue
      · rename_i hqueue
        split at h
        · rename_i hpaused
          split at h
          · obtain rfl := Option.some.inj h
            refine iff_of_true List.not_mem_nil fun hreads => ?_
            rw [hreads.2.2.2] at hpaused
            cases hpaused
          · cases h
        · rename_i hsending
          simp only [Option.bind_eq_bind, Option.bind_eq_some_iff, Option.some.injEq] at h
          obtain ⟨w', hw', rfl⟩ := h
          have hreads : t.ReadsFile := ⟨htotal, hlt, hqueue, eq_true_of_ne_false hsending⟩
          rw [onOpen_append, and_iff_left (tcpSendData_onOpen hw')]
          simp only [hreads, forall_const]
          cases hfile : t.mpFile <;> simp [OnOpen, nextBlock, hfile]
    · rename_i hread
      simp only [pushSendCmd, true_or, ↓reduceIte, Option.bind_eq_bind, Option.bind_eq_some_iff,
        Option.some.injEq] at h
      obtain ⟨w', hw', rfl⟩ := h
      have hopen := putAndSend_onOpen hw'
      exact iff_of_true hopen fun hreads => absurd hreads.2.1 hread
  · rename_i htotal
    exact iff_of_true (tcpSendData_onOpen h) fun hreads => absurd hreads.1 htotal

theorem readBuffer_onOpen (ctl : List UInt8 → Control) (t : TaskFileSend) (inbox : List UInt8)
    (r₁ r₂ : RecvResult) : OnOpen (t.readBuffer ctl inbox r₁ r₂).acts := by
  cases readBuffer_cases (rfl : t.readBuffer ctl inbox r₁ r₂ = _) with
  | more f frame done step =>
    rw [step]
    exact onOpen_recv _
  | whole f frame done c control step =>
    rw [step]
    refine onOpen_append.mpr ⟨onOpen_recv _, ?_⟩
    cases c <;> simp [OnOpen, handle]

end TaskFileSend

namespace TaskFileRecv

variable {c c' : TaskFileRecv} {inbox : List UInt8} {r₁ r₂ : RecvResult}
  {outs₁ outs₂ : List SendResult}

/-- The callback completes a FILES frame. -/
def CompletesFiles (c : TaskFileRecv) (inbox : List UInt8) (r₁ r₂ : RecvResult) : Prop :=
  (readFrame netFormat c.mRecvBuffer.rx inbox r₁ r₂).done = true ∧
    dwCmd (readFrame netFormat c.mRecvBuffer.rx inbox r₁ r₂).rx.buf = moduleMsgFiles

theorem sendCmd_onOpen {cmd : Nat} {index : Int} {lpData : List UInt8} {o : CmdOut}
    (h : sendCmd cmd index lpData outs₁ outs₂ = some o) : OnOpen o.acts := by
  intro hfile
  obtain ⟨bs, hsent⟩ := sendCmd_sent h _ hfile
  cases hsent

theorem handle_onOpen {after : List Act} (h : c.handle outs₁ outs₂ = some (c', after)) :
    c'.mwFile = c.mwFile ∧
      (OnOpen after ↔ (dwCmd c.mRecvBuffer.mem = moduleMsgFiles → c.mwFile = true)) := by
  unfold handle at h
  simp only at h
  split at h
  · rename_i hlogin
    simp only [Option.bind_eq_bind, Option.bind_eq_some_iff, Option.some.injEq,
      Prod.mk.injEq] at h
    obtain ⟨o, ho, rfl, rfl⟩ := h
    refine ⟨rfl, iff_of_true (sendCmd_onOpen ho) fun hfiles => ?_⟩
    rw [hlogin] at hfiles
    cases hfiles
  · split at h
    · split at h
      · rename_i hfiles
        simp only [Option.some.injEq, Prod.mk.injEq] at h
        obtain ⟨rfl, rfl⟩ := h
        refine ⟨rfl, ?_⟩
        simp only [hfiles, forall_const]
        split <;> cases hfile : c.mwFile <;> simp [OnOpen]
      · rename_i hfiles
        simp only [Option.some.injEq, Prod.mk.injEq] at h
        obtain ⟨rfl, rfl⟩ := h
        exact ⟨rfl, iff_of_true List.not_mem_nil fun hf => absurd hf hfiles⟩
    · cases h

/-- A read callback leaves the save file as it is, and writes to it on a FILES frame. -/
theorem readBuffer_onOpen {g : RecvStep} (h : c.readBuffer inbox r₁ r₂ outs₁ outs₂ = some g) :
    g.task.mwFile = c.mwFile ∧
      (OnOpen g.acts ↔ (c.CompletesFiles inbox r₁ r₂ → c.mwFile = true)) := by
  cases readBuffer_cases h with
  | more f frame done step =>
    rw [step]
    refine ⟨rfl, iff_of_true (onOpen_recv _) fun hc => ?_⟩
    rw [CompletesFiles, frame, done] at hc
    cases hc.1
  | whole f frame done c' after handle step =>
    obtain ⟨hfile, hiff⟩ := handle_onOpen handle
    rw [step]
    refine ⟨hfile, ?_⟩
    have hframe : OnOpen (.frame .receiver (f.rx.buf.take (sizeofNetCmd + f.rx.total.toNat))
        f.inbox :: after) ↔ OnOpen after := by simp [OnOpen]
    rw [onOpen_append, and_iff_right (onOpen_recv _), hframe, hiff, CompletesFiles, frame, done]
    simp only [true_and]
    rfl
  | header r read head done len step =>
    rw [step]
    refine ⟨rfl, iff_of_true ?_ fun hc => ?_⟩
    · split <;> simp [OnOpen]
    · subst read
      rw [CompletesFiles, readFrame_done_of_empty head done len] at hc
      cases hc.1

theorem setFetchAndSaveFile_onOpen {remotefile : List UInt8} {opens : Bool} {acts : List Act}
    (h : c.setFetchAndSaveFile remotefile opens outs₁ outs₂ = some (c', acts)) : OnOpen acts := by
  unfold setFetchAndSaveFile at h
  split at h
  · split at h
    · obtain ⟨-, rfl⟩ := Prod.mk.inj (Option.some.inj h)
      exact List.not_mem_nil
    · cases h
  · obtain ⟨o, ho, heq⟩ := Option.bind_eq_some_iff.mp h
    obtain ⟨-, rfl⟩ := Prod.mk.inj (Option.some.inj heq)
    exact sendCmd_onOpen ho

end TaskFileRecv

/-! ## The sessions -/

theorem Session.readBuffer_onOpen {H : Handlers} {s : Session TaskFileSend} {inbox : List UInt8}
    {e : ReadEnv} {g : SessionRead} (h : s.readBuffer H inbox e = some g) : OnOpen g.acts := by
  rcases readBuffer_cases h with ⟨t, r, -, -, rfl, rfl⟩ | ⟨-, h⟩
  · exact t.readBuffer_onOpen H.control inbox e.r₁ e.r₂
  · obtain ⟨-, ⟨-, -, -, -, hacts⟩ | ⟨-, after, hafter, hacts⟩⟩ := readRequest_cases h rfl
    · rw [hacts]
      exact onOpen_recv _
    · have hrest : OnOpen after := by
        cases hafter with
        | fetch path t judge task ret sess =>
          simpa [OnOpen] using TaskFileSend.setFetchFile_onOpen task
        | stay => exact List.not_mem_nil
        | refuse => exact List.not_mem_nil
        | overrun => simp [OnOpen]
      rw [hacts]
      refine onOpen_append.mpr ⟨onOpen_recv _, ?_⟩
      simpa [OnOpen] using hrest

theorem Session.writeBuffer_onOpen {s s' : Session TaskFileSend} {fr : List UInt8}
    {outs : List SendResult} {ret : Int} {acts : List Act}
    (h : s.writeBuffer fr outs = some (ret, s', acts)) :
    OnOpen acts ↔ ∀ t ∈ s.mTaskBase, t.ReadsFile → t.mpFile.isSome = true := by
  unfold writeBuffer at h
  split at h
  · rename_i t ht
    obtain ⟨w, hw, heq⟩ := Option.map_eq_some_iff.mp h
    obtain ⟨-, heq⟩ := Prod.mk.inj heq
    obtain ⟨-, rfl⟩ := Prod.mk.inj heq
    simpa [ht] using TaskFileSend.writeBuffer_onOpen hw
  · rename_i hnone
    split at h
    · obtain ⟨-, heq⟩ := Prod.mk.inj (Option.some.inj h)
      obtain ⟨-, rfl⟩ := Prod.mk.inj heq
      simp [hnone, OnOpen]
    · cases h

namespace Body

variable {b b' : Body} {cb : Callback} {ops : List Op}

def acts : Body → List Act
  | .server c => c.acts
  | .client c => c.acts

/-- The save file is open, if the session has one. -/
def SaveOpen : Body → Prop
  | .server _ => True
  | .client c => ∀ t ∈ c.sess.mTaskBase, t.mwFile = true

/-- The file that a callback reads or writes is open. -/
def UsesOpen : Body → Callback → Prop
  | .server c, .onWrite _ _ => ∀ t ∈ c.sess.mTaskBase, t.ReadsFile → t.mpFile.isSome = true
  | .client c, .onReadClient e =>
      ∀ t ∈ c.sess.mTaskBase, t.CompletesFiles c.inbox e.r₁ e.r₂ → t.mwFile = true
  | _, _ => True

/-- A callback keeps the save file as it is. -/
theorem step_onOpen (h : b.step cb = some (b', ops)) :
    (OnOpen b'.acts ↔ OnOpen b.acts ∧ b.UsesOpen cb) ∧ (b'.SaveOpen ↔ b.SaveOpen) := by
  cases step_cases h with
  | onRead step read after =>
    refine ⟨?_, Iff.rfl⟩
    simp [acts, UsesOpen, after, onOpen_append, Session.readBuffer_onOpen read]
  | onWrite step write after =>
    refine ⟨?_, Iff.rfl⟩
    simp only [acts, UsesOpen, after, onOpen_append]
    refine and_congr_right fun _ => ?_
    rw [Session.writeBuffer_onOpen write, Session.mTaskBase_fired]
  | @onReadClient c _ e step =>
    obtain ⟨-, -, t, g, ht, hg, s, hs, rfl⟩ := ClientConn.step_cases step
    obtain ⟨hfile, hiff⟩ := TaskFileRecv.readBuffer_onOpen hg
    have htask : (if g.ret = 0 then s else s.addEvent .read).mTaskBase = some g.task := by
      split
      · rw [hs]
      · rw [Session.mTaskBase_addEvent, hs]
    constructor
    · simp [acts, UsesOpen, onOpen_append, ht, hiff]
    · simp [SaveOpen, htask, ht, hfile]

theorem quit_onOpen : (OnOpen b.quit.acts ↔ OnOpen b.acts) ∧ (b.quit.SaveOpen ↔ b.SaveOpen) := by
  cases b <;> exact ⟨Iff.rfl, Iff.rfl⟩

theorem addReadEvent_onOpen : OnOpen b.addReadEvent.acts ↔ OnOpen b.acts := by
  cases b <;> rfl

/-- The destructor of `TaskFileRecv` asks for the position in the save file. -/
theorem destruct_onOpen : OnOpen b.destruct.acts ↔ OnOpen b.acts ∧ b.SaveOpen := by
  cases b with
  | server c => exact (and_iff_left trivial).symm
  | client c =>
    simp only [destruct, acts, onOpen_append, SaveOpen]
    cases c.sess.mTaskBase <;> simp [OnOpen]

end Body

theorem ClientConn.fetchFileAndSave_onOpen {c c' : ClientConn} {remoteFile : List UInt8}
    {opens : Bool} {outs₁ outs₂ : List SendResult}
    (h : c.fetchFileAndSave remoteFile opens outs₁ outs₂ = some c') :
    OnOpen c'.acts ↔ OnOpen c.acts := by
  unfold fetchFileAndSave at h
  split at h
  · obtain ⟨⟨t, as⟩, ht, rfl⟩ := Option.map_eq_some_iff.mp h
    rw [onOpen_append, and_iff_left (TaskFileRecv.setFetchAndSaveFile_onOpen ht)]
  · split at h
    · obtain rfl := Option.some.inj h
      rfl
    · cases h

/-! ## The process -/

namespace Station

variable {s s' t : Station} {e : StationEvent} {p q : Nat} {o o' : Obj} {ops : List Op}

/-- No task has used a file that is not open. -/
def FilesOpen (s : Station) : Prop :=
  ∀ (p : Nat) (o : Obj), s.heap[p]? = some o → OnOpen o.body.acts

/-- The step destroys the session `q`, if it has not been destroyed before: after a
read callback that gets 0 from `readBuffer`, by `disConnect`, or with the table. -/
inductive Deletes (s : Station) : StationEvent → Nat → Prop
  | onRead {p : Nat} {cb : Callback} {o : Obj} {m : SessionManager Nat}
      (heap : s.heap[p]? = some o) (zero : o.body.readsZero cb = true) (mArg : o.mArg = true)
      (manager : s.mSessionManager = some m) (get : (m.get o.sid).1 = some p) :
      Deletes s (.callback p cb) p
  | disConnect {i p q : Nat} {o : Obj} {m : SessionManager Nat}
      (sockId : 0 < (s.clients i).mSockId) (client : (s.clients i).mSession = some p)
      (heap : s.heap[p]? = some o) (live : o.destroyed = false) (mArg : o.mArg = true)
      (manager : s.mSessionManager = some m)
      (get : (m.get (UInt16.ofNat (s.clients i).mSockId)).1 = some q) :
      Deletes s (.disConnect i) q
  | destroy {q : Nat} {m : SessionManager Nat} {k : UInt16} (manager : s.mSessionManager = some m)
      (get : (m.get k).1 = some q) : Deletes s .destroy q

/-- The files that a step uses are open: those of its callback, and the save file
of each session that it destroys. -/
structure UsesOpen (s : Station) (e : StationEvent) : Prop where
  callback : ∀ p cb o, e = .callback p cb → s.heap[p]? = some o → o.body.UsesOpen cb
  deleted : ∀ q o, s.Deletes e q → s.heap[q]? = some o → o.destroyed = false → o.body.SaveOpen

theorem FilesOpen.put_iff (h : s.FilesOpen) (hp : s.heap[p]? = some o) (o' : Obj)
    (ht : t.heap = s.heap.set p o') : t.FilesOpen ↔ OnOpen o'.body.acts := by
  constructor
  · intro hall
    refine hall p o' ?_
    rw [ht, List.getElem?_set_self (List.getElem?_eq_some_iff.mp hp).1]
  · intro ho' q x hx
    rw [ht] at hx
    rcases mem_heap_put hx with ⟨-, rfl⟩ | ⟨-, hx⟩
    · exact ho'
    · exact h q x hx

theorem FilesOpen.append (h : s.FilesOpen) (ho : o.body.acts = [])
    (ht : t.heap = s.heap ++ [o]) : t.FilesOpen := by
  intro q x hx
  rw [ht] at hx
  rcases mem_heap_append hx with ⟨-, rfl⟩ | hx
  · rw [ho]
    exact List.not_mem_nil
  · exact h q x hx

theorem filesOpen_congr (h : t.heap = s.heap) : t.FilesOpen ↔ s.FilesOpen := by
  rw [FilesOpen, FilesOpen, h]

theorem filesOpen_of_delete (h : (s.delete p).FilesOpen) : s.FilesOpen := by
  intro q x hx
  rcases delete_cases s p with ⟨-, heq⟩ | ⟨o, hp, ⟨-, heq⟩ | ⟨-, heq⟩⟩
  · rw [heq] at h
    exact h q x hx
  · rw [heq] at h
    exact h q x hx
  · by_cases hq : q = p
    · subst hq
      obtain rfl := Option.some.inj (hp.symm.trans hx)
      have hdestruct : OnOpen o.body.destruct.acts := by
        refine h q { o with body := o.body.destruct, destroyed := true } ?_
        rw [heq]
        exact (heap_put hp _ o.body.destructOps q).trans (if_pos rfl)
      exact (Body.destruct_onOpen.mp hdestruct).1
    · exact h q x ((heap_delete_of_ne hq).trans hx)

/-- Deleting a session is right exactly if its save file is open. -/
theorem filesOpen_delete : (s.delete p).FilesOpen ↔ s.FilesOpen ∧
    ∀ o, s.heap[p]? = some o → o.destroyed = false → o.body.SaveOpen := by
  rw [← and_iff_right_of_imp filesOpen_of_delete]
  refine and_congr_right fun h => ?_
  rcases delete_cases s p with ⟨hnone, heq⟩ | ⟨o, hp, ⟨hd, heq⟩ | ⟨hlive, heq⟩⟩
  · rw [heq]
    exact iff_of_true h fun o ho => by cases hnone.symm.trans ho
  · rw [heq]
    refine iff_of_true h fun x hx hlive => ?_
    obtain rfl := Option.some.inj (hp.symm.trans hx)
    cases hd.symm.trans hlive
  · rw [heq, h.put_iff hp { o with body := o.body.destruct, destroyed := true } rfl,
      Body.destruct_onOpen, and_iff_right (h p o hp)]
    constructor
    · intro hsave x hx _
      obtain rfl := Option.some.inj (hp.symm.trans hx)
      exact hsave
    · exact fun hall => hall o hp hlive

/-- The destructor of the table is right exactly if the save file of each session
in the table is open. -/
theorem filesOpen_deleteAll (m : SessionManager Nat) (ids : List UInt16) :
    (deleteAll m ids s).FilesOpen ↔ s.FilesOpen ∧ ∀ k ∈ ids, ∀ q o, (m.get k).1 = some q →
      s.heap[q]? = some o → o.destroyed = false → o.body.SaveOpen := by
  induction ids generalizing s with
  | nil => exact (and_iff_left fun k hk => absurd hk List.not_mem_nil).symm
  | cons k ids ih =>
    rw [List.forall_mem_cons, deleteAll]
    cases hget : (m.get k).1 with
    | none => simp only [ih, reduceCtorEq, false_implies, implies_true, true_and]
    | some p =>
      simp only [ih, filesOpen_delete, and_assoc, Option.some.injEq]
      refine and_congr_right fun _ => ?_
      constructor
      · rintro ⟨hone, hrest⟩
        refine ⟨fun q o hq => hq ▸ hone o, fun k' hk' q o hq ho hlive => ?_⟩
        by_cases hqp : q = p
        · exact hone o (hqp ▸ ho) hlive
        · exact hrest k' hk' q o hq ((heap_delete_of_ne hqp).trans ho) hlive
      · rintro ⟨hone, hrest⟩
        refine ⟨fun o => hone p o rfl, fun k' hk' q o hq ho hlive => ?_⟩
        -- a session that is deleted twice is not destroyed twice
        have hqp : q ≠ p := by
          rintro rfl
          cases (destroyed_of_delete ho).symm.trans hlive
        exact hrest k' hk' q o hq ((heap_delete_of_ne hqp).symm.trans ho) hlive

theorem mem_sids (k : UInt16) : k ∈ sids :=
  List.mem_map.mpr ⟨k.toNat, List.mem_range.mpr (UInt16.toNat_lt k), UInt16.ofNat_toNat⟩

/-! ## Steps -/

theorem usesOpen_callback {cb : Callback} (hp : s.heap[p]? = some o) :
    UsesOpen s (.callback p cb) ↔ o.body.UsesOpen cb ∧ ∀ m, o.body.readsZero cb = true →
      o.mArg = true → s.mSessionManager = some m → (m.get o.sid).1 = some p →
      o.destroyed = false → o.body.SaveOpen := by
  constructor
  · rintro ⟨hcb, hdel⟩
    exact ⟨hcb p cb o rfl hp, fun m hzero harg hm hget =>
      hdel p o (.onRead hp hzero harg hm hget) hp⟩
  · rintro ⟨hcb, hdel⟩
    constructor
    · rintro q cb' x heq hx
      obtain ⟨rfl, rfl⟩ := StationEvent.callback.inj heq
      obtain rfl := Option.some.inj (hp.symm.trans hx)
      exact hcb
    · intro q x hq hx hlive
      cases hq with
      | onRead heap zero mArg manager get =>
        obtain rfl := Option.some.inj (hp.symm.trans heap)
        obtain rfl := Option.some.inj (hp.symm.trans hx)
        exact hdel _ zero mArg manager get hlive

theorem usesOpen_of_deleted (hcb : ∀ p cb, e ≠ .callback p cb)
    (hdel : ∀ q o, s.Deletes e q → s.heap[q]? = some o → o.destroyed = false → o.body.SaveOpen) :
    UsesOpen s e :=
  ⟨fun p cb _ heq => absurd heq (hcb p cb), hdel⟩

/-- A step that neither runs a callback nor destroys a session uses no file. -/
theorem usesOpen_of_quiet (hcb : ∀ p cb, e ≠ .callback p cb) (hdel : ∀ q, ¬ s.Deletes e q) :
    UsesOpen s e :=
  usesOpen_of_deleted hcb fun q _ hq => absurd hq (hdel q)

theorem FilesOpen.live_iff (h : s.FilesOpen) {cb : Callback} {b : Body}
    (hp : s.heap[p]? = some o) (hb : o.body.step cb = some (b, ops)) (halive : b.alive = true) :
    (s.put p { o with body := b } ops).FilesOpen ↔ UsesOpen s (.callback p cb) := by
  have hzero : o.body.readsZero cb = false := by
    rw [Body.step_readsZero hb, halive]
    rfl
  rw [h.put_iff hp { o with body := b } rfl, usesOpen_callback hp,
    (Body.step_onOpen hb).1, and_iff_right (h p o hp), hzero]
  simp

/-- A read callback that gets 0 from `readBuffer`, up to the second `close`. -/
theorem FilesOpen.dead_iff (h : s.FilesOpen) (hs : s.Sane) {cb : Callback} {b : Body}
    {m : SessionManager Nat} (hp : s.heap[p]? = some o)
    (hb : o.body.step cb = some (b, ops)) (halive : b.alive = false)
    (hm : s.mSessionManager = some m) :
    (((s.put p { o with body := b } ops).note [.readZero p]).quit p
      { o with body := b }).FilesOpen ↔ UsesOpen s (.callback p cb) := by
  have hzero : o.body.readsZero cb = true := by
    rw [Body.step_readsZero hb, halive]
    rfl
  obtain ⟨htorn, harg⟩ := (hs.objs p o hp).not_torn hb
  have hlive := (Obj.torn_eq_false.mp htorn).1
  obtain ⟨hacts, hsave⟩ := Body.step_onOpen hb
  have hput := h.put_iff hp { o with body := b.quit }
    (t := (s.put p { o with body := b.quit } (ops ++ [.readZero p] ++ b.quitOps)).setManager
      (m.getAndRemove o.sid).1) rfl
  have hheap : ((s.put p { o with body := b.quit } (ops ++ [.readZero p] ++
      b.quitOps)).setManager (m.getAndRemove o.sid).1).heap[p]? =
        some { o with body := b.quit } :=
    (heap_put hp _ (ops ++ [.readZero p] ++ b.quitOps) p).trans (if_pos rfl)
  rw [Body.quit_onOpen.1, hacts, and_iff_right (h p o hp)] at hput
  rw [hs.dead_eq hp hb hm, usesOpen_callback hp]
  dsimp only
  generalize (s.put p { o with body := b.quit } (ops ++ [.readZero p] ++
    b.quitOps)).setManager (m.getAndRemove o.sid).1 = t at hput hheap ⊢
  split
  · rename_i hget
    rw [filesOpen_delete, hput]
    simp [hheap, hlive, hget, hzero, harg, hm, Body.quit_onOpen.2, hsave]
  · rename_i hget
    rw [hput]
    simp [hm, hget]

/-- `disConnect` with a session to destroy. -/
theorem Deletes.step_disConnect {i : Nat} (h : s.Deletes (.disConnect i) q)
    (he : s.step (.disConnect i) = some s') : ∃ t : Station, t.heap = s.heap ∧ s' = t.delete q := by
  cases h with
  | @disConnect _ p _ o m sockId client heap live mArg manager get =>
    unfold Station.step at he
    split at he
    · cases he
    · have hmanager : (s.note [.deref p true]).mSessionManager = some m := manager
      have hget : (m.get (UInt16.ofNat ((s.note [.deref p true]).clients i).mSockId)).1 =
        some q := get
      simp only [if_pos sockId, useSession, client, heap, live, Bool.not_false,
        Bool.false_eq_true, if_false, remove, mArg, if_true, hmanager,
        SessionManager.getAndRemove_session, hget, Option.isSome_some, Option.some.injEq] at he
      exact ⟨((s.note [.deref p true]).note [.disconnected i]).setManager _, rfl, he.symm⟩

theorem Deletes.unique {i q' : Nat} (h : s.Deletes (.disConnect i) q)
    (h' : s.Deletes (.disConnect i) q') : q' = q := by
  cases h with
  | disConnect sockId client heap live mArg manager get =>
    cases h' with
    | disConnect sockId' client' heap' live' mArg' manager' get' =>
      obtain rfl := Option.some.inj (manager.symm.trans manager')
      exact Option.some.inj (get'.symm.trans get)

theorem FilesOpen.disConnect_iff (h : s.FilesOpen) {i : Nat} (hq : s.Deletes (.disConnect i) q)
    (he : s.step (.disConnect i) = some s') : s'.FilesOpen ↔ UsesOpen s (.disConnect i) := by
  obtain ⟨t, ht, rfl⟩ := hq.step_disConnect he
  rw [filesOpen_delete, filesOpen_congr ht, ht, and_iff_right h]
  constructor
  · intro hsave
    refine usesOpen_of_deleted (fun _ _ heq => by cases heq) fun q' o hq' ho hlive => ?_
    rw [hq.unique hq'] at ho
    exact hsave o ho hlive
  · exact fun huse o => huse.deleted q o hq

theorem FilesOpen.destroy_iff (h : s.FilesOpen) : s.destroy.FilesOpen ↔ UsesOpen s .destroy := by
  unfold Station.destroy
  split
  · rename_i hnone
    refine iff_of_true h (usesOpen_of_quiet nofun fun q hq => ?_)
    cases hq with
    | destroy manager get => cases hnone.symm.trans manager
  · rename_i m hm
    have hiff := filesOpen_deleteAll (s := s) m sids
    rw [and_iff_right h] at hiff
    obtain ⟨t, ht⟩ : ∃ t, deleteAll m sids s = t := ⟨_, rfl⟩
    rw [ht] at hiff ⊢
    refine Iff.trans (filesOpen_congr rfl) (hiff.trans ?_)
    constructor
    · intro hall
      refine usesOpen_of_deleted (fun _ _ heq => by cases heq) fun q o hq ho hlive => ?_
      cases hq with
      | @destroy _ m' k manager get =>
        obtain rfl := Option.some.inj (hm.symm.trans manager)
        exact hall k (mem_sids k) q o get ho hlive
    · exact fun huse k _ q o hget => huse.deleted q o (.destroy hm hget)

/-- A step keeps to open files exactly if those that it uses are open. -/
theorem FilesOpen.step_iff (h : s.FilesOpen) (hs : s.Sane) (he : s.step e = some s') :
    s'.FilesOpen ↔ UsesOpen s e := by
  by_cases hdel : ∃ i q, e = .disConnect i ∧ s.Deletes e q
  · obtain ⟨i, q, rfl, hq⟩ := hdel
    exact h.disConnect_iff hq he
  have hcall : ∀ {i}, e.usedBy = some i → UsesOpen s e := by
    intro i hi
    refine usesOpen_of_quiet (fun p cb heq => ?_) (fun q hq => ?_)
    · rw [heq] at hi
      cases hi
    · cases e with
      | disConnect j => exact hdel ⟨j, q, rfl, hq⟩
      | registerEvent j => cases hq
      | fetchAndSaveFile j remoteFile opens outs₁ outs₂ => cases hq
      | _ => cases hi
  cases (step_moves he).2 with
  | accept m manager closing free =>
    refine iff_of_true ?_ (usesOpen_of_quiet nofun nofun)
    unfold onAccept
    rw [manager]
    refine h.append ?_ rfl
    rfl
  | live o b ops closing heap body alive => exact h.live_iff heap body alive
  | dead o b ops m manager closing heap body alive =>
    rw [filesOpen_congr (heap_closeLater _ _ _), h.dead_iff hs heap body alive manager]
  | close closing => exact iff_of_true h (usesOpen_of_quiet nofun nofun)
  | connect free =>
    refine iff_of_true (h.append ?_ rfl) (usesOpen_of_quiet nofun nofun)
    rfl
  | idle call => exact iff_of_true h (hcall call)
  | stale p o call client heap dead => exact iff_of_true h (hcall call)
  | null p call => exact iff_of_true h (hcall call)
  | register p o m manager client heap live =>
    refine iff_of_true ?_ (hcall rfl)
    refine (h.put_iff heap { o with mArg := true, body := o.body.addReadEvent } rfl).mpr ?_
    exact Body.addReadEvent_onOpen.mpr (h p o heap)
  | fetch p o c c' client heap live body fetch =>
    refine iff_of_true ?_ (hcall rfl)
    refine (h.put_iff heap { o with body := .client c' } rfl).mpr ?_
    have hopen := h p o heap
    rw [body] at hopen
    exact (ClientConn.fetchFileAndSave_onOpen fetch).mpr hopen
  | missing p o m manager sockId client heap live mArg get => exact iff_of_true h (hcall rfl)
  | remove p q o m manager sockId client heap live mArg get =>
    exact absurd ⟨_, q, rfl, .disConnect sockId client heap live mArg manager get⟩ hdel
  | destroy closing => exact h.destroy_iff

/-- At every moment of every run: no session has applied `ftell`, `fread` or `fwrite`
to a null pointer if and only if each step found the files that it uses open. -/
theorem filesOpen_iff_usesOpen {calls : List Int} {opened : Nat → Bool} {es : List StationEvent}
    (h : run step (start calls opened) es = some s) :
    (∀ as bs u, es = as ++ bs → run step (start calls opened) as = some u → u.FilesOpen) ↔
      Meets step UsesOpen (start calls opened) es := by
  have hstart : (start calls opened).FilesOpen := fun p o ho => by simp [start] at ho
  exact always_iff_meets (I := Sane) (fun _ _ _ hs _ he => hs.step he)
    (fun _ _ _ hs hopen he => hopen.step_iff hs he) (sane_start calls opened) hstart h

end Station

end FilesEvent
