import FilesEvent.OpenFiles

/-! When the files are opened. A session of the server opens its file in the callback
that completes the request for it, a client its save file in `fetchAndSaveFile`, and
nothing opens it later. So the files that a step uses are open exactly if such an
`fopen` has succeeded before it. -/

namespace FilesEvent
open Bytes Framing Runs

/-! ## The tasks -/

namespace TaskFileSend

variable {t : TaskFileSend} {outs : List SendResult} {w : SendStep}

/-- Only `setFetchFile` opens the file, and nothing but the destructor closes it. -/
theorem writeBuffer_mpFile {fr : List UInt8} (h : t.writeBuffer fr outs = some w) :
    w.task.mpFile.isSome = t.mpFile.isSome := by
  unfold writeBuffer at h
  split at h
  · split at h
    · split at h
      · rw [putAndSend_task h]
      · split at h
        · split at h
          · obtain rfl := Option.some.inj h
            rfl
          · cases h
        · simp only [Option.bind_eq_bind, Option.bind_eq_some_iff, Option.some.injEq] at h
          obtain ⟨w', hw', rfl⟩ := h
          rw [tcpSendData_task hw']
          simp [nextBlock]
    · simp only [pushSendCmd, true_or, ↓reduceIte, Option.bind_eq_bind, Option.bind_eq_some_iff,
        Option.some.injEq] at h
      obtain ⟨w', hw', rfl⟩ := h
      rw [putAndSend_task hw']
  · rw [tcpSendData_task h]

theorem setFetchFile_mpFile {opens : Bool} {stSize : Nat}
    (h : new.setFetchFile opens stSize outs = some w) : w.task.mpFile.isSome = opens := by
  rw [setFetchFile_new] at h
  obtain ⟨w', hw', rfl⟩ := Option.map_eq_some_iff.mp h
  rw [putAndSend_task hw']
  cases opens <;> rfl

end TaskFileSend

/-! ## The sessions -/

namespace Body

variable {b b' : Body} {cb : Callback} {ops : List Op}

/-- The file of the session is open: that of its task on the server, or the save file. -/
def fileOpen : Body → Bool
  | .server c => c.sess.mTaskBase.any (·.mpFile.isSome)
  | .client c => c.sess.mTaskBase.any (·.mwFile)

/-- The session has no task, and the callback completes a request for a file that
exists and that `fopen` can open. -/
def opensFile : Body → Callback → Bool
  | .server c, .onRead access e =>
      c.sess.mTaskBase.isNone && (Body.server c).requestsFile (.onRead access e) && e.opens
  | _, _ => false

/-- A request that is read without a task opens the file that it asks for. -/
theorem readRequest_fileOpen {c : Conn} {access : List UInt8 → Bool} {e : ReadEnv}
    {g : SessionRead} (hnone : c.sess.mTaskBase = none)
    (h : (c.sess.fired .read).readRequest (handlers access) c.inbox e = some g) :
    g.sess.mTaskBase.any (·.mpFile.isSome) =
      ((Body.server c).requestsFile (.onRead access e) && e.opens) := by
  generalize hf : readFrame netFormat c.sess.rx c.inbox e.r₁ e.r₂ = f
  obtain ⟨-, ⟨hdone, -, -, hsess, -⟩ | ⟨hdone, after, hafter, -⟩⟩ := Session.readRequest_cases h hf
  · rw [hsess]
    simp [requestsFile, hf, hdone, Session.setRx, hnone]
  · simp only [requestsFile, hf, hdone, Bool.true_and]
    cases hafter with
    | fetch path t judge task ret sess =>
      rw [show Session.judge access f.rx.buf = .fetch path from judge, sess]
      simp [TaskFileSend.setFetchFile_mpFile task]
    | stay judge outs ret sess =>
      rw [show Session.judge access f.rx.buf = .stay from judge, sess]
      simp [Session.setRx, hnone]
    | refuse judge outs ret sess =>
      rw [show Session.judge access f.rx.buf = .refuse from judge, sess]
      simp [Session.setRx, hnone]
    | overrun judge outs ret sess =>
      rw [show Session.judge access f.rx.buf = .overrun from judge, sess]
      simp [Session.setRx, hnone]

/-- A callback that reads or writes for a task leaves the file as it is. -/
theorem step_fileOpen (h : b.step cb = some (b', ops)) :
    b'.fileOpen = (b.fileOpen || b.opensFile cb) := by
  cases step_cases h with
  | @onRead c _ access e g step read after =>
    have hadd : (if g.ret = 0 then g.sess else g.sess.addEvent .read).mTaskBase =
        g.sess.mTaskBase := by
      split
      · rfl
      · rw [Session.mTaskBase_addEvent]
    simp only [fileOpen, after, hadd]
    rcases Session.readBuffer_cases read with ⟨t, r, ht, -, hr, rfl⟩ | ⟨hnone, hread⟩
    · rw [Session.mTaskBase_fired] at ht
      have hfile := (TaskFileSend.readBuffer_keeps _ t _ _ _ hr).2.2.2
      have htask : (if r.arm then { c.sess.fired .read with mTaskBase := some r.task }.addWriteEvent
          else { c.sess.fired .read with mTaskBase := some r.task }).mTaskBase = some r.task := by
        split
        · rw [Session.addWriteEvent_eq, Session.mTaskBase_addEvent]
        · rfl
      simp [htask, ht, hfile, opensFile]
    · rw [Session.mTaskBase_fired] at hnone
      rw [readRequest_fileOpen hnone hread, hnone]
      simp [opensFile, hnone]
  | @onWrite c _ fr outs ret s acts step write after =>
    have hadd : (if ret = ownSockExit ∨ ret = 0 then s else s.addEvent .write).mTaskBase =
        s.mTaskBase := by
      split
      · rfl
      · rw [Session.mTaskBase_addEvent]
    simp only [fileOpen, opensFile, after, hadd, Bool.or_false]
    unfold Session.writeBuffer at write
    rw [Session.mTaskBase_fired] at write
    cases ht : c.sess.mTaskBase with
    | none =>
      rw [ht] at write
      simp only at write
      split at write
      · obtain ⟨-, hs, -⟩ : ret = 0 ∧ s = c.sess.fired .write ∧ acts = [] := by
          simpa [eq_comm] using write
        rw [hs, Session.mTaskBase_fired, ht]
      · cases write
    | some t =>
      rw [ht] at write
      obtain ⟨w, hw, heq⟩ := Option.map_eq_some_iff.mp write
      obtain ⟨-, heq⟩ := Prod.mk.inj heq
      obtain ⟨rfl, -⟩ := Prod.mk.inj heq
      simpa using TaskFileSend.writeBuffer_mpFile hw
  | @onReadClient c _ e step =>
    obtain ⟨-, -, t, g, ht, hg, s, hs, rfl⟩ := ClientConn.step_cases step
    have htask : (if g.ret = 0 then s else s.addEvent .read).mTaskBase = some g.task := by
      split
      · rw [hs]
      · rw [Session.mTaskBase_addEvent, hs]
    simp [fileOpen, opensFile, htask, ht, (TaskFileRecv.readBuffer_onOpen hg).1]

@[simp] theorem fileOpen_quit (b : Body) : b.quit.fileOpen = b.fileOpen := by
  cases b <;> rfl

@[simp] theorem fileOpen_addReadEvent (b : Body) : b.addReadEvent.fileOpen = b.fileOpen := by
  cases b <;> simp only [fileOpen, addReadEvent, Session.addReadEvent] <;> split <;>
    simp only [Session.mTaskBase_addEvent]

@[simp] theorem fileOpen_destruct (b : Body) : b.destruct.fileOpen = b.fileOpen := by
  cases b <;> simp only [fileOpen, destruct, Session.destruct] <;> split <;> rfl

/-- The callback sends a block of the file, or completes a FILES frame. -/
def UsesFile : Body → Callback → Prop
  | .server c, .onWrite _ _ => ∃ t ∈ c.sess.mTaskBase, t.ReadsFile
  | .client c, .onReadClient e => ∃ t ∈ c.sess.mTaskBase, t.CompletesFiles c.inbox e.r₁ e.r₂
  | _, _ => False

/-- The session is one of a client, with its task. -/
def Saves : Body → Prop
  | .server _ => False
  | .client c => c.sess.mTaskBase.isSome = true

theorem usesOpen_iff (b : Body) (cb : Callback) :
    b.UsesOpen cb ↔ (b.UsesFile cb → b.fileOpen = true) := by
  cases b with
  | server c =>
    cases cb with
    | onWrite fr outs =>
      cases ht : c.sess.mTaskBase <;> simp [UsesOpen, UsesFile, fileOpen, ht]
    | _ => exact iff_of_true trivial fun h => h.elim
  | client c =>
    cases cb with
    | onReadClient e =>
      cases ht : c.sess.mTaskBase <;> simp [UsesOpen, UsesFile, fileOpen, ht]
    | _ => exact iff_of_true trivial fun h => h.elim

theorem saveOpen_iff (b : Body) : b.SaveOpen ↔ (b.Saves → b.fileOpen = true) := by
  cases b with
  | server c => exact iff_of_true trivial fun h => h.elim
  | client c => cases ht : c.sess.mTaskBase <;> simp [SaveOpen, Saves, fileOpen, ht]

end Body

/-- `setFetchAndSaveFile` opens the save file once. -/
theorem TaskFileRecv.setFetchAndSaveFile_mwFile {t t' : TaskFileRecv} {remotefile : List UInt8}
    {opens : Bool} {outs₁ outs₂ : List SendResult} {acts : List Act}
    (h : t.setFetchAndSaveFile remotefile opens outs₁ outs₂ = some (t', acts)) :
    t'.mwFile = (t.mwFile || opens) := by
  unfold setFetchAndSaveFile at h
  split at h
  · rename_i hopen
    split at h
    · obtain ⟨rfl, -⟩ := Prod.mk.inj (Option.some.inj h)
      rw [hopen, Bool.true_or]
    · cases h
  · rename_i hclosed
    obtain ⟨o, -, heq⟩ := Option.bind_eq_some_iff.mp h
    obtain ⟨rfl, -⟩ := Prod.mk.inj (Option.some.inj heq)
    simp [eq_false_of_ne_true hclosed]

theorem ClientConn.fetchFileAndSave_fileOpen {c c' : ClientConn} {remoteFile : List UInt8}
    {opens : Bool} {outs₁ outs₂ : List SendResult}
    (h : c.fetchFileAndSave remoteFile opens outs₁ outs₂ = some c') :
    (Body.client c').fileOpen =
      ((Body.client c).fileOpen || (opens && c.sess.mTaskBase.isSome)) := by
  unfold fetchFileAndSave at h
  split at h
  · rename_i t ht
    obtain ⟨⟨t', acts⟩, ht', rfl⟩ := Option.map_eq_some_iff.mp h
    simp [Body.fileOpen, ht, TaskFileRecv.setFetchAndSaveFile_mwFile ht']
  · rename_i hnone
    split at h
    · obtain rfl := Option.some.inj h
      simp [hnone]
    · cases h

/-! ## The process -/

namespace Station

variable {s s' t : Station} {e : StationEvent} {p q : Nat} {o : Obj} {K : Nat → Prop}

/-- The step opens the file of the session `p`: its callback reads the request for
a file that `fopen` can open, or its client fetches into such a file. -/
inductive Opens (s : Station) : StationEvent → Nat → Prop
  | serve {p : Nat} {cb : Callback} {o : Obj} (heap : s.heap[p]? = some o)
      (opens : o.body.opensFile cb = true) : Opens s (.callback p cb) p
  | save {i p : Nat} {remoteFile : List UInt8} {outs₁ outs₂ : List SendResult} {o : Obj}
      (client : (s.clients i).mSession = some p) (heap : s.heap[p]? = some o)
      (live : o.destroyed = false) (task : o.body.Saves) :
      Opens s (.fetchAndSaveFile i remoteFile true outs₁ outs₂) p

/-- The step uses the file of the session `p`: its callback reads a block of it or
saves a FILES frame, or the step destroys it, a session of a client. -/
inductive Needs (s : Station) : StationEvent → Nat → Prop
  | callback {p : Nat} {cb : Callback} {o : Obj} (heap : s.heap[p]? = some o)
      (uses : o.body.UsesFile cb) : Needs s (.callback p cb) p
  | destructor {e : StationEvent} {p : Nat} {o : Obj} (deletes : s.Deletes e p)
      (heap : s.heap[p]? = some o) (live : o.destroyed = false) (task : o.body.Saves) :
      Needs s e p

/-- `K` are the sessions whose files are open, as long as the process has not crashed. -/
structure Tracks (s : Station) (K : Nat → Prop) : Prop where
  fileOpen : ∀ (p : Nat) (o : Obj), s.heap[p]? = some o → (o.body.fileOpen = true ↔ K p)
  bound : ∀ p, K p → p < s.heap.length

/-! ## Steps -/

theorem Tracks.put (h : s.Tracks K) (hp : s.heap[p]? = some o) (o' : Obj)
    (opens : Bool) (hopen : o'.body.fileOpen = (o.body.fileOpen || opens))
    (ht : t.heap = s.heap.set p o') : t.Tracks fun q => K q ∨ (q = p ∧ opens = true) where
  fileOpen q x hx := by
    rw [ht] at hx
    rcases mem_heap_put hx with ⟨rfl, rfl⟩ | ⟨hq, hx⟩
    · rw [hopen, Bool.or_eq_true, h.fileOpen q o hp, and_iff_right rfl]
    · rw [h.fileOpen q x hx, or_iff_left fun hqp => hq hqp.1]
  bound q hq := by
    rw [ht, List.length_set]
    rcases hq with hq | ⟨rfl, -⟩
    · exact h.bound q hq
    · exact (List.getElem?_eq_some_iff.mp hp).1

/-- A session that keeps its file as it is. -/
theorem Tracks.put_same (h : s.Tracks K) (hp : s.heap[p]? = some o) (o' : Obj)
    (hopen : o'.body.fileOpen = o.body.fileOpen) (ht : t.heap = s.heap.set p o') : t.Tracks K := by
  have hput := h.put hp o' false (by rw [hopen, Bool.or_false]) ht
  simpa using hput

theorem Tracks.congr (h : s.Tracks K) (ht : t.heap = s.heap) : t.Tracks K :=
  ⟨ht ▸ h.fileOpen, ht ▸ h.bound⟩

/-- A new session has no file. -/
theorem Tracks.append (h : s.Tracks K) (ho : o.body.fileOpen = false)
    (ht : t.heap = s.heap ++ [o]) : t.Tracks K where
  fileOpen q x hx := by
    rw [ht] at hx
    rcases mem_heap_append hx with ⟨rfl, rfl⟩ | hx
    · rw [ho]
      exact iff_of_false (by simp) fun hk => absurd (h.bound _ hk) (lt_irrefl _)
    · exact h.fileOpen q x hx
  bound q hq := by
    rw [ht, List.length_append]
    exact Nat.lt_add_right _ (h.bound q hq)

theorem Tracks.delete (h : s.Tracks K) (p : Nat) : (s.delete p).Tracks K := by
  rcases delete_cases s p with ⟨-, heq⟩ | ⟨o, hp, ⟨-, heq⟩ | ⟨-, heq⟩⟩
  · rw [heq]
    exact h
  · rw [heq]
    exact h.congr rfl
  · rw [heq]
    exact h.put_same hp { o with body := o.body.destruct, destroyed := true }
      o.body.fileOpen_destruct rfl

theorem opens_callback {cb : Callback} (hp : s.heap[p]? = some o) :
    Opens s (.callback p cb) q ↔ q = p ∧ o.body.opensFile cb = true := by
  constructor
  · rintro ⟨heap, opens⟩
    obtain rfl := Option.some.inj (hp.symm.trans heap)
    exact ⟨rfl, opens⟩
  · rintro ⟨rfl, hopens⟩
    exact .serve hp hopens

/-- What the files of the process are after a step, if it has not crashed. -/
theorem Tracks.step (h : s.Tracks K) (hs : s.Sane) (he : s.step e = some s')
    (hrun : s'.crashed = false) : s'.Tracks fun p => K p ∨ Opens s e p := by
  have hquiet : (∀ p, ¬ Opens s e p) → s'.Tracks K → s'.Tracks fun p => K p ∨ Opens s e p := by
    intro hnone hK
    simpa only [hnone, or_false] using hK
  cases (step_moves he).2 with
  | accept m manager closing free =>
    refine hquiet (fun p hp => by cases hp) ?_
    unfold onAccept
    rw [manager]
    refine h.append ?_ rfl
    rfl
  | live o b ops closing heap body alive =>
    simp only [opens_callback heap]
    exact h.put heap { o with body := b } (o.body.opensFile _) (Body.step_fileOpen body) rfl
  | @dead p cb o b ops m manager closing heap body alive =>
    simp only [opens_callback heap]
    refine Tracks.congr ?_ (heap_closeLater _ _ _)
    rw [hs.dead_eq heap body manager]
    have hput := h.put heap { o with body := b.quit } (o.body.opensFile cb)
      ((Body.fileOpen_quit b).trans (Body.step_fileOpen body))
      (t := (s.put p { o with body := b.quit } (ops ++ [.readZero p] ++ b.quitOps)).setManager
        (m.getAndRemove o.sid).1) rfl
    dsimp only
    split
    · exact hput.delete p
    · exact hput
  | close closing => exact hquiet (fun p hp => by cases hp) (h.congr rfl)
  | connect free =>
    refine hquiet (fun p hp => by cases hp) (h.append ?_ rfl)
    rfl
  | idle call unused =>
    refine hquiet (fun p hp => ?_) h
    cases hp with
    | serve heap opens => cases call
    | save client heap live task =>
      obtain rfl := Option.some.inj call
      cases unused _ _ client heap
  | stale p o call client heap dead => cases hrun
  | null p call => cases hrun
  | register p o m manager client heap live =>
    refine hquiet (fun p hp => by cases hp) ?_
    exact h.put_same heap { o with mArg := true, body := o.body.addReadEvent }
      o.body.fileOpen_addReadEvent rfl
  | @fetch i remoteFile opens outs₁ outs₂ p o c c' client heap live body fetch =>
    have hput := h.put heap { o with body := .client c' } (opens && c.sess.mTaskBase.isSome)
      (by rw [ClientConn.fetchFileAndSave_fileOpen fetch, body])
      (t := (s.note [.deref p true]).put p { o with body := .client c' } []) rfl
    have hopens : ∀ q, Opens s (.fetchAndSaveFile i remoteFile opens outs₁ outs₂) q ↔
        q = p ∧ (opens && c.sess.mTaskBase.isSome) = true := by
      intro q
      constructor
      · rintro (_ | ⟨client', heap', -, task⟩)
        obtain rfl := Option.some.inj (client.symm.trans client')
        obtain rfl := Option.some.inj (heap.symm.trans heap')
        rw [body] at task
        exact ⟨rfl, task⟩
      · rintro ⟨rfl, hboth⟩
        obtain ⟨rfl, htask⟩ := Bool.and_eq_true_iff.mp hboth
        refine .save client heap live ?_
        rw [body]
        exact htask
    simpa only [hopens] using hput
  | missing p o m manager sockId client heap live mArg get =>
    exact hquiet (fun p hp => by cases hp) (h.congr rfl)
  | remove p q o m manager sockId client heap live mArg get =>
    refine hquiet (fun p hp => by cases hp) (Tracks.delete ?_ q)
    exact h.congr rfl
  | destroy closing =>
    refine hquiet (fun p hp => by cases hp) ?_
    exact destroy_induction (I := (Tracks · K)) (fun s q hq => hq.delete q)
      (fun s hq => hq.congr rfl) h

/-- The files that a step uses are open exactly if it needs none but those opened. -/
theorem Tracks.usesOpen_iff (h : s.Tracks K) : UsesOpen s e ↔ ∀ p, Needs s e p → K p := by
  constructor
  · rintro ⟨hcb, hdel⟩ p hp
    cases hp with
    | callback heap uses =>
      exact (h.fileOpen p _ heap).mp ((Body.usesOpen_iff _ _).mp (hcb p _ _ rfl heap) uses)
    | destructor deletes heap live task =>
      exact (h.fileOpen p _ heap).mp ((Body.saveOpen_iff _).mp (hdel p _ deletes heap live) task)
  · intro hall
    constructor
    · rintro p cb o rfl ho
      exact (Body.usesOpen_iff _ _).mpr fun uses =>
        (h.fileOpen p o ho).mpr (hall p (.callback ho uses))
    · intro q o hq ho hlive
      exact (Body.saveOpen_iff _).mpr fun task =>
        (h.fileOpen q o ho).mpr (hall q (.destructor hq ho hlive task))

/-! ## Runs -/

variable {calls : List Int} {opened : Nat → Bool} {es : List StationEvent}

/-- The sessions whose files are open are those whose `fopen` has succeeded. -/
theorem tracks_of_run (h : run step (start calls opened) es = some s) (hrun : s.crashed = false) :
    s.Tracks (Occurred step Opens (start calls opened) es) := by
  have hempty : (start calls opened).Tracks fun _ => False :=
    ⟨fun p o ho => by simp [start] at ho, fun p hp => hp.elim⟩
  have hinv := run_occurred (I := fun s K => s.Sane ∧ (s.crashed = false → s.Tracks K))
    (fun u a u' K hu ha => ⟨hu.1.step ha, fun hrun' =>
      (hu.2 (step_moves ha).1).step hu.1 ha hrun'⟩)
    ⟨sane_start calls opened, fun _ => hempty⟩ h
  exact hinv.2 hrun

/-- A process that takes another step has not crashed. -/
theorem not_crashed_of_run {as bs : List StationEvent} {u : Station} (has : es = as ++ e :: bs)
    (hu : run step (start calls opened) as = some u)
    (h : run step (start calls opened) es = some s) : u.crashed = false := by
  rw [has, run_append, hu, Option.bind_some] at h
  obtain ⟨u', he, -⟩ := run_cons.mp h
  exact (step_moves he).1

/-- At every moment of every run: no session has applied `ftell`, `fread` or `fwrite`
to a null pointer if and only if each step that reads a block of the file of a session,
saves a FILES frame to it or destroys a session of a client comes after an `fopen` of
that session that has succeeded. -/
theorem filesOpen_iff (h : run step (start calls opened) es = some s) :
    (∀ as bs u, es = as ++ bs → run step (start calls opened) as = some u → u.FilesOpen) ↔
      ∀ as e bs u p, es = as ++ e :: bs → run step (start calls opened) as = some u →
        Needs u e p → Occurred step Opens (start calls opened) as p := by
  rw [filesOpen_iff_usesOpen h, meets_iff]
  refine forall₄_congr fun as e bs u => ?_
  constructor
  · intro huses p has hu hp
    have htracks := tracks_of_run hu (not_crashed_of_run has hu h)
    exact htracks.usesOpen_iff.mp (huses has hu) p hp
  · intro hall has hu
    have htracks := tracks_of_run hu (not_crashed_of_run has hu h)
    exact htracks.usesOpen_iff.mpr fun p hp => hall p has hu hp

/-- A client opens its save file, asks for a file, and the server closes the connection. -/
def fetchAndClose : List StationEvent :=
  [.connect 0 5 (zeros TaskFileRecv.memLen) (zeros cmdLen) [], .registerEvent 0,
    .fetchAndSaveFile 0 (lit "ab") true [.accepted 16] [.accepted 16],
    .callback 0 (.onReadClient ⟨.eof, .eof, [], []⟩)]

theorem filesOpen_iff_fetchAndClose :
    ∃ s, run step (start [] fun _ => false) fetchAndClose = some s ∧
      ((∀ as bs u, fetchAndClose = as ++ bs →
          run step (start [] fun _ => false) as = some u → u.FilesOpen) ↔
        ∀ as e bs u p, fetchAndClose = as ++ e :: bs →
          run step (start [] fun _ => false) as = some u → Needs u e p →
            Occurred step Opens (start [] fun _ => false) as p) := by
  have hsome : (run step (start [] fun _ => false) fetchAndClose).isSome = true := by
    decide +kernel
  obtain ⟨s, hs⟩ := Option.isSome_iff_exists.mp hsome
  exact ⟨s, hs, filesOpen_iff hs⟩

/-- Without the fetch the destructor asks for the position in a null pointer. -/
theorem not_filesOpen_destructor :
    ∃ s, run step (start [] fun _ => false)
        [.connect 0 5 (zeros TaskFileRecv.memLen) (zeros cmdLen) [], .registerEvent 0,
          .callback 0 (.onReadClient ⟨.eof, .eof, [], []⟩)] = some s ∧ ¬ s.FilesOpen := by
  have hrun : (run step (start [] fun _ => false)
      [.connect 0 5 (zeros TaskFileRecv.memLen) (zeros cmdLen) [], .registerEvent 0,
        .callback 0 (.onReadClient ⟨.eof, .eof, [], []⟩)]).any (fun s => s.heap[0]?.any fun o =>
          o.body.acts.any fun a => decide (a = .file false)) = true := by decide +kernel
  obtain ⟨s, hs, hheap⟩ := (Option.any_eq_true _ _).mp hrun
  obtain ⟨o, ho, hacts⟩ := (Option.any_eq_true _ _).mp hheap
  obtain ⟨a, ha, hfile⟩ := List.any_eq_true.mp hacts
  refine ⟨s, hs, fun h => h 0 o ho ?_⟩
  rw [of_decide_eq_true hfile] at ha
  exact ha

end Station

end FilesEvent
