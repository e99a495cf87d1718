import FilesEvent.Sockets

/-! The connection limit. The count of the `SessionManager` is the number of sessions
that have not been torn down, so `onAccept` marks exactly the sessions above the
limit with `eExit`. Nothing reads the mark: such a session is not served only as
long as it sends no request for a file that exists. -/

namespace FilesEvent
open Bytes Framing Runs

/-- A limit is positive, whatever it is set to. -/
theorem TcpServer.mMaxConnections_pos (calls : List Int) : 0 < mMaxConnections calls := by
  have hfold : ∀ (calls : List Int) (n : Int), 0 < n →
      0 < calls.foldl (fun mMaxConnections n => if n > 0 then n else mMaxConnections) n := by
    intro calls
    induction calls with
    | nil => exact fun _ hn => hn
    | cons c calls ih =>
      intro n hn
      rw [List.foldl_cons]
      refine ih _ ?_
      split
      · assumption
      · exact hn
  exact hfold calls 256 (by decide)

/-! ## Sessions that are not served -/

namespace Body

/-- The server has a task for the session. -/
def hasTask : Body → Bool
  | .server c => c.sess.mTaskBase.isSome
  | .client _ => false

/-- There is no task for the session, and no byte has been sent to its peer. -/
def Unserved : Body → Prop
  | .server c => c.sess.mTaskBase = none ∧ Act.sentBytes c.acts = []
  | .client _ => True

variable {b b' : Body} {cb : Callback} {ops : List Op}

theorem Unserved.hasTask (h : b.Unserved) : b.hasTask = false := by
  cases b with
  | server c => simp [Body.hasTask, h.1]
  | client c => rfl

theorem unserved_quit : b.quit.Unserved ↔ b.Unserved := by
  cases b <;> exact Iff.rfl

theorem unserved_destruct : b.destruct.Unserved ↔ b.Unserved := by
  cases b with
  | server c =>
    have htask : c.sess.destruct.mTaskBase = c.sess.mTaskBase := by
      simp only [Session.destruct]
      split <;> rfl
    simp only [destruct, Unserved, htask]
  | client c => exact Iff.rfl

theorem sentBytes_recv (asks : List Ask) : Act.sentBytes (asks.map .recv) = [] := by
  simp [Act.sentBytes, List.flatMap_map]

/-- The session reads a message without a task: it gets one exactly if the message
requests a file. -/
theorem readRequest_unserved {access : List UInt8 → Bool} {s : Session TaskFileSend}
    {inbox : List UInt8} {e : ReadEnv} {g : SessionRead} (hnone : s.mTaskBase = none)
    (h : s.readRequest (handlers access) inbox e = some g) :
    (g.sess.mTaskBase = none ∧ Act.sentBytes g.acts = []) ↔
      ((readFrame netFormat s.rx inbox e.r₁ e.r₂).done && match Session.judge access
        (readFrame netFormat s.rx inbox e.r₁ e.r₂).rx.buf with
        | .fetch _ => true
        | _ => false) = false := by
  generalize hf : readFrame netFormat s.rx inbox e.r₁ e.r₂ = f
  obtain ⟨-, ⟨hdone, -, -, hsess, hacts⟩ | ⟨hdone, after, hafter, hacts⟩⟩ :=
    Session.readRequest_cases h hf
  · rw [hdone, hsess, hacts, sentBytes_recv]
    simpa [Session.setRx] using hnone
  · rw [hdone, hacts, Act.sentBytes_append, sentBytes_recv]
    cases hafter with
    | fetch path t judge task ret sess =>
      rw [show Session.judge access f.rx.buf = .fetch path from judge, sess]
      simp
    | stay judge outs ret sess =>
      rw [show Session.judge access f.rx.buf = .stay from judge, sess]
      simpa [Session.setRx, Act.sentBytes] using hnone
    | refuse judge outs ret sess =>
      rw [show Session.judge access f.rx.buf = .refuse from judge, sess]
      simpa [Session.setRx, Act.sentBytes] using hnone
    | overrun judge outs ret sess =>
      rw [show Session.judge access f.rx.buf = .overrun from judge, sess]
      simpa [Session.setRx, Act.sentBytes] using hnone

theorem writeBuffer_none {s s' : Session TaskFileSend} {fr : List UInt8} {outs : List SendResult}
    {ret : Int} {acts : List Act} (hnone : s.mTaskBase = none)
    (h : s.writeBuffer fr outs = some (ret, s', acts)) : ret = 0 ∧ s' = s ∧ acts = [] := by
  unfold Session.writeBuffer at h
  rw [hnone] at h
  simp only at h
  split at h
  · obtain ⟨hret, hrest⟩ := Prod.mk.inj (Option.some.inj h)
    obtain ⟨hs, hacts⟩ := Prod.mk.inj hrest
    exact ⟨hret.symm, hs.symm, hacts.symm⟩
  · cases h

theorem step_unserved (h : b.step cb = some (b', ops)) (hb : b.Unserved) :
    b'.Unserved ↔ b.requestsFile cb = false := by
  cases step_cases h with
  | @onRead c _ access e g step read after =>
    have hnone : (c.sess.fired .read).mTaskBase = none := hb.1
    rcases Session.readBuffer_cases read with ⟨t, r, ht, -⟩ | ⟨-, hrequest⟩
    · rw [hnone] at ht
      cases ht
    · have hiff := readRequest_unserved hnone hrequest
      have htask : (if g.ret = 0 then g.sess else g.sess.addEvent .read).mTaskBase =
          g.sess.mTaskBase := by
        split
        · rfl
        · exact g.sess.mTaskBase_addEvent .read
      simp only [Unserved, after, htask, Act.sentBytes_append, hb.2, List.nil_append]
      exact hiff
  | @onWrite c _ fr outs ret s acts step write after =>
    refine iff_of_true ?_ rfl
    have hnone : (c.sess.fired .write).mTaskBase = none := hb.1
    obtain ⟨rfl, rfl, rfl⟩ := writeBuffer_none hnone write
    simp only [Unserved, after, or_true, if_true, List.append_nil]
    exact ⟨hnone, hb.2⟩
  | onReadClient step => exact iff_of_true trivial rfl

end Body

/-! ## Counting sessions -/

theorem countP_set_add {α : Type} {l : List α} {p : Nat} {a : α} (h : l[p]? = some a) (x : α)
    (Q : α → Bool) : (l.set p x).countP Q + (if Q a then 1 else 0) =
      l.countP Q + if Q x then 1 else 0 := by
  obtain ⟨hp, rfl⟩ := List.getElem?_eq_some_iff.mp h
  have hle : (if Q l[p] then 1 else 0) ≤ l.countP Q := List.boole_getElem_le_countP hp
  rw [List.countP_set hp]
  omega

/-- The session is open and within the limit. -/
def Obj.admitted (o : Obj) : Bool := !o.torn && decide (o.mStatus ≠ .eExit)

/-- The session is open and has a task. -/
def Obj.served (o : Obj) : Bool := !o.torn && o.body.hasTask

namespace Station

open SessionManager (row)

variable {s s' t : Station} {e : StationEvent} {p q : Nat} {o o' : Obj} {ops : List Op}
  {limit : Int}

/-- The count of the table is the number of open sessions, and of these at most
`limit` are not marked. -/
structure Admits (limit : Int) (s : Station) : Prop where
  setting : s.mMaxConnections = limit
  count : ∀ (m : SessionManager Nat), s.mSessionManager = some m →
    m.getCount = s.heap.countP fun o => !o.torn
  rows : ∀ (m : SessionManager Nat), s.mSessionManager = some m → ∀ (p : Nat) (o : Obj),
    s.heap[p]? = some o → (m.mArray (row o.sid)).isSome = true
  room : (s.heap.countP Obj.admitted : Int) ≤ limit

/-- The sessions that `onAccept` has marked are not served. -/
def TurnedAway (s : Station) : Prop :=
  ∀ (p : Nat) (o : Obj), s.heap[p]? = some o → o.mStatus = .eExit → o.body.Unserved

/-- The sessions above the limit are not served, and at most `limit` sessions are. -/
structure LimitKept (limit : Int) (s : Station) : Prop where
  turnedAway : s.TurnedAway
  served : (s.heap.countP Obj.served : Int) ≤ limit

/-- No read callback of a session above the limit completes a request for a file. -/
def TurnsAway (s : Station) : StationEvent → Prop
  | .callback p cb => ∀ o ∈ s.heap[p]?, o.mStatus = .eExit → o.body.requestsFile cb = false
  | _ => True

instance (s : Station) : ∀ e, Decidable (TurnsAway s e)
  | .callback p cb =>
      inferInstanceAs (Decidable (∀ o ∈ s.heap[p]?, o.mStatus = .eExit → o.body.requestsFile cb = false))
  | .accept _ _ _ | .close | .destroy | .connect _ _ _ _ _ | .registerEvent _
  | .fetchAndSaveFile _ _ _ _ _ | .disConnect _ => isTrue trivial

theorem Admits.limitKept (h : s.Admits limit) (hturned : s.TurnedAway) : s.LimitKept limit := by
  refine ⟨hturned, ?_⟩
  have hle : s.heap.countP Obj.served ≤ s.heap.countP Obj.admitted := by
    refine List.countP_mono_left fun o ho hserved => ?_
    obtain ⟨p, hp⟩ := List.mem_iff_getElem?.mp ho
    simp only [Obj.served, Bool.and_eq_true] at hserved
    simp only [Obj.admitted, Bool.and_eq_true, decide_eq_true_eq]
    refine ⟨hserved.1, fun hexit => ?_⟩
    rw [(hturned p o hp hexit).hasTask] at hserved
    cases hserved.2
  have hroom := h.room
  omega

/-- `onAccept` marks the session if `limit` sessions are open already. -/
theorem Admits.marks (h : s.Admits limit) {m : SessionManager Nat}
    (hm : s.mSessionManager = some m) (fd : Nat) (mReadBuff stream : List UInt8) :
    ∃ o, (s.onAccept fd mReadBuff stream).heap = s.heap ++ [o] ∧ o.torn = false ∧
      o.sid = UInt16.ofNat fd ∧ o.body.Unserved ∧
      (o.mStatus = .eExit ↔ limit ≤ s.heap.countP fun o => !o.torn) := by
  unfold onAccept
  rw [hm]
  refine ⟨_, rfl, rfl, rfl, ⟨rfl, rfl⟩, ?_⟩
  have hcount : (m.put (UInt16.ofNat fd) (some s.heap.length)).1.getCount = m.getCount + 1 := rfl
  simp only [hcount, h.count m hm, h.setting]
  split
  · simp only [true_iff]
    omega
  · simp only [reduceCtorEq, false_iff]
    omega

theorem Admits.accept (h : s.Admits limit) {m : SessionManager Nat}
    (hm : s.mSessionManager = some m) (fd : Nat) (mReadBuff stream : List UInt8) :
    (s.onAccept fd mReadBuff stream).Admits limit := by
  obtain ⟨o, hheap, htorn, hsid, -, hexit⟩ := h.marks hm fd mReadBuff stream
  have hmanager : (s.onAccept fd mReadBuff stream).mSessionManager =
      some (m.put (UInt16.ofNat fd) (some s.heap.length)).1 := by
    unfold onAccept
    rw [hm]
  constructor
  · unfold onAccept
    rw [hm]
    exact h.setting
  · intro m' hm'
    obtain rfl := Option.some.inj (hmanager.symm.trans hm')
    have hcount := h.count m hm
    have hput : (m.put (UInt16.ofNat fd) (some s.heap.length)).1.getCount = m.getCount + 1 := rfl
    rw [hput, hcount, hheap, List.countP_append, List.countP_singleton, htorn]
    simp
  · intro m' hm' p x hx
    obtain rfl := Option.some.inj (hmanager.symm.trans hm')
    rw [SessionManager.isSome_put]
    rw [hheap] at hx
    rcases mem_heap_append hx with ⟨-, rfl⟩ | hx
    · simp [hsid]
    · simp [h.rows m hm p x hx]
  · have hroom := h.room
    rw [hheap, List.countP_append, List.countP_singleton]
    by_cases hstatus : o.mStatus = .eExit
    · have hadmitted : o.admitted = false := by simp [Obj.admitted, hstatus]
      simpa [hadmitted] using hroom
    · have hadmitted : o.admitted = true := by simp [Obj.admitted, htorn, hstatus]
      have hle : s.heap.countP Obj.admitted ≤ s.heap.countP fun o => !o.torn :=
        List.countP_mono_left fun o _ ho => (Bool.and_eq_true_iff.mp ho).1
      have hlt := mt hexit.mpr hstatus
      rw [if_pos hadmitted]
      omega

/-- The session `p` changes, and stays open or closed. -/
theorem Admits.put (h : s.Admits limit) (hp : s.heap[p]? = some o) (htorn : o'.torn = o.torn)
    (hstatus : o'.mStatus = o.mStatus) (hsid : o'.sid = o.sid) : (s.put p o' ops).Admits limit where
  setting := h.setting
  count m hm := by
    have hset := countP_set_add hp o' fun o => !o.torn
    rw [htorn] at hset
    rw [h.count m hm]
    exact congrArg Nat.cast (Nat.add_right_cancel hset).symm
  rows m hm q x hx := by
    rcases mem_heap_put hx with ⟨-, rfl⟩ | ⟨-, hx⟩
    · rw [hsid]
      exact h.rows m hm p o hp
    · exact h.rows m hm q x hx
  room := by
    have hset := countP_set_add hp o' Obj.admitted
    have hadmitted : o'.admitted = o.admitted := by simp only [Obj.admitted, htorn, hstatus]
    rw [hadmitted] at hset
    exact (Nat.add_right_cancel hset).symm ▸ h.room

/-- The session `p` is closed, and taken out of the table. -/
theorem Admits.remove (h : s.Admits limit) (hp : s.heap[p]? = some o) (htorn : o.torn = false)
    (htorn' : o'.torn = true) (hsid : o'.sid = o.sid) {m : SessionManager Nat}
    (hm : s.mSessionManager = some m) :
    ((s.put p o' ops).setManager (m.getAndRemove o.sid).1).Admits limit where
  setting := h.setting
  count m' hm' := by
    obtain rfl := Option.some.inj hm'
    have hset := countP_set_add hp o' fun o => !o.torn
    have hremoved : (m.getAndRemove o.sid).1.getCount = m.getCount - 1 := by
      rw [SessionManager.getCount, SessionManager.getAndRemove_count, if_pos (h.rows m hm p o hp)]
      rfl
    have hcount := h.count m hm
    simp only [htorn, htorn', Bool.not_false, Bool.not_true, if_true, Bool.false_eq_true, if_false]
      at hset
    show _ = (((s.heap.set p o').countP fun o => !o.torn : Nat) : Int)
    omega
  rows m' hm' q x hx := by
    obtain rfl := Option.some.inj hm'
    rw [SessionManager.isSome_getAndRemove]
    rcases mem_heap_put hx with ⟨-, rfl⟩ | ⟨-, hx⟩
    · rw [hsid]
      exact h.rows m hm p o hp
    · exact h.rows m hm q x hx
  room := by
    have hset := countP_set_add hp o' Obj.admitted
    have hadmitted : o'.admitted = false := by simp [Obj.admitted, htorn']
    have hroom := h.room
    rw [hadmitted] at hset
    show (((s.heap.set p o').countP Obj.admitted : Nat) : Int) ≤ limit
    split at hset
    · simp only [Bool.false_eq_true, if_false] at hset
      omega
    · simp only [Bool.false_eq_true, if_false] at hset
      omega

theorem Admits.delete (h : s.Admits limit)
    (htorn : ∀ o : Obj, s.heap[p]? = some o → o.torn = true) : (s.delete p).Admits limit := by
  rcases delete_cases s p with ⟨-, heq⟩ | ⟨o, hp, ⟨-, heq⟩ | ⟨-, heq⟩⟩
  · rw [heq]
    exact h
  · rw [heq]
    exact ⟨h.setting, h.count, h.rows, h.room⟩
  · rw [heq]
    have hput : (s.put p { o with body := o.body.destruct, destroyed := true }
        o.body.destructOps).Admits limit := h.put hp (htorn o hp).symm rfl rfl
    exact ⟨hput.setting, hput.count, hput.rows, hput.room⟩

theorem setting_delete (s : Station) (p : Nat) :
    (s.delete p).mMaxConnections = s.mMaxConnections := by
  rcases delete_cases s p with ⟨-, heq⟩ | ⟨o, hp, ⟨-, heq⟩ | ⟨-, heq⟩⟩ <;> rw [heq] <;> rfl

/-- A deletion leaves no more sessions open. -/
theorem countP_admitted_delete (s : Station) (p : Nat) :
    (s.delete p).heap.countP Obj.admitted ≤ s.heap.countP Obj.admitted := by
  rcases delete_cases s p with ⟨-, heq⟩ | ⟨o, hp, ⟨-, heq⟩ | ⟨-, heq⟩⟩
  · rw [heq]
  · rw [heq]
    exact Nat.le_refl _
  · rw [heq]
    have hset := countP_set_add hp { o with body := o.body.destruct, destroyed := true }
      Obj.admitted
    have hgone : Obj.admitted { o with body := o.body.destruct, destroyed := true } = false := rfl
    rw [hgone] at hset
    exact Nat.le_trans (Nat.le_add_right _ _) (Nat.le_of_eq hset)

/-- `Destroy` counts nothing any more. -/
theorem Admits.destroy (h : s.Admits limit) : s.destroy.Admits limit := by
  have hall : s.destroy.mMaxConnections = limit ∧
      ((s.destroy.heap.countP Obj.admitted : Nat) : Int) ≤ limit := by
    refine destroy_induction (I := fun t => t.mMaxConnections = limit ∧
      ((t.heap.countP Obj.admitted : Nat) : Int) ≤ limit) (fun t q ht => ⟨?_, ?_⟩)
      (fun _ ht => ht) ⟨h.setting, h.room⟩
    · exact (setting_delete t q).trans ht.1
    · exact Int.le_trans (Int.ofNat_le.mpr (countP_admitted_delete t q)) ht.2
  refine ⟨hall.1, fun m hm => ?_, fun m hm => ?_, hall.2⟩
  · rw [manager_destroy] at hm
    cases hm
  · rw [manager_destroy] at hm
    cases hm

theorem Admits.closeLater (h : s.Admits limit) (p : Nat) (sid : UInt16) :
    (s.closeLater p sid).Admits limit := by
  unfold Station.closeLater
  split
  · exact ⟨h.setting, h.count, h.rows, h.room⟩
  · exact h

theorem Admits.serve (h : s.Admits limit) (hs : s.Sane) (he : s.serve e = some s') :
    s'.Admits limit := by
  cases serve_moves he with
  | accept m manager => exact h.accept manager _ _ _
  | @live p cb o b ops heap body alive =>
    have htorn := ((hs.objs p o heap).not_torn body).1
    have hlive : Obj.torn { o with body := b } = false :=
      Obj.torn_eq_false.mpr ⟨(Obj.torn_eq_false.mp htorn).1, alive⟩
    exact h.put heap (hlive.trans htorn.symm) rfl rfl
  | @dead p cb o b ops m manager heap body alive =>
    have htorn := ((hs.objs p o heap).not_torn body).1
    have hquit : Obj.torn { o with body := b.quit } = true := Obj.torn_quit alive
    have hremove : ((s.put p { o with body := b.quit }
        (ops ++ [.readZero p] ++ b.quitOps)).setManager (m.getAndRemove o.sid).1).Admits limit :=
      h.remove heap htorn hquit rfl manager
    refine Admits.closeLater ?_ p o.sid
    rw [hs.dead_eq heap body manager]
    split
    · refine hremove.delete fun x hx => ?_
      rcases mem_heap_put hx with ⟨-, rfl⟩ | ⟨hne, -⟩
      · exact hquit
      · exact absurd rfl hne
    · exact hremove
  | close closing => exact ⟨h.setting, h.count, h.rows, h.room⟩
  | destroy => exact h.destroy

/-! ## The limit -/

theorem TurnedAway.delete (h : s.TurnedAway) (p : Nat) : (s.delete p).TurnedAway := by
  rcases delete_cases s p with ⟨-, heq⟩ | ⟨o, hp, ⟨-, heq⟩ | ⟨-, heq⟩⟩
  · rw [heq]
    exact h
  · rw [heq]
    exact h
  · rw [heq]
    intro q x hx hexit
    rcases mem_heap_put hx with ⟨-, rfl⟩ | ⟨-, hx⟩
    · exact Body.unserved_destruct.mpr (h p o hp hexit)
    · exact h q x hx hexit

theorem TurnedAway.destroy (h : s.TurnedAway) : s.destroy.TurnedAway :=
  destroy_induction (fun _ q hs => hs.delete q) (fun _ hs => hs) h

theorem heap_delete_self (hp : s.heap[p]? = some o) : ∃ x : Obj, (s.delete p).heap[p]? = some x ∧
    x.mStatus = o.mStatus ∧ (x.body.Unserved ↔ o.body.Unserved) := by
  rcases delete_cases s p with ⟨hnone, -⟩ | ⟨o', hp', ⟨-, heq⟩ | ⟨-, heq⟩⟩
  · rw [hp] at hnone
    cases hnone
  · exact ⟨o, by rw [heq]; exact hp, rfl, Iff.rfl⟩
  · obtain rfl := Option.some.inj (hp.symm.trans hp')
    rw [heq]
    exact ⟨_, (heap_put hp _ o.body.destructOps p).trans (if_pos rfl), rfl, Body.unserved_destruct⟩

/-- What a callback leaves: the other sessions as they are, and its own one served
as far as the callback has served it. -/
theorem Sane.callback_heap (h : s.Sane) {cb : Callback} (he : s.serve (.callback p cb) = some s') :
    ∃ o b ops x, s.heap[p]? = some o ∧ o.body.step cb = some (b, ops) ∧ s'.heap[p]? = some x ∧
      x.mStatus = o.mStatus ∧ (x.body.Unserved ↔ b.Unserved) ∧
      ∀ q, q ≠ p → s'.heap[q]? = s.heap[q]? := by
  cases serve_moves he with
  | live o b ops heap body alive =>
    refine ⟨o, b, ops, _, heap, body, (heap_put heap _ _ p).trans (if_pos rfl), rfl, Iff.rfl, ?_⟩
    exact fun q hq => (heap_put heap _ _ q).trans (if_neg hq)
  | dead o b ops m manager heap body alive =>
    have hp := (heap_put heap { o with body := b.quit } (ops ++ [.readZero p] ++ b.quitOps) p).trans
      (if_pos rfl)
    have hne := fun q (hq : q ≠ p) => (heap_put heap { o with body := b.quit }
      (ops ++ [.readZero p] ++ b.quitOps) q).trans (if_neg hq)
    simp only [heap_closeLater, h.dead_eq heap body manager]
    split
    · have hset : ((s.put p { o with body := b.quit }
          (ops ++ [.readZero p] ++ b.quitOps)).setManager (m.getAndRemove o.sid).1).heap[p]? =
        some { o with body := b.quit } := hp
      obtain ⟨x, hx, hstatus, hbody⟩ := heap_delete_self hset
      exact ⟨o, b, ops, x, heap, body, hx, hstatus, hbody.trans Body.unserved_quit,
        fun q hq => (heap_delete_of_ne hq).trans (hne q hq)⟩
    · exact ⟨o, b, ops, _, heap, body, hp, rfl, Body.unserved_quit, hne⟩

/-- A callback serves a session above the limit exactly if it completes a request
of it for a file. -/
theorem TurnedAway.callback_iff (h : s.TurnedAway) (hs : s.Sane) {cb : Callback}
    (he : s.serve (.callback p cb) = some s') :
    s'.TurnedAway ↔ TurnsAway s (.callback p cb) := by
  obtain ⟨o, b, ops, x, heap, body, hx, hstatus, hbody, hne⟩ := hs.callback_heap he
  constructor
  · intro hturned o' ho' hexit
    obtain rfl := Option.some.inj (heap.symm.trans ho')
    rw [← Body.step_unserved body (h p o heap hexit), ← hbody]
    exact hturned p x hx (hstatus.trans hexit)
  · intro haway q y hy hexit
    by_cases hq : q = p
    · subst hq
      obtain rfl := Option.some.inj (hx.symm.trans hy)
      have hexit' := hstatus.symm.trans hexit
      rw [hbody, Body.step_unserved body (h q o heap hexit')]
      exact haway o heap hexit'
    · rw [hne q hq] at hy
      exact h q y hy hexit

theorem TurnedAway.serve_iff (h : s.TurnedAway) (hs : s.Sane) (ha : s.Admits limit)
    (he : s.serve e = some s') : s'.TurnedAway ↔ TurnsAway s e := by
  cases e with
  | callback p cb => exact h.callback_iff hs he
  | accept fd mReadBuff stream =>
    refine iff_of_true ?_ trivial
    cases serve_moves he with
    | accept m manager =>
      obtain ⟨o, hheap, -, -, hbody, -⟩ := ha.marks manager fd mReadBuff stream
      intro q x hx hexit
      rw [hheap] at hx
      rcases mem_heap_append hx with ⟨-, rfl⟩ | hx
      · exact hbody
      · exact h q x hx hexit
  | close =>
    refine iff_of_true ?_ trivial
    cases serve_moves he with
    | close closing => exact h
  | destroy =>
    refine iff_of_true ?_ trivial
    cases serve_moves he with
    | destroy => exact h.destroy
  | _ => cases (serve_step he).1

/-- At every moment of a run of a server the sessions above the limit are not served,
and at most `mMaxConnections` are, exactly if no session above the limit completes a
request for a file that exists. -/
theorem limitKept_iff {calls : List Int} {opened : Nat → Bool} {es : List StationEvent}
    (h : run serve (start calls opened) es = some s) :
    (∀ as bs u, es = as ++ bs → run serve (start calls opened) as = some u →
        u.LimitKept (TcpServer.mMaxConnections calls)) ↔
      Meets serve TurnsAway (start calls opened) es := by
  have hstart : (start calls opened).Admits (TcpServer.mMaxConnections calls) := by
    refine ⟨rfl, ?_, ?_, Int.le_of_lt (TcpServer.mMaxConnections_pos calls)⟩
    · intro m hm
      obtain rfl := Option.some.inj hm
      rfl
    · intro m hm p o ho
      simp [start] at ho
  have hturned : (start calls opened).TurnedAway := fun p o ho => by simp [start] at ho
  refine always_iff_meets (I := fun s => s.Sane ∧ s.Admits (TcpServer.mMaxConnections calls))
    ?_ ?_ ⟨sane_start calls opened, hstart⟩ (hstart.limitKept hturned) h
  · intro s e s' hs _ he
    exact ⟨hs.1.step (serve_step he).2, hs.2.serve hs.1 he⟩
  · intro s e s' hs hkept he
    have hiff := hkept.turnedAway.serve_iff hs.1 hs.2 he
    rw [← hiff]
    exact ⟨fun hk => hk.turnedAway, fun ht => (hs.2.serve hs.1 he).limitKept ht⟩

/-- With a limit of 1 the second connection is marked. The first is served; the
second asks to play the file, which is no request to send it. -/
theorem limitKept_iff_play :
    let login := TaskFileRecv.loginFrame (lit "ab")
    let play := netCmd moduleMsgLogin 0 17 ++ lit "<play path=\"ab\"/>"
    let read (outs : List SendResult) : Callback :=
      .onRead (fun _ => true) ⟨.avail 4095, .avail 4095, true, 3, outs⟩
    ∃ s, run serve (start [1] fun _ => false) [.accept 5 (zeros cmdLen) login,
        .accept 6 (zeros cmdLen) play, .callback 0 (read [.accepted 1048]), .callback 1 (read [])] =
          some s ∧
      s.heap.map Obj.mStatus = [.eNormal, .eExit] ∧ s.heap.countP Obj.served = 1 ∧
        s.LimitKept (TcpServer.mMaxConnections [1]) := by
  intro login play read
  have hheap : (run serve (start [1] fun _ => false) [.accept 5 (zeros cmdLen) login,
      .accept 6 (zeros cmdLen) play, .callback 0 (read [.accepted 1048]),
      .callback 1 (read [])]).map (fun s => (s.heap.map Obj.mStatus, s.heap.countP Obj.served)) =
        some ([.eNormal, .eExit], 1) := by decide +kernel
  have hturns : Meets serve TurnsAway (start [1] fun _ => false) [.accept 5 (zeros cmdLen) login,
      .accept 6 (zeros cmdLen) play, .callback 0 (read [.accepted 1048]),
      .callback 1 (read [])] := by decide +kernel
  obtain ⟨s, hs, hboth⟩ := Option.map_eq_some_iff.mp hheap
  obtain ⟨hstatus, hserved⟩ := Prod.mk.inj hboth
  exact ⟨s, hs, hstatus, hserved,
    (limitKept_iff hs).mpr hturns _ [] s (List.append_nil _).symm hs⟩

/-- With a limit of 1 the second connection is marked, but its request is answered as
that of the first: both are served. -/
theorem not_limitKept_second :
    let accept (fd : Nat) :=
      StationEvent.accept fd (zeros cmdLen) (TaskFileRecv.loginFrame (lit "ab"))
    let read : Callback :=
      .onRead (fun _ => true) ⟨.avail 4095, .avail 4095, true, 3, [.accepted 1048]⟩
    ∃ s, run serve (start [1] fun _ => false)
        [accept 5, accept 6, .callback 0 read, .callback 1 read] = some s ∧
      s.heap.map Obj.mStatus = [.eNormal, .eExit] ∧ s.heap.countP Obj.served = 2 ∧
        ¬s.LimitKept (TcpServer.mMaxConnections [1]) := by
  intro accept read
  have hheap : (run serve (start [1] fun _ => false)
      [accept 5, accept 6, .callback 0 read, .callback 1 read]).map (fun s =>
        (s.heap.map Obj.mStatus, s.heap.countP Obj.served)) = some ([.eNormal, .eExit], 2) := by
    decide +kernel
  obtain ⟨s, hs, hboth⟩ := Option.map_eq_some_iff.mp hheap
  obtain ⟨hstatus, hserved⟩ := Prod.mk.inj hboth
  refine ⟨s, hs, hstatus, hserved, fun h => ?_⟩
  have hle := h.served
  rw [hserved] at hle
  exact absurd hle (by decide)

end Station

end FilesEvent
