import FilesEvent.Descriptors

/-! The calls of `close`. The destructor closes the descriptor of the session, and
so does the read callback after it: the descriptor is closed twice, the second time
when another connection can have it already. A teardown by `disConnect` or by the
destructor of the table closes it once. -/

namespace FilesEvent
open Bytes Framing Runs

namespace Body

/-- The read callback gets 0 from `readBuffer`. -/
def readsZero : Body → Callback → Bool
  | .server c, .onRead access e =>
      ((c.sess.fired .read).readBuffer (handlers access) c.inbox e).any fun g => g.ret == 0
  | .client c, .onReadClient e =>
      ((c.sess.fired .read).mTaskBase.bind fun t =>
        t.readBuffer c.inbox e.r₁ e.r₂ e.outs₁ e.outs₂).any fun g => g.ret == 0
  | _, _ => false

/-- A callback closes its session exactly if it gets 0 from `readBuffer`. -/
theorem step_readsZero {b b' : Body} {cb : Callback} {ops : List Op}
    (h : b.step cb = some (b', ops)) : b.readsZero cb = !b'.alive := by
  cases step_cases h with
  | onRead step read after =>
    simp [readsZero, read, after, alive, beq_eq_decide]
  | onWrite step write after =>
    rw [after]
    rfl
  | @onReadClient c _ e step =>
    obtain ⟨-, -, t, g, ht, hg, s, -, rfl⟩ := ClientConn.step_cases step
    simp [readsZero, ht, hg, alive, beq_eq_decide]

end Body

/-! ## Closes in the log -/

/-- The descriptors that the session `p` and its callback have closed. -/
def closesBy (p : Nat) (log : List Op) : List Nat :=
  log.filterMap fun op => match op with
    | .close q n _ => if q = p then some n else none
    | _ => none

/-- No descriptor is closed. -/
def Closeless (ops : List Op) : Prop := ∀ p n other, Op.close p n other ∉ ops

variable {ops ops' : List Op} {p q n : Nat} {o o' : Obj}

@[simp] theorem closesBy_append (p : Nat) (ops ops' : List Op) :
    closesBy p (ops ++ ops') = closesBy p ops ++ closesBy p ops' :=
  List.filterMap_append

@[simp] theorem closesBy_close (p q n : Nat) (other : Bool) :
    closesBy p [.close q n other] = if q = p then [n] else [] := by
  by_cases hq : q = p <;> simp [closesBy, hq]

theorem Closeless.closesBy (h : Closeless ops) (p : Nat) : closesBy p ops = [] := by
  rw [FilesEvent.closesBy, List.filterMap_eq_nil_iff]
  intro op hop
  cases op with
  | close q n other => exact absurd hop (h q n other)
  | _ => rfl

theorem Closeless.append (h : Closeless ops) (h' : Closeless ops') : Closeless (ops ++ ops') :=
  fun p n other hop => (List.mem_append.mp hop).elim (h p n other) (h' p n other)

theorem closeless_of_onEvent (h : ∀ op ∈ ops, op.onEvent = true) : Closeless ops :=
  fun p n other hop => by cases h _ hop

namespace Obj

variable {b : Body} {cb : Callback}

/-- A callback closes no descriptor before `readBuffer` has returned. -/
theorem Sane.closeless (h : o.Sane) (hb : o.body.step cb = some (b, ops)) : Closeless ops :=
  closeless_of_onEvent (h.callback_onEvent hb)

/-- Nor does it before it removes the session from the table. -/
theorem Sane.closeless_dead (h : o.Sane) (hb : o.body.step cb = some (b, ops)) (p : Nat) :
    Closeless (ops ++ [.readZero p] ++ b.quitOps) := by
  refine Closeless.append ((h.closeless hb).append ?_) (closeless_of_onEvent (onEvent_quitOps b))
  intro q n other hc
  simp at hc

end Obj

namespace Station

variable {s s' t : Station} {e : StationEvent}

/-- Each session that has been destroyed has closed its descriptor, once, and no
close has reached the descriptor of another session. -/
structure Closes (s : Station) : Prop where
  once : ∀ (p : Nat) (o : Obj), s.heap[p]? = some o →
    closesBy p s.log = if o.destroyed then [o.fd] else []
  fresh : ∀ p, s.heap.length ≤ p → closesBy p s.log = []
  own : ∀ p n other, .close p n other ∈ s.log → other = false

theorem Closes.note (h : s.Closes) (hops : Closeless ops) : (s.note ops).Closes where
  once p o ho := by
    rw [← h.once p o ho]
    simp [Station.note, hops.closesBy]
  fresh p hp := by
    rw [← h.fresh p hp]
    simp [Station.note, hops.closesBy]
  own p n other hc := (List.mem_append.mp hc).elim (h.own p n other) (absurd · (hops p n other))

theorem Closes.crash (h : s.Closes) : s.crash.Closes := ⟨h.once, h.fresh, h.own⟩
theorem Closes.setManager (h : s.Closes) (m : SessionManager Nat) : (s.setManager m).Closes :=
  ⟨h.once, h.fresh, h.own⟩

theorem Closes.put (h : s.Closes) (hp : s.heap[p]? = some o) (hfd : o'.fd = o.fd)
    (hd : o'.destroyed = o.destroyed) (hops : Closeless ops) : (s.put p o' ops).Closes where
  once q x hx := by
    have hlog : closesBy q (s.put p o' ops).log = closesBy q s.log := by
      simp [Station.put, hops.closesBy]
    rw [hlog]
    rcases mem_heap_put hx with ⟨rfl, rfl⟩ | ⟨-, hx⟩
    · rw [hfd, hd]
      exact h.once q o hp
    · exact h.once q x hx
  fresh q hq := by
    rw [← h.fresh q (by simpa [Station.put] using hq)]
    simp [Station.put, hops.closesBy]
  own q n other hc := (List.mem_append.mp hc).elim (h.own q n other) (absurd · (hops q n other))

/-- The descriptor of a session that has not been destroyed belongs to no other. -/
theorem Owns.not_belongs (h : s.Owns) (hp : s.heap[p]? = some o) (hlive : o.destroyed = false)
    (o' : Obj) (ops : List Op) : (s.put p o' ops).belongs p o.fd = false := by
  rw [belongs, List.any_eq_false]
  rintro ⟨x, q⟩ hx hbelongs
  rw [List.mem_zipIdx_iff_getElem?] at hx
  simp only [Bool.and_eq_true, decide_eq_true_eq, Bool.not_eq_true'] at hbelongs
  obtain ⟨⟨hq, htorn⟩, hfd⟩ := hbelongs
  rcases mem_heap_put hx with ⟨rfl, -⟩ | ⟨-, hx⟩
  · exact hq rfl
  · exact hq (h.distinct q p x o hx hp (Obj.torn_eq_false.mp htorn).1 hlive hfd)

theorem Closes.delete (h : s.Closes) (ho : s.Owns) (p : Nat) : (s.delete p).Closes := by
  rcases delete_cases s p with ⟨-, heq⟩ | ⟨o, hp, ⟨-, heq⟩ | ⟨hlive, heq⟩⟩
  · rw [heq]
    exact h
  · rw [heq]
    exact h.crash
  · rw [heq, ho.sid p o hp]
    have hbelongs := ho.not_belongs hp hlive { o with body := o.body.destruct, destroyed := true }
      o.body.destructOps
    have hnone : closesBy p s.log = [] := by
      rw [h.once p o hp, hlive]
      rfl
    have hops := closeless_of_onEvent (onEvent_destructOps o.body)
    constructor
    · intro q x hx
      simp only [Station.close, Station.put, closesBy_append, closesBy_close, hops.closesBy,
        List.append_nil]
      rcases mem_heap_put hx with ⟨rfl, rfl⟩ | ⟨hq, hx⟩
      · rw [hnone]
        simp
      · rw [if_neg (Ne.symm hq), List.append_nil]
        exact h.once q x hx
    · intro q hq
      have hq' : s.heap.length ≤ q := by simpa [Station.close, Station.put] using hq
      have hpq : p ≠ q := by
        have := (List.getElem?_eq_some_iff.mp hp).1
        omega
      simp only [Station.close, Station.put, closesBy_append, closesBy_close, hops.closesBy,
        if_neg hpq, List.append_nil]
      exact h.fresh q hq'
    · intro q n other hc
      rcases List.mem_append.mp hc with hc | hc
      · exact (List.mem_append.mp hc).elim (h.own q n other) (absurd · (hops q n other))
      · rw [List.mem_singleton, Op.close.injEq] at hc
        rw [hc.2.2]
        exact hbelongs

theorem Closes.append (h : s.Closes) (hlive : o.destroyed = false) (hops : Closeless ops)
    (hheap : t.heap = s.heap ++ [o]) (hlog : t.log = s.log ++ ops) : t.Closes where
  once q x hx := by
    rw [hheap] at hx
    rw [hlog, closesBy_append, hops.closesBy, List.append_nil]
    rcases mem_heap_append hx with ⟨rfl, rfl⟩ | hx
    · rw [hlive]
      exact h.fresh _ (Nat.le_refl _)
    · exact h.once q x hx
  fresh q hq := by
    rw [hheap, List.length_append] at hq
    rw [hlog, closesBy_append, hops.closesBy, List.append_nil]
    exact h.fresh q (Nat.le_trans (Nat.le_add_right _ _) hq)
  own q n other hc := by
    rw [hlog] at hc
    exact (List.mem_append.mp hc).elim (h.own q n other) (absurd · (hops q n other))

theorem Closes.destroy (h : s.Closes) (ho : s.Owns) : s.destroy.Closes := by
  have hboth : s.destroy.Owns ∧ s.destroy.Closes := by
    refine destroy_induction (I := fun s => s.Owns ∧ s.Closes)
      (fun _ q hs => ⟨hs.1.delete q, hs.2.delete hs.1 q⟩) (fun _ hs => ?_) ⟨ho, h⟩
    exact ⟨⟨hs.1.sid, hs.1.opened, hs.1.distinct, hs.1.closing, hs.1.clients⟩,
      ⟨hs.2.once, hs.2.fresh, hs.2.own⟩⟩
  exact hboth.2

/-- The descriptor of a new session fits into 16 bits, and `readBuffer` returns 0 to
the read callback only of a session on the descriptor 0. -/
def ClosesAtMostOnce (s : Station) : StationEvent → Prop
  | .accept fd _ _ | .connect _ fd _ _ _ => fd < 65536
  | .callback p cb => ∀ o ∈ s.heap[p]?, o.body.readsZero cb = true → o.sid = 0
  | _ => True

/-- No second close is to come, and none has been made. -/
structure Single (s : Station) : Prop where
  sound : s.Sound
  closing : s.closing = none
  closes : s.Closes

theorem Single.fits (h : s.Single) (hone : ClosesAtMostOnce s e) : Fits s e := by
  cases e with
  | accept fd mReadBuff stream => exact hone
  | connect i fd block mReadBuff stream => exact ⟨hone, h.closing⟩
  | _ => trivial

theorem closing_delete (s : Station) (p : Nat) : (s.delete p).closing = s.closing := by
  rcases delete_cases s p with ⟨-, heq⟩ | ⟨x, hx, ⟨-, heq⟩ | ⟨-, heq⟩⟩ <;> rw [heq] <;> rfl

theorem Single.step_closing (h : s.Single) (hone : ClosesAtMostOnce s e) (hm : Moves s e s') :
    s'.closing = none := by
  cases hm with
  | accept m manager closing free =>
    unfold onAccept
    rw [manager]
    exact closing
  | @dead p cb o b ops m manager closing heap body alive =>
    have hzero : o.body.readsZero cb = true := by
      rw [Body.step_readsZero body, alive]
      rfl
    have hsid : o.sid = 0 := hone o heap hzero
    rw [h.sound.dead_eq heap body manager, hsid]
    exact (closing_delete _ p).trans closing
  | close closing => rfl
  | remove p q o m manager sockId client heap live mArg get =>
    exact (closing_delete _ q).trans h.closing
  | destroy closing =>
    exact destroy_induction (I := fun s => s.closing = none)
      (fun t q ht => (closing_delete t q).trans ht) (fun _ ht => ht) closing
  | live => exact h.closing
  | connect => exact h.closing
  | idle => exact h.closing
  | stale => exact h.closing
  | null => exact h.closing
  | register => exact h.closing
  | fetch => exact h.closing
  | missing => exact h.closing

theorem Single.step_closes (h : s.Single) (hm : Moves s e s') : s'.Closes := by
  have hsingle : ∀ {op : Op}, (∀ p n other, op ≠ .close p n other) → Closeless [op] := by
    intro op hop p n other hc
    exact hop p n other (List.mem_singleton.mp hc).symm
  cases hm with
  | accept m manager closing free =>
    unfold onAccept
    rw [manager]
    exact h.closes.append rfl (closeless_of_onEvent (onEvent_acceptSets _)) rfl rfl
  | live o b ops closing heap body alive =>
    exact h.closes.put heap rfl rfl ((h.sound.sane.objs _ o heap).closeless body)
  | @dead p cb o b ops m manager closing heap body alive =>
    rw [h.sound.dead_eq heap body manager]
    have hput : (s.put p { o with body := b.quit } (ops ++ [.readZero p] ++ b.quitOps)).Closes :=
      h.closes.put heap rfl rfl ((h.sound.sane.objs p o heap).closeless_dead body p)
    have howns : (s.put p { o with body := b.quit } (ops ++ [.readZero p] ++ b.quitOps)).Owns :=
      h.sound.owns.put heap rfl rfl id
    have hdelete := (hput.setManager (m.getAndRemove o.sid).1).delete (howns.setManager _) p
    unfold Station.closeLater
    split
    · exact ⟨hdelete.once, hdelete.fresh, hdelete.own⟩
    · exact hdelete
  | close closing =>
    rw [h.closing] at closing
    cases closing
  | connect free => exact h.closes.append rfl (hsingle (by simp)) rfl rfl
  | idle call => exact h.closes
  | stale p o call client heap dead => exact (h.closes.note (hsingle (by simp))).crash
  | null p call => exact (h.closes.note (hsingle (by simp))).crash
  | register p o m manager client heap live =>
    have hderef : Closeless [.deref p true] := hsingle (by simp)
    have hops := closeless_of_onEvent (onEvent_addReadSets o.body)
    have hput : ((s.note [.deref p true]).put p
        { o with mArg := true, body := o.body.addReadEvent } o.body.addReadSets).Closes :=
      (h.closes.note hderef).put heap rfl rfl hops
    exact hput.setManager _
  | fetch p o c c' client heap live body fetch =>
    exact (h.closes.note (hsingle (by simp))).put heap rfl rfl (fun _ _ _ => List.not_mem_nil)
  | missing p o m manager sockId client heap live mArg get =>
    exact (h.closes.note (hsingle (by simp))).note (hsingle (by simp))
  | @remove i p q o m manager sockId client heap live mArg get =>
    have hderef : Closeless [.deref p true] := hsingle (by simp)
    have hdisconnected : Closeless [.disconnected i] := hsingle (by simp)
    have hnote := (h.closes.note hderef).note hdisconnected
    exact (hnote.setManager _).delete (((h.sound.owns.note _).note _).setManager _) q
  | destroy closing => exact h.closes.destroy h.sound.owns

theorem Single.step (h : s.Single) (hone : ClosesAtMostOnce s e) (hs : s.step e = some s') :
    s'.Single where
  sound := h.sound.step (h.fits hone) hs
  closing := h.step_closing hone (step_moves hs).2
  closes := h.step_closes (step_moves hs).2

/-- The descriptor of each session that has been torn down has been closed exactly
once, that of another not at all, and no close has reached a descriptor that
belonged to another session. -/
structure ClosedOnce (s : Station) : Prop where
  torn : ∀ (p : Nat) (o : Obj), s.heap[p]? = some o → o.torn = true → closesBy p s.log = [o.fd]
  live : ∀ (p : Nat) (o : Obj), s.heap[p]? = some o → o.torn = false → closesBy p s.log = []
  other : ∀ p n other, .close p n other ∈ s.log → other = false

theorem Single.closedOnce (h : s.Single) : s.ClosedOnce where
  torn p o ho ht := by
    rw [h.closes.once p o ho, h.sound.torn p o ho ht]
    rfl
  live p o ho ht := by
    rw [h.closes.once p o ho, (Obj.torn_eq_false.mp ht).1]
    rfl
  other := h.closes.own

/-- In every run whose descriptors fit into 16 bits, and in which no read callback of
a session on a descriptor other than 0 gets 0 from `readBuffer`, each session that is
torn down closes its descriptor once, and no other session's. -/
theorem closed_once {calls : List Int} {opened : Nat → Bool} {es : List StationEvent}
    (hone : Meets step ClosesAtMostOnce (start calls opened) es)
    (h : run step (start calls opened) es = some s) : s.ClosedOnce := by
  have hstart : (start calls opened).Single := by
    refine ⟨sound_start calls opened, rfl, ?_, fun _ _ => rfl, ?_⟩
    · intro p o ho
      simp [start] at ho
    · intro p n other hc
      cases hc
  exact (run_meets (fun _ _ _ hs he hstep => Single.step hs he hstep) hstart hone h).closedOnce

/-- A client connects and disconnects while the server has a connection. -/
theorem closed_once_disConnect :
    ∃ s, run step (start [] fun _ => false)
        [.accept 5 (zeros cmdLen) [], .connect 0 6 [] (zeros cmdLen) [], .registerEvent 0,
          .disConnect 0] = some s ∧ s.ClosedOnce := by
  have hsome : (run step (start [] fun _ => false)
      [.accept 5 (zeros cmdLen) [], .connect 0 6 [] (zeros cmdLen) [], .registerEvent 0,
        .disConnect 0]).isSome = true := by decide +kernel
  obtain ⟨s, hs⟩ := Option.isSome_iff_exists.mp hsome
  refine ⟨s, hs, closed_once (meets_of_forall (fun e he t => ?_) _) hs⟩
  simp only [List.mem_cons, List.not_mem_nil, or_false] at he
  rcases he with rfl | rfl | rfl | rfl <;> simp [ClosesAtMostOnce]

/-- The peer closes, and a client of the same process connects before the read
callback closes the descriptor again: the new session has it by then. -/
theorem not_closed_once :
    ∃ s, run step (start [] fun _ => false)
        [.accept 5 (zeros cmdLen) [],
          .callback 0 (.onRead (fun _ => true) ⟨.eof, .eof, true, 0, []⟩),
          .connect 0 5 [] (zeros cmdLen) [], .close] = some s ∧
      closesBy 0 s.log = [5, 5] ∧ Op.close 0 5 true ∈ s.log ∧ ¬s.ClosedOnce := by
  have hlog : (run step (start [] fun _ => false)
      [.accept 5 (zeros cmdLen) [], .callback 0 (.onRead (fun _ => true) ⟨.eof, .eof, true, 0, []⟩),
        .connect 0 5 [] (zeros cmdLen) [], .close]).map (fun s =>
          (closesBy 0 s.log, decide (Op.close 0 5 true ∈ s.log))) = some ([5, 5], true) := by
    decide +kernel
  obtain ⟨s, hs, hclosed⟩ := Option.map_eq_some_iff.mp hlog
  obtain ⟨htwice, hother⟩ := Prod.mk.inj hclosed
  have hmem := of_decide_eq_true hother
  refine ⟨s, hs, htwice, hmem, fun h => ?_⟩
  cases h.other 0 5 true hmem

end Station

end FilesEvent
