import FilesEvent.SendStream
import FilesEvent.Receivers

/-! A session that serves a file. `Serves` says once what an event can do to the
task, to the write event and to the log; what holds along the runs of a session
follows from its five cases. -/

namespace FilesEvent
open Bytes Framing Runs

/-! ## What reading leaves in the log -/

namespace Act

/-- Reading, apart from the controls that ask for more to be sent. -/
def IsQuiet : Act → Prop
  | .recv _ | .frame _ _ _ | .fetch _ | .overrun => True
  | _ => False

theorem builtFrames_of_isQuiet {acts : List Act} (h : ∀ a ∈ acts, a.IsQuiet) :
    builtFrames acts = [] :=
  List.flatMap_eq_nil_iff.mpr fun a ha => by
    have := h a ha
    cases a <;> first | rfl | cases this

theorem sentCmds_of_isQuiet {acts : List Act} (h : ∀ a ∈ acts, a.IsQuiet) : sentCmds acts = [] :=
  List.flatMap_eq_nil_iff.mpr fun a ha => by
    have := h a ha
    cases a <;> first | rfl | cases this

theorem isQuiet_map_recv (asks : List Ask) : ∀ a ∈ asks.map recv, a.IsQuiet := by
  intro a ha
  obtain ⟨k, -, rfl⟩ := List.mem_map.mp ha
  trivial

theorem isQuiet_recv_frame (asks : List Ask) (w : Handler) (f rest : List UInt8) (after : List Act)
    (h : ∀ a ∈ after, a.IsQuiet) : ∀ a ∈ asks.map recv ++ frame w f rest :: after, a.IsQuiet := by
  intro a ha
  rcases List.mem_append.mp ha with ha | ha
  · exact isQuiet_map_recv _ a ha
  · rcases List.mem_cons.mp ha with rfl | ha
    · trivial
    · exact h a ha

end Act

namespace TaskFileSend

/-- A control that asks for more to be sent comes last, and asks for the write event. -/
theorem readBuffer_controls (ctl : List UInt8 → Control) (t : TaskFileSend) (inbox : List UInt8)
    (r₁ r₂ : RecvResult) :
    ∃ quiet control, (t.readBuffer ctl inbox r₁ r₂).acts = quiet ++ control ∧
      (∀ a ∈ quiet, a.IsQuiet) ∧
      ((control = [] ∧ (t.readBuffer ctl inbox r₁ r₂).arm = false) ∨
        ((control = [.start] ∨ control = [.resume]) ∧
          (t.readBuffer ctl inbox r₁ r₂).arm = true)) := by
  generalize hg : t.readBuffer ctl inbox r₁ r₂ = g
  cases readBuffer_cases hg with
  | more q _ _ step =>
    subst step
    exact ⟨_, [], (List.append_nil _).symm, Act.isQuiet_map_recv _, .inl ⟨rfl, rfl⟩⟩
  | whole q _ _ c _ step =>
    subst step
    have hquiet := Act.isQuiet_recv_frame q.asks .sender
      (q.rx.buf.take (sizeofNetCmd + q.rx.total.toNat)) q.inbox
    cases c with
    | ignored => exact ⟨_, [], (List.append_nil _).symm, hquiet [] (by simp), .inl ⟨rfl, rfl⟩⟩
    | start tmstart tmend =>
      exact ⟨_, [.start], by simp [handle], hquiet [] (by simp), .inr ⟨.inl rfl, rfl⟩⟩
    | setpause value =>
      exact ⟨_, [], (List.append_nil _).symm, hquiet [] (by simp), .inl ⟨rfl, rfl⟩⟩
    | send => exact ⟨_, [.resume], by simp [handle], hquiet [] (by simp), .inr ⟨.inr rfl, rfl⟩⟩
    | overrun =>
      exact ⟨_, [], (List.append_nil _).symm, hquiet [.overrun] (by simp [Act.IsQuiet]),
        .inl ⟨rfl, rfl⟩⟩

end TaskFileSend

/-! ## The write event -/

namespace Session

/-- The flag tells whether the write event waits to fire. -/
def WriteEventOk (s : Session TaskFileSend) : Prop := s.mWriting = s.mWriteEvent.pending

theorem WriteEventOk.addEvent {s : Session TaskFileSend} (h : s.WriteEventOk) (k : EventKind) :
    (s.addEvent k).WriteEventOk := by
  cases k <;> simp only [Session.addEvent] <;> split
  · exact h
  · exact h
  · exact h
  · rfl

@[simp] theorem mWriting_addEvent_write (s : Session TaskFileSend) :
    (s.addEvent .write).mWriting = true := by
  simp only [addEvent]
  split
  · assumption
  · rfl
@[simp] theorem mWriting_addEvent_read (s : Session TaskFileSend) :
    (s.addEvent .read).mWriting = s.mWriting := by
  simp only [addEvent]
  split <;> rfl

end Session

/-! ## One event -/

namespace Conn

/-- What an event does to a session: it reads the request, creates the task,
reads for the task, has nothing to write, or writes for the task. -/
inductive Serves (c c' : Conn) : ConnEvent → Prop
  | request (H : Handlers) (env : ReadEnv) (quiet : List Act) (task : c.sess.mTaskBase = none)
      (outs : env.outs = []) (task' : c'.sess.mTaskBase = none)
      (writing : c'.sess.mWriting = c.sess.mWriting) (acts : c'.acts = c.acts ++ quiet)
      (hquiet : ∀ a ∈ quiet, a.IsQuiet) : Serves c c' (.onRead H env)
  | create (H : Handlers) (env : ReadEnv) (quiet : List Act) (w : SendStep)
      (task : c.sess.mTaskBase = none)
      (fetch : TaskFileSend.new.setFetchFile env.opens env.stSize env.outs = some w)
      (task' : c'.sess.mTaskBase = some w.task) (writing : c'.sess.mWriting = c.sess.mWriting)
      (acts : c'.acts = c.acts ++ (quiet ++ w.acts)) (hquiet : ∀ a ∈ quiet, a.IsQuiet)
      (alive : c'.alive = true) : Serves c c' (.onRead H env)
  | read (H : Handlers) (env : ReadEnv) (t : TaskFileSend) (g : TaskRead)
      (task : c.sess.mTaskBase = some t)
      (read : t.readBuffer H.control c.inbox env.r₁ env.r₂ = g)
      (task' : c'.sess.mTaskBase = some g.task)
      (writing : c'.sess.mWriting = (c.sess.mWriting || g.arm)) (acts : c'.acts = c.acts ++ g.acts) :
      Serves c c' (.onRead H env)
  | idle (fr : List UInt8) (outs : List SendResult) (task : c.sess.mTaskBase = none)
      (task' : c'.sess.mTaskBase = none) (acts : c'.acts = c.acts) : Serves c c' (.onWrite fr outs)
  | write (fr : List UInt8) (outs : List SendResult) (t : TaskFileSend) (w : SendStep)
      (task : c.sess.mTaskBase = some t) (armed : c.sess.mWriting = true)
      (write : t.writeBuffer fr outs = some w) (task' : c'.sess.mTaskBase = some w.task)
      (writing : c'.sess.mWriting = decide (¬ (w.ret = ownSockExit ∨ w.ret = 0)))
      (acts : c'.acts = c.acts ++ w.acts) (alive : c'.alive = true) :
      Serves c c' (.onWrite fr outs)

theorem onRead_serves {H : Handlers} {c : Conn} {env : ReadEnv} {g : SessionRead}
    (hok : c.sess.WriteEventOk) (hg : (c.sess.fired .read).readBuffer H c.inbox env = some g)
    {c' : Conn} (hc' : c' = ⟨if g.ret = 0 then g.sess else g.sess.addEvent .read, g.inbox,
      c.acts ++ g.acts, decide (g.ret ≠ 0)⟩) :
    c'.sess.WriteEventOk ∧ Serves c c' (.onRead H env) := by
  have htask' : c'.sess.mTaskBase = g.sess.mTaskBase := by
    rw [hc']; simp only; split <;> simp
  have hwriting : c'.sess.mWriting = g.sess.mWriting := by
    rw [hc']; simp only; split <;> simp
  have hacts : c'.acts = c.acts ++ g.acts := by rw [hc']
  have hwrok : g.sess.WriteEventOk → c'.sess.WriteEventOk := by
    intro h
    rw [hc']
    simp only
    split
    · exact h
    · exact h.addEvent .read
  rcases Session.readBuffer_cases hg with ⟨t, r, ht, -, hr, rfl⟩ | ⟨hnone, hg⟩
  · rw [Session.mTaskBase_fired] at ht
    have hnew : ({ c.sess.fired .read with mTaskBase := some r.task } :
        Session TaskFileSend).WriteEventOk := hok
    simp only at htask' hwriting hacts
    cases harm : r.arm with
    | true =>
      rw [harm, if_pos rfl, Session.addWriteEvent_eq] at htask' hwriting
      refine ⟨hwrok ?_, .read H env t r ht hr ?_ ?_ hacts⟩
      · simp only [harm, ↓reduceIte, Session.addWriteEvent_eq]
        exact hnew.addEvent .write
      · rw [htask', Session.mTaskBase_addEvent]
      · rw [hwriting, harm, Session.mWriting_addEvent_write, Bool.or_true]
    | false =>
      rw [harm, if_neg (by decide)] at htask' hwriting
      refine ⟨hwrok ?_, .read H env t r ht hr htask' ?_ hacts⟩
      · simp only [harm, Bool.false_eq_true, ↓reduceIte]
        exact hnew
      · rw [hwriting, harm, Bool.or_false]
        rfl
  · rw [Session.mTaskBase_fired] at hnone
    obtain ⟨-, ⟨-, houts, -, hsess, hga⟩ | ⟨hdone, after, hafter, hga⟩⟩ :=
      Session.readRequest_cases hg rfl
    · refine ⟨hwrok (hsess ▸ hok), .request H env g.acts hnone houts ?_ ?_ hacts ?_⟩
      · rw [htask', hsess]; exact hnone
      · rw [hwriting, hsess]; rfl
      · rw [hga]; exact Act.isQuiet_map_recv _
    · have hquiet := Act.isQuiet_recv_frame
        (readFrame netFormat (c.sess.fired .read).rx c.inbox env.r₁ env.r₂).asks .session
        ((readFrame netFormat (c.sess.fired .read).rx c.inbox env.r₁ env.r₂).rx.buf.take
          (sizeofNetCmd +
            (readFrame netFormat (c.sess.fired .read).rx c.inbox env.r₁ env.r₂).rx.total.toNat))
        (readFrame netFormat (c.sess.fired .read).rx c.inbox env.r₁ env.r₂).inbox
      cases hafter with
      | fetch path w _ hw hret hsess =>
        refine ⟨hwrok (hsess ▸ hok), .create H env _ w hnone hw ?_ ?_ ?_ (hquiet [.fetch path] ?_) ?_⟩
        · rw [htask', hsess]
        · rw [hwriting, hsess]; rfl
        · rw [hacts, hga]; simp
        · exact List.forall_mem_singleton.mpr trivial
        · have := readFrame_ret_pos hdone
          rw [hc']
          exact decide_eq_true (by omega)
      | stay _ houts _ hsess =>
        refine ⟨hwrok (hsess ▸ hok), .request H env g.acts hnone houts ?_ ?_ hacts ?_⟩
        · rw [htask', hsess]; exact hnone
        · rw [hwriting, hsess]; rfl
        · rw [hga]; exact hquiet [] (by simp)
      | refuse _ houts _ hsess =>
        refine ⟨hwrok (hsess ▸ hok), .request H env g.acts hnone houts ?_ ?_ hacts ?_⟩
        · rw [htask', hsess]; exact hnone
        · rw [hwriting, hsess]; rfl
        · rw [hga]; exact hquiet [] (by simp)
      | overrun _ houts _ hsess =>
        refine ⟨hwrok (hsess ▸ hok), .request H env g.acts hnone houts ?_ ?_ hacts ?_⟩
        · rw [htask', hsess]; exact hnone
        · rw [hwriting, hsess]; rfl
        · rw [hga]; exact hquiet [.overrun] (List.forall_mem_singleton.mpr trivial)

theorem onWrite_serves {c : Conn} {fr : List UInt8} {outs : List SendResult} {ret : Int}
    {s : Session TaskFileSend} {acts : List Act} (hok : c.sess.WriteEventOk)
    (hpend : c.sess.mWriteEvent.pending = true)
    (hw : (c.sess.fired .write).writeBuffer fr outs = some (ret, s, acts)) {c' : Conn}
    (hc' : c' = ⟨if ret = ownSockExit ∨ ret = 0 then s else s.addEvent .write, c.inbox,
      c.acts ++ acts, true⟩) :
    c'.sess.WriteEventOk ∧ Serves c c' (.onWrite fr outs) := by
  have htask' : c'.sess.mTaskBase = s.mTaskBase := by
    rw [hc']; simp only; split <;> simp
  have hsess : s.WriteEventOk → c'.sess.WriteEventOk := by
    intro h
    rw [hc']
    simp only
    split
    · exact h
    · exact h.addEvent .write
  unfold Session.writeBuffer at hw
  split at hw
  · rename_i t ht
    rw [Session.mTaskBase_fired] at ht
    obtain ⟨w, hw', heq⟩ := Option.map_eq_some_iff.mp hw
    simp only [Prod.mk.injEq] at heq
    obtain ⟨rfl, rfl, rfl⟩ := heq
    refine ⟨hsess rfl, .write fr outs t w ht (hok.trans hpend) hw' htask' ?_ (by rw [hc'])
      (by rw [hc'])⟩
    rw [hc']
    simp only
    split
    · rename_i hret
      simp only [hret, not_true_eq_false, decide_false]
      rfl
    · rename_i hret
      simp only [hret, not_false_eq_true, decide_true, Session.mWriting_addEvent_write]
  · rename_i hnone
    rw [Session.mTaskBase_fired] at hnone
    split at hw
    · simp only [Option.some.injEq, Prod.mk.injEq] at hw
      obtain ⟨rfl, rfl, rfl⟩ := hw
      exact ⟨hsess rfl, .idle fr outs hnone (htask'.trans hnone) (by rw [hc', List.append_nil])⟩
    · cases hw

theorem step_serves {c c' : Conn} {e : ConnEvent} (hok : c.sess.WriteEventOk)
    (h : c.step e = some c') : c.alive = true ∧ c'.sess.WriteEventOk ∧ Serves c c' e := by
  obtain ⟨halive, ⟨H, env, g, rfl, -, hg, hc'⟩ | ⟨fr, outs, ret, s, acts, rfl, hpend, hw, hc'⟩⟩ :=
    step_cases h
  · exact ⟨halive, onRead_serves hok hg hc'⟩
  · exact ⟨halive, onWrite_serves hok hpend hw hc'⟩

/-- The invariant of the sender holds of the task, if there is one. -/
structure ServeInv (c : Conn) : Prop where
  event : c.sess.WriteEventOk
  task : ∀ t, c.sess.mTaskBase = some t → SendInv t

theorem ServeInv.step {c c' : Conn} {e : ConnEvent} (h : ServeInv c) (hs : c.step e = some c') :
    ServeInv c' := by
  obtain ⟨-, hok, hserves⟩ := step_serves h.event hs
  refine ⟨hok, fun t' ht' => ?_⟩
  cases hserves with
  | request _ _ _ _ _ task' => cases task'.symm.trans ht'
  | create _ _ _ w _ fetch task' =>
    obtain rfl := Option.some.inj (task'.symm.trans ht')
    exact (SendInv.setFetchFile fetch).1
  | read H env t _ task read task' =>
    obtain rfl := Option.some.inj (task'.symm.trans ht')
    rw [← read]
    exact (h.task t task).readBuffer _ _ _ _
  | idle _ _ _ task' => cases task'.symm.trans ht'
  | write _ _ t w task _ write task' =>
    obtain rfl := Option.some.inj (task'.symm.trans ht')
    exact ((h.task t task).writeBuffer write).1

theorem serveInv_onAccept (mReadBuff stream : List UInt8) :
    ServeInv (onAccept mReadBuff stream) where
  event := rfl
  task t ht := by cases ht

end Conn

end FilesEvent
