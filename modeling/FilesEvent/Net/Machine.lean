import FilesEvent.Net.Single
import FilesEvent.Lib.Tally

/-! The machine of the event library: what an application may do at each moment so that
no step fails, and what then holds over every run. -/

namespace FilesEvent.Net
open RedBlack What

structure Sound (m : Machine) : Prop where
  good : Good m.s
  phase : m.phase = .out ↔ m.s.locals = none
  queue : ∀ l ∈ m.s.locals, l.activeq < m.s.qs.activequeues.length

/-- What may be said to `event_set` about the event. -/
structure Settable (s : State) (a : Addr) (fd : Int) (events : What) : Prop where
  free : ∀ q, (s.mem a).flags.get q = false
  idle : ¬Running s a
  one : ¬(events.io = true ∧ events.signal = true)
  range : events.io = true → 0 ≤ fd ∧ fd < s.epoll.fds.length
  number : events.signal = true → 0 ≤ fd ∧ fd < NSIG
  pipe : events.io = true → fd ≠ (s.mem s.ev_signal).fd

/-- A call that the library has been made for. The events of the application are not
the internal one. -/
def Call.Orderly (s : State) : Call → Prop
  | .set a fd events => a ≠ s.ev_signal ∧ Settable s a fd events
  | .baseSet a => a ≠ s.ev_signal ∧ (s.mem a).flags.init = true
  | .prioritySet a _ => a ≠ s.ev_signal ∧ (s.mem a).flags.init = true
  | .add a now tv => a ≠ s.ev_signal ∧ (s.mem a).flags.init = true ∧ ¬CutShort s a ∧
      now.Valid ∧ (∀ t ∈ tv, t.Delay) ∧ Free s a
  | .del a => a ≠ s.ev_signal ∧ s.readable a = true ∧ ¬CutShort s a
  | .active a _ _ => a ≠ s.ev_signal ∧ (s.mem a).flags.init = true ∧ ¬Running s a
  | .exit => True

/-- A step that can come next. A descriptor is closed after the events that wait for
it were deleted. In a turn the kernel reports what it watches after `evsignal_recalc`. -/
def Orderly (m : Machine) : Step → Prop
  | .call c => m.phase ≠ .active ∧ c.Orderly m.s
  | .openFd _ => True
  | .closeFd fd => fd ≠ (m.s.mem m.s.ev_signal).fd ∧
      ∀ a, (m.s.mem a).flags.inserted = true → (m.s.mem a).fd ≠ fd
  | .signal sig => m.s.sig.handler sig = true
  | .turn now _ signals w => m.phase = .out ∧ now.Valid ∧
      (∀ sig ∈ signals, m.s.recalced.sig.handler sig = true) ∧
      ∀ r ∈ w.reports, Reported m.s.recalced.epoll r
  | .invoke => m.phase = .active ∧ ∃ l ∈ m.s.locals, l.ncalls ≠ 0
  | .ret => m.phase = .callback
  | .next => m.phase = .active ∧ ∃ l ∈ m.s.locals, l.ncalls = 0

/-! ### `event_set` and the priorities -/

/-- A change of an event that is in no queue, or of fields that its queues do not
depend on. -/
theorem Good.alter {s : State} {a : Addr} {ev : Event} (hg : Good s)
    (hget : ∀ q, ev.flags.get q = (s.mem a).flags.get q)
    (hsame : ∀ q, (s.mem a).flags.get q = true → ev.flags.internal = (s.mem a).flags.internal ∧
      ev.flags.init = true ∧ ev.timeout = (s.mem a).timeout ∧ ev.fd = (s.mem a).fd ∧
      ev.events = (s.mem a).events)
    (hpri : ev.flags.init = true → ev.pri < s.qs.activequeues.length)
    (hact : (s.mem a).flags.active = true → ev.pri = (s.mem a).pri)
    (hok : EventOk s.epoll.fds.length ev) (ha : a ≠ s.ev_signal)
    (hcalls : Running s a → ev.ncalls = (s.mem a).ncalls ∧ ev.pncalls = (s.mem a).pncalls)
    (hcut : CutShort { s with mem := s.mem.set a ev } a → CutShort s a)
    (hfd : ev.flags.init = true → ev.events.io = true → ev.fd ≠ (s.mem s.ev_signal).fd) :
    Good { s with mem := s.mem.set a ev } := by
  have hself : s.mem.set a ev a = ev := set_self ..
  have hother : ∀ x, x ≠ a → s.mem.set a ev x = s.mem x := fun x e => set_ne e _
  have hf : Frame s { s with mem := s.mem.set a ev } := by constructor <;> rfl
  have hw : Wf (s.mem.set a ev) s.qs :=
    hg.wf.alter hget (fun q hq => ⟨(hsame q hq).1, (hsame q hq).2.1⟩)
      (fun h => (hsame .timeout h).2.2.1) hpri hact
  have ht : Table (s.mem.set a ev) s.epoll := by
    refine hg.table.congr fun x => ?_
    rcases eq_or_ne x a with rfl | e
    · rw [hself]
      exact ⟨hget .inserted, fun hi => (hsame .inserted hi).2.2.2⟩
    · rw [hother x e]
      exact ⟨rfl, fun _ => ⟨rfl, rfl⟩⟩
  have hok' : EventOk s.epoll.fds.length (s.mem.set a ev a) := by rwa [hself]
  have hcalls' : Running s a → (s.mem.set a ev a).ncalls = (s.mem a).ncalls ∧
      (s.mem.set a ev a).pncalls = (s.mem a).pncalls := by rwa [hself]
  have hfd' : (s.mem.set a ev a).flags.init = true → (s.mem.set a ev a).events.io = true →
      (s.mem.set a ev a).fd ≠ (s.mem s.ev_signal).fd := by rwa [hself]
  have htidy : CutShort s a → ∀ q, (s.mem.set a ev a).flags.get q = false := by
    intro h q
    rw [hself, hget]
    exact hg.tidy a h q
  exact hg.update hf hw ht hother hok' (fun l hl hn => ⟨hl, fun e => hcalls' ⟨l, hl, e, hn⟩⟩)
    (fun x _ hx => hx) (fun h => htidy (hcut h)) (hg.pipe.other hf ha hother hfd')

theorem eventSet_good {s : State} {a : Addr} {fd : Int} {events : What} (hg : Good s)
    (ha : a ≠ s.ev_signal) (hs : Settable s a fd events) : Good (eventSet s a fd events) := by
  have hq := hg.wf.queues
  refine hg.alter (fun q => ?_) (fun q h => ?_) (fun _ => by simp only; omega) (fun h => ?_)
    ⟨nofun, nofun, fun _ => hs.one, fun _ => hs.range, fun _ => hs.number, nofun⟩ ha
    (fun h => absurd h hs.idle) (fun h => ?_) fun _ => hs.pipe
  · rw [hs.free q]
    cases q <;> rfl
  · rw [hs.free q] at h
    cases h
  · rw [show (s.mem a).flags.active = (s.mem a).flags.get .active from rfl, hs.free] at h
    cases h
  · have h₁ := h.1
    simp only [set_self] at h₁
    exact absurd rfl h₁

/-- New priorities for an event that is not active. -/
theorem priority_good {s : State} {a : Addr} {pri : Nat} (hg : Good s) (ha : a ≠ s.ev_signal)
    (hn : (s.mem a).flags.active = false) (hp : pri < s.qs.activequeues.length) :
    Good { s with mem := s.mem.set a { s.mem a with pri := pri } } := by
  have ok := hg.ok a
  refine hg.alter (fun q => rfl) (fun q h => ⟨rfl, hg.eventOk q h, rfl, rfl, rfl⟩) (fun _ => hp)
    (fun h => absurd (hn.symm.trans h) nofun)
    ⟨ok.io, ok.signal, ok.one, ok.range, ok.number, ok.pncalls⟩ ha (fun _ => ⟨rfl, rfl⟩)
    (fun h => ?_) fun hi hio => hg.pipe.alone a ha hi hio
  obtain ⟨h₁, h₂, h₃⟩ := h
  simp only [set_self] at h₁ h₂
  exact ⟨h₁, h₂, h₃⟩

/-! ### Calls and descriptors -/

theorem Acted.view {s : State} {a b : Addr} {st : Step} {v w : View} (h : Acted a st v w)
    (hm : s.mem b = w.ev) (hl : s.left b = w.left) (hc : s.sig.evsigcaught = w.caught) :
    Acted a st v (s.view b) := by
  rwa [State.view, hm, hl, hc]

theorem unchanged {s s' : State} {a : Addr} {st : Step} (hl : st = .invoke → s.left a = 0)
    (hs : st.signals = []) (hm : s'.mem a = s.mem a) (hl' : s'.left a = s.left a)
    (hc : s'.sig.evsigcaught = s.sig.evsigcaught) : Acted a st (s.view a) (s'.view a) :=
  (Acted.same hl hs).view hm hl' hc

theorem left_congr {s s' : State} (h : s'.locals = s.locals) (a : Addr) : s'.left a = s.left a := by
  rw [State.left, State.left, h]

theorem left_stop {s s' : State} {a : Addr} (h : s'.locals = s.locals.map (Locals.stop a))
    (x : Addr) : s'.left x = if x = a then 0 else s.left x := by
  rw [State.left, State.left, h]
  cases s.locals with
  | none => simp
  | some l =>
    simp only [Option.map_some, Option.elim_some, Locals.stop]
    by_cases e₁ : l.ev = a <;> by_cases e₂ : x = a <;> simp [e₁, e₂]
    · exact fun e => absurd e.symm e₂

theorem left_of_idle {s : State} {a : Addr} (h : ¬Running s a) : s.left a = 0 := by
  rw [State.left]
  cases hl : s.locals with
  | none => rfl
  | some l =>
    rw [Option.elim_some]
    split
    next e =>
      by_contra hn
      exact h ⟨l, hl, e, hn⟩
    next => rfl

/-- What a call does to the local variables of the loop, to the lines of the active events
and to the single events. -/
structure Called (s : State) (c : Call) (s' : State) : Prop where
  good : Good s'
  locals : s'.locals.isSome = s.locals.isSome
  activeq : ∀ l' ∈ s'.locals, ∃ l ∈ s.locals, l'.activeq = l.activeq
  queues : s'.qs.activequeues.length = s.qs.activequeues.length
  ev_signal : s'.ev_signal = s.ev_signal
  line : ∀ p, s'.qs.line .active p = s.qs.line .active p ∨ ∃ z, ¬(Step.call c).leaves z ∧
    (s'.qs.line .active p = (s.qs.line .active p).erase z ∨
      s'.qs.line .active p = s.qs.line .active p ++ [z])
  acted : ∀ x, Acted x (.call c) (s.view x) (s'.view x)

theorem not_invoke {p : Prop} (c : Call) (h : Step.call c = .invoke) : p := by
  cases h

/-- A call that changes one event, and nothing that the loop looks at. -/
theorem called_set {s : State} {c : Call} {a : Addr} {ev : Event}
    (hg : Good { s with mem := s.mem.set a ev })
    (hv : Acted a (.call c) (s.view a) { s.view a with ev := ev }) :
    Called s c { s with mem := s.mem.set a ev } := by
  refine ⟨hg, rfl, fun l hl => ⟨l, hl, rfl⟩, rfl, rfl, fun p => .inl rfl, fun x => ?_⟩
  rcases eq_or_ne x a with rfl | e
  · exact hv.view (set_self ..) rfl rfl
  · exact unchanged nofun rfl (set_ne e _) rfl rfl

theorem called_same {s : State} {c : Call} (hg : Good s) : Called s c s :=
  ⟨hg, rfl, fun l hl => ⟨l, hl, rfl⟩, rfl, rfl, fun _ => .inl rfl, fun _ => .same nofun rfl⟩

theorem call_spec {s : State} {c : Call} (hg : Good s) (hc : c.Orderly s) :
    ∃ s', c.apply s = some s' ∧ Called s c s' := by
  cases c with
  | set a fd events =>
    refine ⟨_, rfl, called_set (eventSet_good hg hc.1 hc.2) ?_⟩
    exact .set hc.2.free (left_of_idle hc.2.idle)
  | baseSet a =>
    have hr : s.readable a = true := by rw [State.readable, hc.2, Bool.true_or]
    rw [Call.apply, eventBaseSet, hr, Bool.not_true, if_neg Bool.false_ne_true]
    split
    · exact ⟨s, rfl, called_same hg⟩
    next h =>
      have hq := hg.wf.queues
      refine ⟨_, rfl, called_set (priority_good hg hc.1 ?_ (by omega)) .priority⟩
      rw [not_not.mp h]
      rfl
  | prioritySet a pri =>
    have hr : s.readable a = true := by rw [State.readable, hc.2, Bool.true_or]
    rw [Call.apply, eventPrioritySet, hr, hc.2, Bool.not_true, if_neg Bool.false_ne_true]
    split
    · exact ⟨s, rfl, called_same hg⟩
    next h =>
      split
      · exact ⟨s, rfl, called_same hg⟩
      next h0 =>
        rw [if_neg Bool.false_ne_true]
        split
        · exact ⟨s, rfl, called_same hg⟩
        next hp =>
          exact ⟨_, rfl, called_set (priority_good hg hc.1 (by simpa using h) (by omega)) .priority⟩
  | add a now tv =>
    obtain ⟨ha, hi, hcut, hnow, htv, hfree⟩ := hc
    obtain ⟨s', h, d⟩ := eventAdd_spec (evsignalRecalc addEvSignal) hg hi hcut hnow htv
      hfree fun e => absurd e ha
    refine ⟨s', by rw [Call.apply, eventAdd, h]; rfl, d.good, by rw [d.locals],
      fun l hl => ⟨l, d.locals ▸ hl, rfl⟩, d.frame.queues, d.frame.ev_signal, fun p => ?_,
      fun x => ?_⟩
    · rw [d.line]
      split
      · exact .inr ⟨a, fun h => h rfl, .inl rfl⟩
      · exact .inl rfl
    · have hl := left_congr d.locals x
      rcases eq_or_ne x a with rfl | e
      · exact Acted.add.view (by rw [d.mem, set_self]; rfl) hl d.frame.evsigcaught
      · exact unchanged (not_invoke _) rfl (by rw [d.mem, set_ne e]) hl d.frame.evsigcaught
  | del a =>
    obtain ⟨ha, hr, hcut⟩ := hc
    cases hi : (s.mem a).flags.init with
    | false => exact ⟨s, by simp [Call.apply, eventDel, hr, hi], called_same hg⟩
    | true =>
      obtain ⟨s', h, d⟩ := eventDel_spec hg hcut hi fun e => absurd e ha
      refine ⟨s', by rw [Call.apply, h]; rfl, d.good, by rw [d.locals, Option.isSome_map],
        fun l' hl => ?_, d.frame.queues, d.frame.ev_signal,
        fun p => .inr ⟨a, fun h => h rfl, .inl (d.line .active p)⟩, fun x => ?_⟩
      · rw [d.locals] at hl
        obtain ⟨l, hl', rfl⟩ := Option.map_eq_some_iff.mp hl
        refine ⟨l, hl', ?_⟩
        rw [Locals.stop]
        split <;> rfl
      · have hl := left_stop d.locals x
        rcases eq_or_ne x a with rfl | e
        · exact Acted.del.view (by rw [d.apply, if_pos rfl]; rfl) (hl.trans (if_pos rfl))
            d.frame.evsigcaught
        · exact unchanged (not_invoke _) rfl (by rw [d.apply, if_neg e]) (hl.trans (if_neg e))
            d.frame.evsigcaught
  | active a res ncalls =>
    obtain ⟨ha, hi, hr⟩ := hc
    obtain ⟨s', h, d⟩ := eventActive_spec res ncalls hg hi hr fun e => absurd e ha
    refine ⟨s', h, d.good, by rw [d.locals], fun l hl => ⟨l, d.locals ▸ hl, rfl⟩, d.frame.queues,
      d.frame.ev_signal, fun p => ?_, fun x => ?_⟩
    · rw [d.line]
      split
      · exact .inr ⟨a, fun h => h rfl, .inr rfl⟩
      · exact .inl rfl
    · have hl := left_congr d.locals x
      rcases eq_or_ne x a with rfl | e
      · exact (Acted.active (left_of_idle hr)).view (by rw [d.apply, if_pos rfl]; rfl) hl
          d.frame.evsigcaught
      · exact unchanged (not_invoke _) rfl (by rw [d.apply, if_neg e]) hl d.frame.evsigcaught
  | exit =>
    exact ⟨_, rfl, hg.gotterm true, rfl, fun l hl => ⟨l, hl, rfl⟩, rfl, rfl, fun p => .inl rfl,
      fun x => .same (not_invoke _) rfl⟩

theorem openFd_good {s : State} (hg : Good s) (fd : Int) :
    Good { s with epoll := s.epoll.openFd fd } := by
  have hlive : ∀ x, s.epoll.live x = true → Function.update s.epoll.live fd true x = true := by
    intro x hx
    rw [Function.update_apply]
    split
    · rfl
    · exact hx
  refine ⟨hg.wf, hg.ok, ?_, hg.running, hg.tidy, hg.clock, ?_⟩
  · exact ⟨hg.table.reader, hg.table.writer, hg.table.range, fun a ha => hlive _ (hg.table.live a ha),
      hg.table.kernel⟩
  · exact ⟨hg.pipe.init, hg.pipe.events, hlive _ hg.pipe.live, hg.pipe.alone, hg.pipe.first⟩

/-- The kernel forgets a descriptor that no event waits for. -/
theorem closeFd_good {s : State} {fd : Int} (hg : Good s)
    (hp : fd ≠ (s.mem s.ev_signal).fd)
    (hno : ∀ a, (s.mem a).flags.inserted = true → (s.mem a).fd ≠ fd) :
    Good { s with epoll := s.epoll.close fd } := by
  have hlive : ∀ x, x ≠ fd → s.epoll.live x = true →
      Function.update s.epoll.live fd false x = true := fun x e hx => by
    rw [Function.update_of_ne e, hx]
  refine ⟨hg.wf, hg.ok, ?_, hg.running, hg.tidy, hg.clock, ?_⟩
  · refine ⟨hg.table.reader, hg.table.writer, hg.table.range,
      fun a ha => hlive _ (hno a ha) (hg.table.live a ha), fun x => ?_⟩
    change Function.update s.epoll.interest fd none x = (s.epoll.evep x).bind (wanted s.epoll.version x)
    rw [Function.update_apply]
    split
    next e =>
      rw [← hg.table.kernel, e]
      exact (hg.table.unwatched hno).symm
    next => exact hg.table.kernel x
  · exact ⟨hg.pipe.init, hg.pipe.events, hlive _ hp.symm hg.pipe.live, hg.pipe.alone,
      hg.pipe.first⟩

/-! ### `event_process_active` -/

/-- No callback is to be called again. -/
def Idle (s : State) : Prop := ∀ l ∈ s.locals, l.ncalls = 0

theorem Idle.not_running {s : State} (h : Idle s) (a : Addr) : ¬Running s a := by
  rintro ⟨l, hl, -, hn⟩
  exact hn (h l hl)

/-- New local variables when no callback was to be called again. -/
theorem Good.leave {s : State} (hg : Good s) (hi : Idle s) (n : Nat) :
    Good { s with locals := none, activation := n } :=
  ⟨hg.wf, hg.ok, hg.table, nofun, fun a h => hg.tidy a ⟨h.1, h.2.1, hi.not_running a⟩,
    hg.clock, ⟨hg.pipe.init, hg.pipe.events, hg.pipe.live, hg.pipe.alone, hg.pipe.first⟩⟩

/-- What it means that the loop goes on with the event `a`. -/
structure Entered (s : State) (i : Nat) (a : Addr) (s' : State) : Prop where
  mem : s'.mem = s.mem.set a ((s.mem a).started s.activation)
  locals : s'.locals = some ⟨i, a, (s.mem a).ncalls⟩
  line : ∀ p, s'.qs.line .active p = (s.qs.line .active p).erase a
  frame : Frame s s'
  good : Good s'

theorem Good.entered {s s' : State} {i : Nat} {a : Addr} (hg : Good s) (hi : Idle s)
    (ha : (s.mem a).flags.active = true) (hf : Frame s s')
    (hmem : s'.mem = s.mem.set a ((s.mem a).started s.activation))
    (hloc : s'.locals = some ⟨i, a, (s.mem a).ncalls⟩) (hep : s'.epoll = s.epoll)
    (hw : Wf s'.mem s'.qs) : Good s' := by
  have hself : s'.mem a = (s.mem a).started s.activation := by rw [hmem, set_self]
  have hother : ∀ x, x ≠ a → s'.mem x = s.mem x := fun x e => by rw [hmem, set_ne e]
  have ok := hg.ok a
  have hinit := hg.eventOk .active ha
  refine ⟨hw, fun x => ?_, ?_, fun l hl hn => ?_, fun x hx q => ?_, by rw [hf.event_tv]; exact hg.clock,
    ?_⟩
  · rw [hep]
    rcases eq_or_ne x a with rfl | e
    · rw [hself]
      exact ⟨ok.io, ok.signal, ok.one, ok.range, ok.number, nofun⟩
    · rw [hother x e]
      exact hg.ok x
  · rw [hep]
    refine hg.table.congr fun x => ?_
    rcases eq_or_ne x a with rfl | e
    · rw [hself]
      exact ⟨rfl, fun _ => ⟨rfl, rfl⟩⟩
    · rw [hother x e]
      exact ⟨rfl, fun _ => ⟨rfl, rfl⟩⟩
  · rw [hloc] at hl
    obtain rfl := Option.some.inj hl
    rw [hself, hf.activation]
    exact ⟨rfl, rfl⟩
  · obtain ⟨h₁, h₂, h₃⟩ := hx
    rcases eq_or_ne x a with rfl | e
    · rw [hself] at h₁
      exact absurd ⟨_, hloc, rfl, h₁⟩ h₃
    · rw [hother x e] at h₁ h₂ ⊢
      exact hg.tidy x ⟨h₁, h₂, hi.not_running x⟩ q
  · by_cases e : a = s.ev_signal
    · refine hg.pipe.self hf (fun x hx => hother x (e ▸ hx)) ?_ ?_ ?_
        (hg.added_of_flag (q := .active) ha e)
      all_goals rw [← e, hself]
      · exact hinit
      · rfl
      · rfl
    · refine hg.pipe.other hf e hother fun h₁ h₂ => ?_
      rw [hself] at h₂ ⊢
      exact hg.pipe.alone a e hinit h₂

theorem enter_spec {s : State} {i : Nat} {a : Addr} (hg : Good s) (hi : Idle s)
    (ha : (s.mem a).flags.active = true) : ∃ s', enter s i a = some s' ∧ Entered s i a s' := by
  obtain ⟨s₁, h₁, u₁⟩ := removeIf_spec a .active hg.wf
  rw [removeIf, show (s.mem a).flags.get .active = true from ha, if_pos rfl] at h₁
  have hself₁ : s₁.mem a = { s.mem a with flags := (s.mem a).flags.set .active false } := by
    rw [u₁.mem, flag_apply, if_pos rfl]
  have hact : s₁.activation = s.activation := by rw [u₁.only]
  have hmem : s₁.mem.set a { s₁.mem a with pncalls := some s₁.activation } =
      s.mem.set a ((s.mem a).started s.activation) := by
    rw [hself₁, hact, u₁.mem, Mem.flag, set_set]
    rfl
  have hw : Wf (s.mem.set a ((s.mem a).started s.activation)) s₁.qs := by
    rw [← hmem]
    exact u₁.wf.set rfl rfl fun _ => rfl
  have hent : enter s i a = some { s₁ with
      mem := s.mem.set a ((s.mem a).started s.activation)
      locals := some ⟨i, a, (s.mem a).ncalls⟩ } := by
    rw [enter, h₁, Option.map_some, hmem, hself₁]
  have hfr : Frame s { s₁ with
      mem := s.mem.set a ((s.mem a).started s.activation)
      locals := some ⟨i, a, (s.mem a).ncalls⟩ } :=
    (u₁.only.frame u₁.queues).trans (by constructor <;> rfl)
  exact ⟨_, hent, rfl, rfl, fun p => u₁.line .active p, hfr,
    hg.entered hi ha hfr rfl rfl (by rw [u₁.only]) hw⟩

theorem invoke_good {s : State} {l : Locals} (hg : Good s) (hl : l ∈ s.locals)
    (hn : l.ncalls ≠ 0) : Good (invoke s l) := by
  obtain ⟨h₁, h₂⟩ := hg.running l hl hn
  have hself : (invoke s l).mem l.ev = { s.mem l.ev with ncalls := l.ncalls - 1 } := set_self ..
  have hother : ∀ x, x ≠ l.ev → (invoke s l).mem x = s.mem x := fun x e => set_ne e _
  have hf : Frame s (invoke s l) := by constructor <;> rfl
  have ok := hg.ok l.ev
  refine ⟨hg.wf.set rfl rfl fun _ => rfl, fun x => ?_, hg.table.congr fun x => ?_,
    fun l' hl' hn' => ?_, fun x hx q => ?_, hg.clock, ?_⟩
  · rcases eq_or_ne x l.ev with rfl | e
    · rw [hself]
      exact ⟨ok.io, ok.signal, ok.one, ok.range, ok.number, ok.pncalls⟩
    · rw [hother x e]
      exact hg.ok x
  · rcases eq_or_ne x l.ev with rfl | e
    · simp [hself]
    · simp [hother x e]
  · obtain rfl := Option.some.inj hl'
    simp only [hself]
    exact ⟨trivial, h₂⟩
  · obtain ⟨h₃, h₄, h₅⟩ := hx
    rcases eq_or_ne x l.ev with rfl | e
    · rw [hself] at h₃
      exact absurd ⟨_, rfl, rfl, h₃⟩ h₅
    · rw [hother x e] at h₃ h₄ ⊢
      refine hg.tidy x ⟨h₃, h₄, ?_⟩ q
      rintro ⟨l', hl', rfl, -⟩
      rw [Option.mem_def.mp hl, Option.mem_some_iff] at hl'
      exact e (by rw [hl'])
  · by_cases e : l.ev = s.ev_signal
    · have hadd : s.sig.ev_signal_added = true := by
        cases h : s.sig.ev_signal_added with
        | true => rfl
        | false => exact absurd (h₁.symm.trans (e ▸ (hg.pipe.first h).1)) hn
      refine hg.pipe.self hf (fun x hx => hother x (e ▸ hx)) ?_ ?_ ?_ hadd
      all_goals rw [← e, hself]
      exact e ▸ hg.pipe.init
    · refine hg.pipe.other hf e hother fun hi hio => ?_
      rw [hself] at hi hio ⊢
      exact hg.pipe.alone _ e hi hio

/-- An event that the loop just counted was not cut short. -/
theorem invoke_not_cut {s : State} {l : Locals} : ¬CutShort (invoke s l) l.ev := by
  rintro ⟨h, -, hr⟩
  refine hr ⟨_, rfl, rfl, ?_⟩
  simp only [invoke, set_self] at h
  exact h

/-! ### Steps -/

theorem firstActive_spec {ls : List (List Addr)} (h : ls.flatten ≠ []) (n : Nat) :
    ∃ i a l, firstActive n ls = some (n + i, a) ∧ ls[i]? = some (a :: l) ∧
      ∀ j < i, ls[j]? = some [] := by
  induction ls generalizing n with
  | nil => exact absurd rfl h
  | cons l ls ih =>
    cases l with
    | nil =>
      obtain ⟨i, a, l, h₁, h₂, h₃⟩ := ih h (n + 1)
      refine ⟨i + 1, a, l, by rw [firstActive, h₁]; congr 2; omega, h₂, fun j hj => ?_⟩
      cases j with
      | zero => rfl
      | succ j => exact h₃ j (by omega)
    | cons a l => exact ⟨0, a, l, rfl, rfl, fun j hj => absurd hj (by omega)⟩

theorem active_of_line {s : State} (hg : Good s) {i : Nat} {a : Addr} {l : List Addr}
    (h : s.qs.activequeues[i]? = some (a :: l)) : (s.mem a).flags.active = true :=
  (hg.wf.flag .active a).mpr (List.mem_flatten_of_mem (List.mem_of_getElem? h) (.head _))

/-- `event_process_active` starts with the first event of the first queue that has one,
if any event counts as active. -/
theorem startActive_spec {s : State} (hg : Good s) (hn : s.locals = none) :
    s.qs.event_count_active = 0 ∧ startActive s = some s ∨
      ∃ i a l s', s.qs.activequeues[i]? = some (a :: l) ∧ (∀ j < i, s.qs.activequeues[j]? = some []) ∧
        startActive s = some s' ∧ Entered { s with activation := s.activation + 1 } i a s' := by
  rw [startActive]
  split
  next h => exact .inl ⟨h, rfl⟩
  next h =>
    refine .inr ?_
    have hne : s.qs.activequeues.flatten ≠ [] := by
      intro e
      refine h ?_
      rw [hg.wf.count_active, counted, Queues.members, e]
      rfl
    obtain ⟨i, a, l, h₁, h₂, h₃⟩ := firstActive_spec hne 0
    have hg₀ : Good { s with activation := s.activation + 1 } := by
      have h₀ := hg.leave (fun l hl => by rw [hn] at hl; cases hl) (s.activation + 1)
      rwa [← hn] at h₀
    obtain ⟨s', h', he⟩ := enter_spec (i := i) (a := a) hg₀
      (fun l hl => by
        have hl : l ∈ s.locals := hl
        rw [hn] at hl
        cases hl) (active_of_line hg h₂)
    refine ⟨i, a, l, s', h₂, h₃, ?_, he⟩
    rw [h₁, Nat.zero_add]
    exact h'

theorem turn_step_spec {m : Machine} {now later : Timeval} {signals : List Nat} {w : Wait}
    (hm : Sound m) (ho : Orderly m (.turn now later signals w)) :
    ∃ s t, ∃ p : Pass, turn m.s now later signals w = some (s, t) ∧ p.Of m.s now later w t ∧
      Counted m.s signals p.counts s ∧ Passes m.s p.apply s ∧
      (¬AllHandled m.s → t = .failed) := by
  obtain ⟨hp, hnow, -, hw⟩ := ho
  obtain ⟨s, res, h, d, -⟩ := evsignalRecalc_spec hm.good
  have hs : m.s.recalced = s := by rw [State.recalced, h]; rfl
  refine turn_spec hm.good (hm.phase.mp hp) hnow later signals w fun r hr => ?_
  obtain ⟨hv, hx⟩ := d.good.table.reported (hs ▸ hw r hr)
  exact ⟨hv.trans d.frame.version, hx.trans_eq d.frame.length⟩

theorem counted_gathered {s s' : State} {signals : List Nat} {counts : Option (Nat → Nat)}
    (h : Counted s signals counts s') :
    Gathered signals counts s.sig.evsigcaught s'.sig.evsigcaught := by
  rcases h with ⟨h₁, h₂⟩ | ⟨h₁, h₂⟩
  · exact .inl ⟨h₁, fun sig => by rw [h₂]; rfl⟩
  · exact .inr ⟨⟨_, h₁, fun sig => rfl⟩, fun sig => by rw [h₂]⟩

theorem left_none {s : State} (h : s.locals = none) (a : Addr) : s.left a = 0 := by
  rw [State.left, h]
  rfl

theorem left_some {s : State} {l : Locals} (h : s.locals = some l) (a : Addr) :
    s.left a = if l.ev = a then l.ncalls else 0 := by
  rw [State.left, h]
  rfl

/-- The event that the loop goes on with stood first in its line. -/
theorem Entered.lines {s s' : State} {i : Nat} {a : Addr} {rest : List Addr} (hg : Good s)
    (h : Entered s i a s') (hi : s.qs.activequeues[i]? = some (a :: rest)) (p : Nat) :
    s'.qs.line .active p = s.qs.line .active p ∨
      s.qs.line .active p = a :: s'.qs.line .active p := by
  rw [h.line]
  by_cases e : p = i
  · subst e
    refine .inr ?_
    rw [Queues.line, hi]
    simp
  · refine .inl (List.erase_of_not_mem fun ha => e ?_)
    rw [Queues.line] at ha
    cases hp : s.qs.activequeues[p]? with
    | none =>
      rw [hp] at ha
      cases ha
    | some l =>
      rw [hp] at ha
      rw [← hg.wf.queue p l hp a ha, hg.wf.queue i _ hi a (.head _)]

/-- Everything that an orderly step does. -/
structure Stepped (m : Machine) (st : Step) (m' : Machine) : Prop where
  sound : Sound m'
  ev_signal : m'.s.ev_signal = m.s.ev_signal
  queues : m'.s.qs.activequeues.length = m.s.qs.activequeues.length
  acted : ∀ x, x ≠ m.s.ev_signal → Acted x st (m.s.view x) (m'.s.view x)
  line : ¬st.turns → ∀ p, m'.s.qs.line .active p = m.s.qs.line .active p ∨
    (∃ z, ¬st.leaves z ∧ (m'.s.qs.line .active p = (m.s.qs.line .active p).erase z ∨
      m'.s.qs.line .active p = m.s.qs.line .active p ++ [z])) ∨
    ∃ z, m.s.qs.line .active p = z :: m'.s.qs.line .active p ∧
      (m'.s.mem z).flags.active = false
  activeq : ¬st.turns → ∀ l' ∈ m'.s.locals, ∃ l ∈ m.s.locals, l'.activeq = l.activeq ∧
    (st = .next → ∃ z, m.s.qs.line .active l.activeq = z :: m'.s.qs.line .active l.activeq)

/-- A step that changes neither the events nor their queues. -/
theorem stepped_same {m m' : Machine} {st : Step} (hs : Sound m') (hm : m'.s.mem = m.s.mem)
    (hq : m'.s.qs = m.s.qs) (he : m'.s.ev_signal = m.s.ev_signal)
    (hl : m'.s.locals = none ∨ m'.s.locals = m.s.locals ∧ st ≠ .next)
    (ha : ∀ x, Acted x st (m.s.view x) ⟨m.s.mem x, m'.s.left x, m'.s.sig.evsigcaught⟩) :
    Stepped m st m' :=
  ⟨hs, he, by rw [hq], fun x _ => (ha x).view (congrFun hm x) rfl rfl,
    fun _ _ => .inl (by rw [hq]), fun _ l' hl' => by
      rcases hl with hl | ⟨hl, hne⟩
      · rw [hl] at hl'
        cases hl'
      · exact ⟨l', hl ▸ hl', rfl, fun e => absurd e hne⟩⟩

theorem call_stepped {m : Machine} {c : Call} (hm : Sound m) (ho : Orderly m (.call c)) :
    ∃ m', step m (.call c) = some m' ∧ Stepped m (.call c) m' := by
  obtain ⟨s', h, d⟩ := call_spec hm.good ho.2
  refine ⟨⟨s', m.phase⟩, by rw [step, if_neg ho.1, h]; rfl, ⟨d.good, ?_, fun l' hl' => ?_⟩,
    d.ev_signal, d.queues, fun x _ => d.acted x, fun _ p => (d.line p).imp_right .inl,
    fun _ l' hl' => ?_⟩
  · rw [hm.phase]
    have hsome := d.locals
    cases h₁ : s'.locals <;> cases h₂ : m.s.locals <;> simp [h₁, h₂] at hsome ⊢
  · obtain ⟨l, hl, e⟩ := d.activeq l' hl'
    simp only [d.queues, e]
    exact hm.queue l hl
  · obtain ⟨l, hl, e⟩ := d.activeq l' hl'
    exact ⟨l, hl, e, by simp⟩

/-- `event_process_active` that goes on with an event is inside its inner loop. -/
theorem Entered.sound {s s' : State} {i : Nat} {a : Addr} (he : Entered s i a s')
    (hi : i < s.qs.activequeues.length) : Sound ⟨s', .active⟩ := by
  refine ⟨he.good, by simp [he.locals], fun l hl => ?_⟩
  rw [he.locals] at hl
  obtain rfl := Option.some.inj hl
  simp only [he.frame.queues]
  exact hi

/-- A turn that activated no event leaves the loop. -/
theorem turn_left {m : Machine} {now later : Timeval} {signals : List Nat} {w : Wait} {p : Pass}
    {s : State} (hm : Sound m) (ho : m.phase = .out) (hp : Passes m.s p.apply s)
    (hc : Gathered signals p.counts m.s.sig.evsigcaught s.sig.evsigcaught) :
    Stepped m (.turn now later signals w) ⟨s, .out⟩ := by
  have hn := hm.phase.mp ho
  refine ⟨⟨hp.good, iff_of_true rfl hp.locals, fun l hl => ?_⟩, hp.stays.ev_signal,
    hp.stays.queues, fun x hx => ?_, fun h => absurd trivial h, fun h => absurd trivial h⟩
  · rw [hp.locals] at hl
    cases hl
  · exact (Acted.turn (left_none hn x) hc).view (hp.mem x hx) (left_none hp.locals x) rfl

/-- A turn after which `event_process_active` starts with the event `a`. -/
theorem turn_entered {m : Machine} {now later : Timeval} {signals : List Nat} {w : Wait}
    {p : Pass} {s s' : State} {i : Nat} {a : Addr} {rest : List Addr} (hm : Sound m)
    (ho : m.phase = .out) (hp : Passes m.s p.apply s)
    (hc : Gathered signals p.counts m.s.sig.evsigcaught s.sig.evsigcaught)
    (hi : s.qs.activequeues[i]? = some (a :: rest))
    (he : Entered { s with activation := s.activation + 1 } i a s') :
    Stepped m (.turn now later signals w) ⟨s', .active⟩ := by
  have hn := hm.phase.mp ho
  refine ⟨he.sound (List.getElem?_eq_some_iff.mp hi).1, he.frame.ev_signal.trans hp.stays.ev_signal,
    he.frame.queues.trans hp.stays.queues, fun x hx => ?_, fun h => absurd trivial h,
    fun h => absurd trivial h⟩
  have hx' := hp.mem x hx
  have hl := left_some he.locals x
  rcases eq_or_ne x a with rfl | e
  · have ha : (p.apply (m.s.mem x)).flags.active = true := by
      rw [← hx']
      exact active_of_line hp.good hi
    rw [if_pos rfl] at hl
    exact (Acted.turnStart (k := s.activation + 1) (left_none hn x) hc ha).view
      (by rw [he.mem, set_self]; exact congrArg (Event.started · (s.activation + 1)) hx')
      (hl.trans (congrArg Event.ncalls hx')) he.frame.evsigcaught
  · rw [if_neg (Ne.symm e)] at hl
    exact (Acted.turn (left_none hn x) hc).view
      (by rw [he.mem, set_ne e]; exact hx') hl he.frame.evsigcaught

theorem turn_stepped {m : Machine} {now later : Timeval} {signals : List Nat} {w : Wait}
    (hm : Sound m) (ho : Orderly m (.turn now later signals w)) :
    ∃ m', step m (.turn now later signals w) = some m' ∧
      Stepped m (.turn now later signals w) m' := by
  obtain ⟨s, t, p, h, -, hc, hp, -⟩ := turn_step_spec hm ho
  have hgather := counted_gathered hc
  rw [step, if_pos ⟨ho.1, ho.2.2.1⟩, h, Option.bind_some]
  simp only
  split
  next =>
    rcases startActive_spec hp.good hp.locals with ⟨-, h'⟩ | ⟨i, a, l, s', hi, -, h', he⟩
    · exact ⟨_, by rw [h']; simp [hp.locals], turn_left hm ho.1 hp hgather⟩
    · exact ⟨⟨s', .active⟩, by rw [h']; simp [he.locals], turn_entered hm ho.1 hp hgather hi he⟩
  next => exact ⟨_, rfl, turn_left hm ho.1 hp hgather⟩

/-- A call of the library's own callback, which adds its event again. -/
theorem recalc_stepped {m : Machine} {l : Locals} (hm : Sound m) (hl : m.s.locals = some l)
    (hn : l.ncalls ≠ 0) (e : l.ev = m.s.ev_signal) :
    ∃ s', eventAdd (invoke m.s l) l.ev ⟨0, 0⟩ none = some (s', 0) ∧
      Stepped m .invoke ⟨s', .active⟩ := by
  have hg := hm.good
  have hgi := invoke_good hg hl hn
  obtain ⟨h₁, -⟩ := hg.running l hl hn
  have hadd : (invoke m.s l).sig.ev_signal_added = true := by
    cases h : m.s.sig.ev_signal_added with
    | true => exact h
    | false => exact absurd (h₁.symm.trans (e ▸ (hg.pipe.first h).1)) hn
  obtain ⟨s', h, d⟩ := eventAdd_spec (evsignalRecalc addEvSignal)
    (s := invoke m.s l) (a := l.ev) hgi (by rw [e]; exact hgi.pipe.init) invoke_not_cut
    (by decide : Timeval.Valid ⟨0, 0⟩) (by simp : ∀ t ∈ none, Timeval.Delay t)
    (by rw [e]; exact hgi.free_ev_signal) fun _ => hadd
  refine ⟨s', h, ⟨d.good, by simp [d.locals, invoke], fun l' hl' => ?_⟩, d.frame.ev_signal,
    d.frame.queues, fun x hx => ?_, fun _ p => .inl ((d.line p).trans (if_neg (by simp))),
    fun _ l' hl' => ?_⟩
  · rw [d.locals] at hl'
    obtain rfl := Option.some.inj hl'
    simp only [d.frame.queues]
    exact hm.queue l hl
  · have hne : l.ev ≠ x := fun e' => hx (e'.symm.trans e)
    have hl₀ : m.s.left x = 0 := (left_some hl x).trans (if_neg hne)
    have hl₁ : s'.left x = 0 := (left_some d.locals x).trans (if_neg hne)
    have hmem : (invoke m.s l).mem x = m.s.mem x := set_ne hne.symm _
    exact unchanged (fun _ => hl₀) rfl (by rw [d.mem, set_ne hne.symm, hmem])
      (hl₁.trans hl₀.symm) d.frame.evsigcaught
  · rw [d.locals] at hl'
    obtain rfl := Option.some.inj hl'
    exact ⟨l, hl, rfl, by simp⟩

/-- The start of a callback of the program. -/
theorem callback_stepped {m : Machine} {l : Locals} (hm : Sound m) (hl : m.s.locals = some l)
    (hn : l.ncalls ≠ 0) : Stepped m .invoke ⟨invoke m.s l, .callback⟩ := by
  have hgi := invoke_good hm.good hl hn
  refine ⟨⟨hgi, by simp [invoke], fun l' hl' => ?_⟩, rfl, rfl, fun x hx => ?_,
    fun _ p => .inl rfl, fun _ l' hl' => ?_⟩
  · obtain rfl := Option.some.inj hl'
    exact hm.queue l hl
  · have hl₀ := left_some hl x
    have hl₁ : (invoke m.s l).left x = if l.ev = x then l.ncalls - 1 else 0 :=
      left_some (s := invoke m.s l) rfl x
    rcases eq_or_ne l.ev x with rfl | e
    · rw [if_pos rfl] at hl₀ hl₁
      refine (Acted.invoke (by rw [State.view, hl₀]; exact hn)).view ?_ ?_ rfl
      · rw [State.view, hl₀]
        exact set_self ..
      · rw [State.view, hl₀]
        exact hl₁
    · rw [if_neg e] at hl₀ hl₁
      exact unchanged (fun _ => hl₀) rfl (set_ne e.symm _) (hl₁.trans hl₀.symm) rfl
  · obtain rfl := Option.some.inj hl'
    exact ⟨l, hl, rfl, by simp⟩

theorem invoke_stepped {m : Machine} (hm : Sound m) (ho : Orderly m .invoke) :
    ∃ m', step m .invoke = some m' ∧ Stepped m .invoke m' := by
  obtain ⟨hp, l, hl, hn⟩ := ho
  have hl' : m.s.locals = some l := hl
  simp only [step, hp, hl', if_neg hn]
  split
  next e =>
    obtain ⟨s', h, d⟩ := recalc_stepped hm hl' hn e
    exact ⟨⟨s', .active⟩, by rw [h]; rfl, d⟩
  next => exact ⟨_, rfl, callback_stepped hm hl' hn⟩

/-- `event_process_active` that goes on with the next event of its queue. -/
theorem next_entered {m : Machine} {l : Locals} {a : Addr} {rest : List Addr} {s' : State}
    (hm : Sound m) (hl : m.s.locals = some l) (hi : Idle m.s)
    (hget : m.s.qs.activequeues[l.activeq]? = some (a :: rest))
    (he : Entered m.s l.activeq a s') : Stepped m .next ⟨s', .active⟩ := by
  have hact := active_of_line hm.good hget
  have hleft : ∀ x, m.s.left x = 0 := fun x => left_of_idle (hi.not_running x)
  refine ⟨he.sound (hm.queue l hl), he.frame.ev_signal, he.frame.queues, fun x hx => ?_,
    fun _ p => ?_, fun _ l' hl' => ?_⟩
  · have hl₁ := left_some he.locals x
    rcases eq_or_ne a x with rfl | e
    · rw [if_pos rfl] at hl₁
      exact (Acted.next (k := m.s.activation) (hleft a) hact).view
        (by rw [he.mem, set_self]; rfl) hl₁ he.frame.evsigcaught
    · rw [if_neg e] at hl₁
      exact unchanged (by simp) rfl (by rw [he.mem, set_ne e.symm]) (hl₁.trans (hleft x).symm)
        he.frame.evsigcaught
  · refine (he.lines hm.good hget p).imp_right fun h => .inr ⟨a, h, ?_⟩
    rw [he.mem, set_self]
    rfl
  · rw [he.locals] at hl'
    obtain rfl := Option.some.inj hl'
    refine ⟨l, hl, rfl, fun _ => ⟨a, ?_⟩⟩
    rw [he.line, Queues.line, hget]
    simp

theorem next_stepped {m : Machine} (hm : Sound m) (ho : Orderly m .next) :
    ∃ m', step m .next = some m' ∧ Stepped m .next m' := by
  obtain ⟨hp, l, hl, hn⟩ := ho
  have hl' : m.s.locals = some l := hl
  have hidle : Idle m.s := fun l₁ h₁ => by rw [Option.mem_unique h₁ hl, hn]
  have hlen := hm.queue l hl
  simp only [step, hp, hl', hn, if_true, List.getElem?_eq_getElem hlen]
  cases hq : m.s.qs.activequeues[l.activeq] with
  | nil =>
    refine ⟨_, rfl, stepped_same ⟨hm.good.leave hidle m.s.activation, iff_of_true rfl rfl, by simp⟩
      rfl rfl rfl (.inl rfl) fun x => ?_⟩
    have h := @Acted.same x .next (m.s.view x) (by simp) rfl
    rwa [State.view, left_of_idle (hidle.not_running x)] at h ⊢
  | cons a rest =>
    have hget : m.s.qs.activequeues[l.activeq]? = some (a :: rest) := by
      rw [List.getElem?_eq_getElem hlen, hq]
    obtain ⟨s', h, he⟩ := enter_spec (i := l.activeq) hm.good hidle (active_of_line hm.good hget)
    exact ⟨⟨s', .active⟩, by simp only [h]; rfl, next_entered hm hl' hidle hget he⟩

/-- An orderly step can be taken, keeps the invariant, and acts on each event as on one that
is alone. -/
theorem step_spec {m : Machine} {st : Step} (hm : Sound m) (ho : Orderly m st) :
    ∃ m', step m st = some m' ∧ Stepped m st m' := by
  have hg := hm.good
  cases st with
  | call c => exact call_stepped hm ho
  | openFd fd =>
    exact ⟨_, rfl, stepped_same ⟨openFd_good hg fd, hm.phase, hm.queue⟩ rfl rfl rfl
      (.inr ⟨rfl, by simp⟩) fun x => .same (by simp) rfl⟩
  | closeFd fd =>
    exact ⟨_, rfl, stepped_same ⟨closeFd_good hg ho.1 ho.2, hm.phase, hm.queue⟩ rfl rfl rfl
      (.inr ⟨rfl, by simp⟩) fun x => .same (by simp) rfl⟩
  | signal sig =>
    exact ⟨_, if_pos ho, stepped_same ⟨hg.sig _ id, hm.phase, hm.queue⟩ rfl rfl rfl
      (.inr ⟨rfl, by simp⟩) fun x => .signal⟩
  | turn now later signals w => exact turn_stepped hm ho
  | invoke => exact invoke_stepped hm ho
  | ret =>
    have hn : m.s.locals ≠ none := fun h => by
      have := hm.phase.mpr h
      rw [ho] at this
      cases this
    exact ⟨_, if_pos ho, stepped_same ⟨hg, iff_of_false (by simp) hn, hm.queue⟩ rfl rfl rfl
      (.inr ⟨rfl, by simp⟩) fun x => .same (by simp) rfl⟩
  | next => exact next_stepped hm ho

theorem step_sound {m : Machine} {st : Step} (hm : Sound m) (ho : Orderly m st) :
    ∃ m', step m st = some m' ∧ Sound m' := by
  obtain ⟨m', h, d⟩ := step_spec hm ho
  exact ⟨m', h, d.sound⟩

/-- What an orderly step that was taken did. -/
theorem stepped {m m' : Machine} {st : Step} (hm : Sound m) (ho : Orderly m st)
    (h : step m st = some m') : Stepped m st m' := by
  obtain ⟨m₁, h₁, d⟩ := step_spec hm ho
  exact Option.some.inj (h₁.symm.trans h) ▸ d

/-- A turn that starts no event found none active, or only moved the times. -/
theorem turn_out {m m' : Machine} {now later : Timeval} {signals : List Nat} {w : Wait}
    (hm : Sound m) (ho : Orderly m (.turn now later signals w))
    (h : step m (.turn now later signals w) = some m') (hout : m'.phase = .out) :
    m'.s.qs.event_count_active = 0 ∨
      ∀ x, x ≠ m.s.ev_signal → (m'.s.mem x).flags = (m.s.mem x).flags := by
  obtain ⟨s, t, p, ht, hof, -, hp, -⟩ := turn_step_spec hm ho
  rw [step, if_pos ⟨ho.1, ho.2.2.1⟩, ht, Option.bind_some] at h
  simp only at h
  split at h
  next =>
    rcases startActive_spec hp.good hp.locals with ⟨h₀, h'⟩ | ⟨i, a, l, s', -, -, h', he⟩
    · rw [h'] at h
      cases h
      exact .inl h₀
    · rw [h'] at h
      simp only [Option.map_some, he.locals] at h
      cases h
      cases hout
  next e =>
    cases h
    rw [Pass.Of, if_neg e] at hof
    obtain ⟨h₁, h₂, h₃⟩ := hof
    refine .inr fun x hx => ?_
    rw [hp.mem x hx, Pass.apply]
    simp only [h₁, h₂, h₃, Option.elim_none, List.foldl_nil]
    cases p.off with
    | none => rfl
    | some off =>
      rw [Option.elim_some, Event.corrected]
      split <;> rfl

/-- How a step can end outside of `event_process_active`. -/
theorem step_out {m m' : Machine} {st : Step} (hm : Sound m) (ho : Orderly m st)
    (h : step m st = some m') (hout : m'.phase = .out) :
    (m.phase = .out ∧ ¬st.turns) ∨ st.turns ∧ m'.s.qs.event_count_active = 0 ∨
      (∃ l ∈ m.s.locals, m'.s.qs.activequeues[l.activeq]? = some []) ∨
      m.phase = .out ∧ ∀ x, x ≠ m.s.ev_signal → (m'.s.mem x).flags = (m.s.mem x).flags := by
  cases st with
  | call c =>
    simp only [step, if_neg ho.1] at h
    obtain ⟨s', -, rfl⟩ := Option.map_eq_some_iff.mp h
    exact .inl ⟨hout, id⟩
  | openFd fd =>
    cases h
    exact .inl ⟨hout, id⟩
  | closeFd fd =>
    cases h
    exact .inl ⟨hout, id⟩
  | signal sig =>
    have ho : m.s.sig.handler sig = true := ho
    rw [step, if_pos ho] at h
    cases h
    exact .inl ⟨hout, id⟩
  | turn now later signals w =>
    rcases turn_out hm ho h hout with h₁ | h₁
    · exact .inr (.inl ⟨trivial, h₁⟩)
    · exact .inr (.inr (.inr ⟨ho.1, h₁⟩))
  | invoke =>
    obtain ⟨hp, l, hl, hn⟩ := ho
    have hl' : m.s.locals = some l := hl
    simp only [step, hp, hl', if_neg hn] at h
    split at h
    · obtain ⟨⟨s', r⟩, -, rfl⟩ := Option.map_eq_some_iff.mp h
      cases hout
    · cases h
      cases hout
  | ret =>
    have ho : m.phase = .callback := ho
    rw [step, if_pos ho] at h
    cases h
    cases hout
  | next =>
    obtain ⟨hp, l, hl, hn⟩ := ho
    have hl' : m.s.locals = some l := hl
    simp only [step, hp, hl', hn, if_true] at h
    split at h
    · obtain ⟨s', -, rfl⟩ := Option.map_eq_some_iff.mp h
      cases hout
    next hq =>
      cases h
      exact .inr (.inr (.inl ⟨l, hl, hq⟩))
    · cases h

end FilesEvent.Net
