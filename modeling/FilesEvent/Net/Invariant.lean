import FilesEvent.Net.Loop
import FilesEvent.Net.Table

/-! The invariant of the event library between two steps of its machine, and what
`event_add`, `event_del` and `event_active` do to a state that satisfies it. -/

namespace FilesEvent.Net
open What

/-- What the fields of one event say of each other. -/
structure EventOk (nfds : Nat) (ev : Event) : Prop where
  io : ev.flags.inserted = true → ev.events.io = true
  signal : ev.flags.signal = true → ev.events.signal = true
  one : ev.flags.init = true → ¬(ev.events.io = true ∧ ev.events.signal = true)
  range : ev.flags.init = true → ev.events.io = true → 0 ≤ ev.fd ∧ ev.fd < nfds
  number : ev.flags.init = true → ev.events.signal = true → 0 ≤ ev.fd ∧ ev.fd < NSIG
  pncalls : ev.flags.active = true → ev.pncalls = none

/-- The callback of `a` is to be called again by the running `event_process_active`. -/
def Running (s : State) (a : Addr) : Prop := ∃ l ∈ s.locals, l.ev = a ∧ l.ncalls ≠ 0

instance (s : State) (a : Addr) : Decidable (Running s a) :=
  inferInstanceAs (Decidable (∃ l ∈ s.locals, l.ev = a ∧ l.ncalls ≠ 0))

/-- The calls of `a` were cut short by a deletion, and `a` was neither activated nor set
since. Its pointer still leads to the counter of the loop that it stopped. -/
def CutShort (s : State) (a : Addr) : Prop :=
  (s.mem a).ncalls ≠ 0 ∧ (s.mem a).pncalls ≠ none ∧ ¬Running s a

instance (s : State) (a : Addr) : Decidable (CutShort s a) :=
  inferInstanceAs (Decidable (_ ∧ _ ∧ _))

/-- `ev_signal` has a descriptor of its own. -/
structure Pipe (s : State) : Prop where
  init : (s.mem s.ev_signal).flags.init = true
  events : (s.mem s.ev_signal).events = EV_READ
  live : s.epoll.live (s.mem s.ev_signal).fd = true
  alone : ∀ a, a ≠ s.ev_signal → (s.mem a).flags.init = true → (s.mem a).events.io = true →
    (s.mem a).fd ≠ (s.mem s.ev_signal).fd
  first : s.sig.ev_signal_added = false → (s.mem s.ev_signal).ncalls = 0 ∧
    ∀ q, (s.mem s.ev_signal).flags.get q = false

structure Good (s : State) : Prop where
  wf : Wf s.mem s.qs
  ok : ∀ a, EventOk s.epoll.fds.length (s.mem a)
  table : Table s.mem s.epoll
  running : ∀ l ∈ s.locals, l.ncalls ≠ 0 →
    (s.mem l.ev).ncalls = l.ncalls ∧ (s.mem l.ev).pncalls = some s.activation
  tidy : ∀ a, CutShort s a → ∀ q, (s.mem a).flags.get q = false
  clock : s.event_tv.Valid
  pipe : Pipe s

/-- What a call leaves as it is. -/
structure Frame (s s' : State) : Prop where
  activation : s'.activation = s.activation
  ev_signal : s'.ev_signal = s.ev_signal
  event_tv : s'.event_tv = s.event_tv
  live : s'.epoll.live = s.epoll.live
  length : s'.epoll.fds.length = s.epoll.fds.length
  version : s'.epoll.version = s.epoll.version
  queues : s'.qs.activequeues.length = s.qs.activequeues.length
  evsigcaught : s'.sig.evsigcaught = s.sig.evsigcaught
  evsignal_caught : s'.sig.evsignal_caught = s.sig.evsignal_caught
  added : s'.sig.ev_signal_added = s.sig.ev_signal_added

theorem Frame.refl (s : State) : Frame s s := by constructor <;> rfl

theorem Frame.trans {s t u : State} (h : Frame s t) (h' : Frame t u) : Frame s u where
  activation := h'.activation.trans h.activation
  ev_signal := h'.ev_signal.trans h.ev_signal
  event_tv := h'.event_tv.trans h.event_tv
  live := h'.live.trans h.live
  length := h'.length.trans h.length
  version := h'.version.trans h.version
  queues := h'.queues.trans h.queues
  evsigcaught := h'.evsigcaught.trans h.evsigcaught
  evsignal_caught := h'.evsignal_caught.trans h.evsignal_caught
  added := h'.added.trans h.added

theorem running_congr {s s' : State} (h : s'.locals = s.locals) (a : Addr) :
    Running s' a ↔ Running s a := by
  rw [Running, Running, h]

theorem Good.eventOk {s : State} (h : Good s) {a : Addr} (q : Queue)
    (hq : (s.mem a).flags.get q = true) : (s.mem a).flags.init = true :=
  h.wf.inited q a ((h.wf.flag q a).mp hq)

/-- A change of one event keeps the invariant, when flags, queues and table follow. -/
theorem Good.update {s s' : State} {a : Addr} (hg : Good s) (hf : Frame s s')
    (hw : Wf s'.mem s'.qs) (ht : Table s'.mem s'.epoll)
    (hmem : ∀ x, x ≠ a → s'.mem x = s.mem x) (hok : EventOk s.epoll.fds.length (s'.mem a))
    (hloc : ∀ l ∈ s'.locals, l.ncalls ≠ 0 → l ∈ s.locals ∧ (l.ev = a →
      (s'.mem a).ncalls = (s.mem a).ncalls ∧ (s'.mem a).pncalls = (s.mem a).pncalls))
    (hrun : ∀ x, x ≠ a → Running s x → Running s' x)
    (htidy : CutShort s' a → ∀ q, (s'.mem a).flags.get q = false)
    (hpipe : Pipe s') : Good s' where
  wf := hw
  ok x := by
    rw [hf.length]
    by_cases e : x = a
    · rw [e]
      exact hok
    · rw [hmem x e]
      exact hg.ok x
  table := ht
  running l hl hn := by
    obtain ⟨hl', hsame⟩ := hloc l hl hn
    obtain ⟨h₁, h₂⟩ := hg.running l hl' hn
    rw [hf.activation]
    by_cases e : l.ev = a
    · rw [e] at h₁ h₂ ⊢
      rw [(hsame e).1, (hsame e).2]
      exact ⟨h₁, h₂⟩
    · rw [hmem _ e]
      exact ⟨h₁, h₂⟩
  tidy x hx := by
    by_cases e : x = a
    · rw [e] at hx ⊢
      exact htidy hx
    · obtain ⟨h₁, h₂, h₃⟩ := hx
      rw [hmem x e] at h₁ h₂ ⊢
      exact hg.tidy x ⟨h₁, h₂, fun h => h₃ (hrun x e h)⟩
  clock := by rw [hf.event_tv]; exact hg.clock
  pipe := hpipe

/-- A change of another event leaves `ev_signal` alone. -/
theorem Pipe.other {s s' : State} {a : Addr} (hp : Pipe s) (hf : Frame s s')
    (ha : a ≠ s.ev_signal) (hmem : ∀ x, x ≠ a → s'.mem x = s.mem x)
    (hfd : (s'.mem a).flags.init = true → (s'.mem a).events.io = true →
      (s'.mem a).fd ≠ (s.mem s.ev_signal).fd) : Pipe s' := by
  have hsig : s'.mem s'.ev_signal = s.mem s.ev_signal := by
    rw [hf.ev_signal]
    exact hmem _ (Ne.symm ha)
  refine ⟨by rw [hsig]; exact hp.init, by rw [hsig]; exact hp.events,
    by rw [hsig, hf.live]; exact hp.live, fun x hx hi hio => ?_, fun h => ?_⟩
  · rw [hsig]
    by_cases e : x = a
    · subst e
      exact hfd hi hio
    · rw [hmem x e] at hi hio ⊢
      exact hp.alone x (hf.ev_signal ▸ hx) hi hio
  · rw [hsig]
    exact hp.first (hf.added ▸ h)

/-- A change of `ev_signal` that keeps what it waits for. -/
theorem Pipe.self {s s' : State} (hp : Pipe s) (hf : Frame s s')
    (hmem : ∀ x, x ≠ s.ev_signal → s'.mem x = s.mem x)
    (hi : (s'.mem s.ev_signal).flags.init = true)
    (he : (s'.mem s.ev_signal).events = (s.mem s.ev_signal).events)
    (hfd : (s'.mem s.ev_signal).fd = (s.mem s.ev_signal).fd)
    (ha : s.sig.ev_signal_added = true) : Pipe s' := by
  refine ⟨?_, ?_, ?_, fun x hx hix hio => ?_, fun h => ?_⟩
  · rw [hf.ev_signal]
    exact hi
  · rw [hf.ev_signal, he]
    exact hp.events
  · rw [hf.ev_signal, hfd, hf.live]
    exact hp.live
  · rw [hf.ev_signal] at hx ⊢
    rw [hmem x hx] at hix hio ⊢
    rw [hfd]
    exact hp.alone x hx hix hio
  · rw [hf.added, ha] at h
    cases h

/-! ### `event_del` -/

def Locals.stop (a : Addr) (l : Locals) : Locals := if l.ev = a then { l with ncalls := 0 } else l

theorem stop_of_not_running {s : State} {a : Addr} (h : ¬Running s a) :
    s.locals.map (Locals.stop a) = s.locals := by
  cases hl : s.locals with
  | none => rfl
  | some l =>
    rw [Option.map_some, Locals.stop]
    split
    next e =>
      have h0 : l.ncalls = 0 := by
        by_contra hn
        exact h ⟨l, hl, e, hn⟩
      rw [← h0]
    next => rfl

/-- The pointer of an event that was not cut short leads to its own loop. -/
theorem abortLoop_spec {s : State} {a : Addr} (hg : Good s) (hc : ¬CutShort s a) :
    abortLoop s a = some { s with locals := s.locals.map (Locals.stop a) } := by
  by_cases hr : Running s a
  · obtain ⟨l, hl, rfl, hn⟩ := hr
    obtain ⟨h₁, h₂⟩ := hg.running l hl hn
    have hl : s.locals = some l := hl
    simp [abortLoop, h₁, h₂, hn, hl, Locals.stop]
  · rw [stop_of_not_running hr, abortLoop]
    split
    next => rfl
    next h0 =>
      cases hp : (s.mem a).pncalls with
      | none => rfl
      | some k => exact absurd ⟨h0, by rw [hp]; nofun, hr⟩ hc

/-- What `event_del` does: the event leaves every queue, and its own loop ends. -/
structure Deleted (s : State) (a : Addr) (s' : State) : Prop where
  frame : Frame s s'
  mem : s'.mem = s.mem.set a { s.mem a with flags := (s.mem a).flags.off }
  locals : s'.locals = s.locals.map (Locals.stop a)
  line : ∀ q p, s'.qs.line q p = (s.qs.line q p).erase a
  good : Good s'

/-- Memory after the four flags of `a` were cleared in turn. -/
theorem flag_off (m : Mem) (a : Addr) :
    (((m.flag a .timeout false).flag a .active false).flag a .inserted false).flag a .signal false =
      m.set a { m a with flags := (m a).flags.off } := by
  funext x
  by_cases e : x = a
  · subst e
    simp only [flag_apply, if_pos, set_self, Flags.set, Flags.off]
  · rw [flag_other e, flag_other e, flag_other e, flag_other e, set_ne e]

/-- The invariant after a deletion, when queues and table have followed. -/
theorem Good.deleted {s s' : State} {a : Addr} (hg : Good s) (hf : Frame s s')
    (hi : (s.mem a).flags.init = true)
    (hmem : s'.mem = s.mem.set a { s.mem a with flags := (s.mem a).flags.off })
    (hloc : s'.locals = s.locals.map (Locals.stop a)) (hw : Wf s'.mem s'.qs)
    (ht : Table s'.mem s'.epoll) (hadd : a = s.ev_signal → s.sig.ev_signal_added = true) :
    Good s' := by
  have hself : s'.mem a = { s.mem a with flags := (s.mem a).flags.off } := by
    rw [hmem, set_self]
  have hother : ∀ x, x ≠ a → s'.mem x = s.mem x := fun x e => by rw [hmem, set_ne e]
  have ok := hg.ok a
  refine hg.update hf hw ht hother ?_ (fun l hl hn => ?_) (fun x e hx => ?_) (fun _ q => ?_) ?_
  · rw [hself]
    exact ⟨nofun, nofun, ok.one, ok.range, ok.number, nofun⟩
  · rw [hloc] at hl
    obtain ⟨l', hl', e⟩ := Option.map_eq_some_iff.mp hl
    rw [Locals.stop] at e
    split at e
    next => rw [← e] at hn; exact absurd rfl hn
    next e' =>
      subst e
      exact ⟨hl', fun h => absurd h e'⟩
  · obtain ⟨l, hl, rfl, hn⟩ := hx
    have hl : s.locals = some l := hl
    refine ⟨l, ?_, rfl, hn⟩
    rw [hloc, hl, Option.map_some, Locals.stop, if_neg e]
    rfl
  · rw [hself]
    exact Flags.get_off _ q
  · by_cases e : a = s.ev_signal
    · refine hg.pipe.self hf (e ▸ hother) ?_ ?_ ?_ (hadd e)
      all_goals rw [← e, hself]
      exact hi
    · refine hg.pipe.other hf e hother fun hi' hio => ?_
      rw [hself] at hio ⊢
      exact hg.pipe.alone a e hi hio

theorem OnlyQueues.frame {s s' : State} (h : OnlyQueues s s')
    (hq : s'.qs.activequeues.length = s.qs.activequeues.length) : Frame s s' := by
  constructor
  case queues => exact hq
  all_goals rw [h]

/-- A deletion before the kernel hears of it: the loop of the event ends, and the event
leaves the four queues. -/
structure Dequeued (s : State) (a : Addr) (s' : State) : Prop where
  frame : Frame s s'
  mem : s'.mem = s.mem.set a { s.mem a with flags := (s.mem a).flags.off }
  locals : s'.locals = s.locals.map (Locals.stop a)
  line : ∀ q p, s'.qs.line q p = (s.qs.line q p).erase a
  wf : Wf s'.mem s'.qs
  epoll : s'.epoll = s.epoll

theorem Dequeued.table {s s' : State} {a : Addr} (u : Dequeued s a s') (hg : Good s)
    (h : (s.mem a).flags.inserted = false) : Table s'.mem s'.epoll := by
  rw [u.epoll]
  refine hg.table.congr fun x => ?_
  rw [u.mem]
  by_cases e : x = a
  · rw [e, set_self]
    exact ⟨h.symm, fun h' => absurd (h.symm.trans h') Bool.false_ne_true⟩
  · rw [set_ne e]
    exact ⟨rfl, fun _ => ⟨rfl, rfl⟩⟩

/-- What `epollDel` is left to do: to make the table follow. -/
theorem Dequeued.deleted {s s₁ s' : State} {a : Addr} (u : Dequeued s a s₁) (hg : Good s)
    (hi : (s.mem a).flags.init = true) (hadd : a = s.ev_signal → s.sig.ev_signal_added = true)
    (hf : Frame s₁ s') (hm : s'.mem = s₁.mem) (hl : s'.locals = s₁.locals) (hq : s'.qs = s₁.qs)
    (ht : Table s'.mem s'.epoll) : Deleted s a s' := by
  have hfr : Frame s s' := u.frame.trans hf
  have hmem := hm.trans u.mem
  have hloc := hl.trans u.locals
  have hw : Wf s'.mem s'.qs := by rw [hm, hq]; exact u.wf
  exact ⟨hfr, hmem, hloc, fun q p => by rw [hq]; exact u.line q p,
    hg.deleted hfr hi hmem hloc hw ht hadd⟩

/-- Memory after an event left the timers and the active events. -/
def Mem.unarmed (m : Mem) (a : Addr) : Mem := (m.flag a .timeout false).flag a .active false

theorem unarmed_self (m : Mem) (a : Addr) :
    (m.unarmed a a).flags.inserted = (m a).flags.inserted ∧
      (m.unarmed a a).flags.signal = (m a).flags.signal ∧ (m.unarmed a a).fd = (m a).fd ∧
        (m.unarmed a a).events = (m a).events := by
  simp [Mem.unarmed, flag_apply, Flags.set]

theorem Table.unarmed {m : Mem} {e : Epollop} (h : Table m e) (a : Addr) : Table (m.unarmed a) e := by
  refine h.congr fun x => ?_
  by_cases hx : x = a
  · obtain ⟨h₁, -, h₂, h₃⟩ := unarmed_self m a
    rw [hx]
    exact ⟨h₁, fun _ => ⟨h₂, h₃⟩⟩
  · rw [Mem.unarmed, flag_other hx, flag_other hx]
    exact ⟨rfl, fun _ => ⟨rfl, rfl⟩⟩

/-- `event_del` takes the event out of its queues, then asks the kernel only if the event was
inserted or is a signal. -/
theorem eventDel_dequeues {s : State} {a : Addr} (hg : Good s) (hc : ¬CutShort s a)
    (hi : (s.mem a).flags.init = true) :
    ∃ s₃ s₄, eventDel s a = (if (s.mem a).flags.inserted then epollDel s₃ a
        else if (s.mem a).flags.signal then epollDel s₄ a else some (s₄, 0)) ∧
      Dequeued s a s₄ ∧ s₃.mem = (s.mem.unarmed a).flag a .inserted false ∧
      ((s.mem a).flags.signal = false → s₃ = s₄) := by
  have h₀ := abortLoop_spec hg hc
  generalize hs₀ : { s with locals := s.locals.map (Locals.stop a) } = s₀ at h₀
  have hw₀ : Wf s₀.mem s₀.qs := by rw [← hs₀]; exact hg.wf
  obtain ⟨s₁, h₁, u₁⟩ := removeIf_spec a .timeout hw₀
  obtain ⟨s₂, h₂, u₂⟩ := removeIf_spec a .active u₁.wf
  obtain ⟨s₃, h₃, u₃⟩ := removeIf_spec a .inserted u₂.wf
  obtain ⟨s₄, h₄, u₄⟩ := removeIf_spec a .signal u₃.wf
  have hmem₂ : s₂.mem = s.mem.unarmed a := by rw [u₂.mem, u₁.mem, ← hs₀, Mem.unarmed]
  have hmem₃ : s₃.mem = (s.mem.unarmed a).flag a .inserted false := by rw [u₃.mem, hmem₂]
  have hin : (s₂.mem a).flags.inserted = (s.mem a).flags.inserted := by
    rw [hmem₂, (unarmed_self s.mem a).1]
  have hsi : (s₂.mem a).flags.signal = (s.mem a).flags.signal := by
    rw [hmem₂, (unarmed_self s.mem a).2.1]
  have hsi₃ : (s₃.mem a).flags.get .signal = (s.mem a).flags.signal := by
    rw [← hsi, u₃.mem, flag_apply, if_pos rfl]
    rfl
  have hstay : (s.mem a).flags.signal = false → s₃ = s₄ := by
    intro h
    rw [removeIf, hsi₃, h, if_neg Bool.false_ne_true] at h₄
    exact Option.some.inj h₄
  refine ⟨s₃, s₄, ?_, ⟨?_, ?_, ?_, fun q p => ?_, u₄.wf, ?_⟩, hmem₃, hstay⟩
  · simp only [eventDel, State.readable, hi, Bool.true_or, Bool.not_true, Bool.false_eq_true,
      if_false, h₀, Option.bind_some, h₁, h₂, hin]
    cases hin' : (s.mem a).flags.inserted with
    | true =>
      rw [removeIf, show (s₂.mem a).flags.get .inserted = true from hin.trans hin', if_pos rfl] at h₃
      simp [h₃]
    | false =>
      rw [removeIf, show (s₂.mem a).flags.get .inserted = false from hin.trans hin',
        if_neg Bool.false_ne_true] at h₃
      obtain rfl := Option.some.inj h₃
      cases hsi' : (s.mem a).flags.signal with
      | true =>
        rw [removeIf, hsi₃, hsi', if_pos rfl] at h₄
        simp [hsi, hsi', h₄]
      | false =>
        rw [hstay hsi']
        simp [hsi, hsi', ← hstay hsi']
  · refine .trans ?_ (((u₁.only.frame u₁.queues).trans (u₂.only.frame u₂.queues)).trans
      ((u₃.only.frame u₃.queues).trans (u₄.only.frame u₄.queues)))
    rw [← hs₀]
    constructor <;> rfl
  · rw [u₄.mem, hmem₃, Mem.unarmed, flag_off]
  · rw [u₄.only, u₃.only, u₂.only, u₁.only, ← hs₀]
  · cases q <;> simp [u₄.line, u₃.line, u₂.line, u₁.line, ← hs₀]
  · rw [u₄.only, u₃.only, u₂.only, u₁.only, ← hs₀]

/-- `sigaction` refuses the signal when the event is deleted. -/
def Event.refused (ev : Event) : Bool := ev.flags.signal && !known ev.fd

/-- The event leaves its queues, and then the kernel's table. -/
theorem eventDel_leaves {s : State} {a : Addr} (hg : Good s) (hc : ¬CutShort s a)
    (hi : (s.mem a).flags.init = true) :
    ∃ s₁ s', eventDel s a = some (s', if (s.mem a).refused then -1 else 0) ∧ Dequeued s a s₁ ∧
      Frame s₁ s' ∧ s'.mem = s₁.mem ∧ s'.locals = s₁.locals ∧ s'.qs = s₁.qs ∧
      Table s'.mem s'.epoll := by
  obtain ⟨s₃, s₄, hdel, u, hmem₃, hstay⟩ := eventDel_dequeues hg hc hi
  have hok := hg.ok a
  rw [hdel, Event.refused]
  cases hi₁ : (s.mem a).flags.inserted with
  | true =>
    have hio := hok.io hi₁
    have hns : (s.mem a).events.signal = false := by
      cases h : (s.mem a).events.signal with
      | false => rfl
      | true => exact absurd ⟨hio, h⟩ (hok.one hi)
    have hsf : (s.mem a).flags.signal = false := by
      cases h : (s.mem a).flags.signal with
      | false => rfl
      | true => rw [hok.signal h] at hns; cases hns
    obtain rfl := hstay hsf
    obtain ⟨hin, -, -, hev⟩ := unarmed_self s.mem a
    obtain ⟨e, he, ht, hlen, hv, hl⟩ := epollDel_spec (m := s.mem.unarmed a) (s := s₃) (a := a)
      (by rw [u.epoll]; exact hg.table.unarmed a) hmem₃ (by rw [hin, hi₁]) (by rw [hev, hns])
      (by rw [hev, hio])
    rw [if_pos rfl, hsf, Bool.false_and, if_neg Bool.false_ne_true]
    refine ⟨s₃, _, he, u, ?_, rfl, rfl, rfl, ht⟩
    constructor <;> first | rfl | assumption
  | false =>
    have ht := u.table hg hi₁
    rw [if_neg Bool.false_ne_true]
    cases hs₁ : (s.mem a).flags.signal with
    | true =>
      have hself : s₄.mem a = { s.mem a with flags := (s.mem a).flags.off } := by
        rw [u.mem, set_self]
      have hres : (if known (s.mem a).fd then (0 : Int) else -1) =
          if !known (s.mem a).fd then -1 else 0 := by
        cases known (s.mem a).fd <;> rfl
      rw [if_pos rfl, epollDel, hself, if_pos (hok.signal hs₁), evsignalDel, hself, hres,
        Bool.true_and]
      refine ⟨s₄, _, rfl, u, ?_, rfl, rfl, rfl, ht⟩
      constructor <;> rfl
    | false =>
      rw [if_neg Bool.false_ne_true, Bool.false_and, if_neg Bool.false_ne_true]
      refine ⟨s₄, _, rfl, u, ?_, rfl, rfl, rfl, ht⟩
      constructor <;> rfl

theorem eventDel_spec {s : State} {a : Addr} (hg : Good s) (hc : ¬CutShort s a)
    (hi : (s.mem a).flags.init = true)
    (hadd : a = s.ev_signal → s.sig.ev_signal_added = true) :
    ∃ s', eventDel s a = some (s', if (s.mem a).refused then -1 else 0) ∧ Deleted s a s' := by
  obtain ⟨s₁, s', h, u, hf, hm, hl, hq, ht⟩ := eventDel_leaves hg hc hi
  exact ⟨s', h, u.deleted hg hi hadd hf hm hl hq ht⟩

/-! ### `event_active` -/

/-- An event after `event_active`. -/
def Event.activated (ev : Event) (res : What) (ncalls : Nat) : Event :=
  if ev.flags.active then { ev with res := ev.res.or res }
  else { ev with res := res, ncalls := ncalls, pncalls := none, flags := ev.flags.set .active true }

/-- What `event_active` does: an event that was not active goes to the end of the
queue of its priority. -/
structure Activated (s : State) (a : Addr) (res : What) (ncalls : Nat) (s' : State) : Prop where
  frame : Frame s s'
  mem : s'.mem = s.mem.set a ((s.mem a).activated res ncalls)
  locals : s'.locals = s.locals
  epoll : s'.epoll = s.epoll
  sig : s'.sig = s.sig
  line : ∀ q p, s'.qs.line q p =
    if q = .active ∧ p = (s.mem a).pri ∧ (s.mem a).flags.active = false then s.qs.line q p ++ [a]
    else s.qs.line q p
  good : Good s'

theorem Event.activated_flags (ev : Event) (res : What) (ncalls : Nat) :
    (ev.activated res ncalls).flags = ev.flags.set .active true := by
  rw [activated]
  split
  next h => exact (Flags.set_get (q := .active) h).symm
  next => rfl

@[simp] theorem Event.activated_other (ev : Event) (res : What) (ncalls : Nat) :
    (ev.activated res ncalls).events = ev.events ∧ (ev.activated res ncalls).fd = ev.fd ∧
      (ev.activated res ncalls).pri = ev.pri ∧
      (ev.activated res ncalls).timeout = ev.timeout := by
  rw [activated]
  split <;> exact ⟨rfl, rfl, rfl, rfl⟩

theorem Good.activated {s s' : State} {a : Addr} {res : What} {ncalls : Nat} (hg : Good s)
    (hf : Frame s s') (hi : (s.mem a).flags.init = true) (hr : ¬Running s a)
    (hmem : s'.mem = s.mem.set a ((s.mem a).activated res ncalls))
    (hloc : s'.locals = s.locals) (hw : Wf s'.mem s'.qs) (hep : s'.epoll = s.epoll)
    (hadd : a = s.ev_signal → s.sig.ev_signal_added = true) : Good s' := by
  have hself : s'.mem a = (s.mem a).activated res ncalls := by rw [hmem, set_self]
  have hother : ∀ x, x ≠ a → s'.mem x = s.mem x := fun x e => by rw [hmem, set_ne e]
  obtain ⟨hev, hfd, -, -⟩ := (s.mem a).activated_other res ncalls
  have hfl := (s.mem a).activated_flags res ncalls
  have ok := hg.ok a
  have hpn : ((s.mem a).activated res ncalls).pncalls = none := by
    rw [Event.activated]
    split
    next h => exact ok.pncalls h
    next => rfl
  refine hg.update hf hw ?_ hother ?_ (fun l hl hn => ?_) (fun x e hx => ?_) (fun h q => ?_) ?_
  · rw [hep]
    refine hg.table.congr fun x => ?_
    by_cases e : x = a
    · subst e
      rw [hself, hfl, hev, hfd]
      exact ⟨rfl, fun _ => ⟨rfl, rfl⟩⟩
    · rw [hother x e]
      exact ⟨rfl, fun _ => ⟨rfl, rfl⟩⟩
  · rw [hself]
    refine ⟨?_, ?_, ?_, ?_, ?_, fun _ => hpn⟩
    · rw [hfl, hev]; exact ok.io
    · rw [hfl, hev]; exact ok.signal
    · rw [hfl, hev]; exact ok.one
    · rw [hfl, hev, hfd]; exact ok.range
    · rw [hfl, hev, hfd]; exact ok.number
  · rw [hloc] at hl
    exact ⟨hl, fun e => absurd ⟨l, hl, e, hn⟩ hr⟩
  · exact (running_congr hloc x).mpr hx
  · have h₂ := h.2.1
    rw [hself] at h₂
    exact absurd hpn h₂
  · by_cases e : a = s.ev_signal
    · refine hg.pipe.self hf (e ▸ hother) ?_ ?_ ?_ (hadd e)
      all_goals rw [← e, hself]
      · rw [hfl]; exact hi
      · exact hev
      · exact hfd
    · refine hg.pipe.other hf e hother fun hi' hio => ?_
      rw [hself, hev] at hio
      rw [hself, hfd]
      exact hg.pipe.alone a e hi hio

theorem eventActive_spec {s : State} {a : Addr} (res : What) (ncalls : Nat) (hg : Good s)
    (hi : (s.mem a).flags.init = true) (hr : ¬Running s a)
    (hadd : a = s.ev_signal → s.sig.ev_signal_added = true) :
    ∃ s', eventActive s a res ncalls = some s' ∧ Activated s a res ncalls s' := by
  obtain ⟨hev, hfd, hpri, htime⟩ := (s.mem a).activated_other res ncalls
  cases ha : (s.mem a).flags.active with
  | true =>
    have hmem : s.mem.set a { s.mem a with res := (s.mem a).res.or res } =
        s.mem.set a ((s.mem a).activated res ncalls) := by rw [Event.activated, if_pos ha]
    have hfr : Frame s { s with mem := s.mem.set a ((s.mem a).activated res ncalls) } := by
      constructor <;> rfl
    have hw : Wf (s.mem.set a ((s.mem a).activated res ncalls)) s.qs := by
      refine hg.wf.set ?_ hpri fun _ => htime
      rw [Event.activated_flags, Flags.set_get (q := .active) ha]
    refine ⟨_, by simp only [eventActive, hi, ha, hmem]; rfl, hfr, rfl, rfl, rfl, rfl,
      fun q p => ?_, hg.activated hfr hi hr rfl rfl hw rfl hadd⟩
    simp [ha]
  | false =>
    let ev := { s.mem a with res := res, ncalls := ncalls, pncalls := none }
    have hw : Wf (s.mem.set a ev) s.qs := hg.wf.set rfl rfl fun _ => rfl
    have hself : s.mem.set a ev a = ev := set_self ..
    obtain ⟨s', he, hl⟩ := eventQueueInsert_spec (s := { s with mem := s.mem.set a ev }) a .active
      hw (by simp only [hself]; exact ha) (by simp only [hself]; exact hi) nofun
    have hmem : s'.mem = s.mem.set a ((s.mem a).activated res ncalls) := by
      rw [hl.mem, flag_set, Event.activated, ha]
      rfl
    have hloc : s'.locals = s.locals := by rw [hl.only]
    have hep : s'.epoll = s.epoll := by rw [hl.only]
    have hfr : Frame s s' := .trans (by constructor <;> rfl) (hl.only.frame hl.queues)
    have hact : eventActive s a res ncalls = some s' := by
      simp only [eventActive, hi, ha, Bool.not_true, Bool.false_eq_true, if_false]
      exact he
    refine ⟨s', hact, hfr, hmem, hloc, hep,
      by rw [hl.only], fun q p => ?_, hg.activated hfr hi hr hmem hloc hl.wf hep hadd⟩
    have hline := hl.line q p
    simp only [hself] at hline
    rw [hline]
    by_cases e : q = .active
    · subst e
      simp [ev, ha]
    · simp [e]

/-! ### `event_add` -/

/-- The flags after an activation by a timeout was taken back. -/
def Event.unscheduled (ev : Event) : Flags :=
  if ev.flags.active && ev.res.timeout then ev.flags.set .active false else ev.flags

/-- An event after the part of `event_add` that sets a time. -/
def Event.timed (ev : Event) (now : Timeval) : Option Timeval → Event
  | none => ev
  | some tv => { ev with timeout := now.add tv, flags := ev.unscheduled.set .timeout true }

theorem Event.unscheduled_init (ev : Event) : ev.unscheduled.init = ev.flags.init := by
  rw [unscheduled]
  split <;> rfl

/-- An active event keeps no pointer, so that nothing is aborted here. -/
theorem unschedule_spec {s : State} {a : Addr} (hw : Wf s.mem s.qs)
    (hp : (s.mem a).flags.active = true → (s.mem a).pncalls = none) :
    ∃ s', unschedule s a = some s' ∧
      if (s.mem a).flags.active && (s.mem a).res.timeout then Unlinked s a .active s'
      else s' = s := by
  rw [unschedule]
  split
  next h =>
    rw [Bool.and_eq_true] at h
    have hab : abortLoop s a = some s := by
      rw [abortLoop, hp h.1]
      split <;> rfl
    obtain ⟨s', h', u⟩ := removeIf_spec a .active hw
    rw [removeIf, show (s.mem a).flags.get .active = true from h.1, if_pos rfl] at h'
    exact ⟨s', by rw [hab]; exact h', u⟩
  next => exact ⟨s, rfl, rfl⟩

/-- The first part of `event_add`. -/
structure Timed (s : State) (a : Addr) (now : Timeval) (tv : Option Timeval) (s' : State) :
    Prop where
  only : OnlyQueues s s'
  mem : s'.mem = s.mem.set a ((s.mem a).timed now tv)
  wf : Wf s'.mem s'.qs
  queues : s'.qs.activequeues.length = s.qs.activequeues.length
  line : ∀ p, s'.qs.line .active p =
    if tv.isSome && ((s.mem a).flags.active && (s.mem a).res.timeout) then
      (s.qs.line .active p).erase a
    else s.qs.line .active p

theorem addTimeout_spec {s : State} {a : Addr} {now : Timeval} {tv : Option Timeval}
    (hw : Wf s.mem s.qs) (hp : (s.mem a).flags.active = true → (s.mem a).pncalls = none)
    (hi : (s.mem a).flags.init = true) (hnow : now.Valid) (htv : ∀ t ∈ tv, t.Delay) :
    ∃ s', addTimeout s a now tv = some s' ∧ Timed s a now tv s' := by
  cases tv with
  | none => exact ⟨s, rfl, rfl, (Function.update_eq_self ..).symm, hw, rfl, fun p => rfl⟩
  | some tv =>
    obtain ⟨s₁, h₁, u₁⟩ := removeIf_spec a .timeout hw
    have hself : s₁.mem a = { s.mem a with flags := (s.mem a).flags.set .timeout false } := by
      rw [u₁.mem, flag_apply, if_pos rfl]
    have hcond : ((s₁.mem a).flags.active && (s₁.mem a).res.timeout) =
        ((s.mem a).flags.active && (s.mem a).res.timeout) := by
      rw [hself]
      rfl
    obtain ⟨s₂, h₂, u₂⟩ := unschedule_spec (a := a) u₁.wf (by rw [hself]; exact hp)
    rw [hcond] at u₂
    have hs₂ : OnlyQueues s s₂ ∧ Wf s₂.mem s₂.qs ∧
        s₂.qs.activequeues.length = s.qs.activequeues.length ∧
        s₂.mem = s.mem.set a { s.mem a with flags := (s.mem a).unscheduled.set .timeout false } ∧
        ∀ p, s₂.qs.line .active p =
          if (s.mem a).flags.active && (s.mem a).res.timeout then (s.qs.line .active p).erase a
          else s.qs.line .active p := by
      rw [Event.unscheduled]
      split at u₂
      next h =>
        refine ⟨by rw [OnlyQueues, u₂.only, u₁.only], u₂.wf, u₂.queues.trans u₁.queues, ?_,
          fun p => ?_⟩
        · rw [u₂.mem, u₁.mem, if_pos h, Mem.flag, Mem.flag, set_self, set_set]
          rfl
        · rw [u₂.line, u₁.line, if_pos h]
          simp
      next h =>
        subst u₂
        refine ⟨u₁.only, u₁.wf, u₁.queues, ?_, fun p => ?_⟩
        · rw [u₁.mem, if_neg h]
          rfl
        · rw [u₁.line, if_neg h]
          simp
    obtain ⟨hon, hw, hn, hmem, hline⟩ := hs₂
    let ev := { s₂.mem a with timeout := now.add tv }
    have hto : (s₂.mem a).flags.timeout = false := by
      rw [hmem, set_self]
      rfl
    have hw' : Wf (s₂.mem.set a ev) s₂.qs := hw.set rfl rfl fun h => by rw [hto] at h; cases h
    have hself' : s₂.mem.set a ev a = ev := set_self ..
    obtain ⟨s₃, h₃, u₃⟩ := eventQueueInsert_spec (s := { s₂ with mem := s₂.mem.set a ev }) a .timeout
      hw' (by simp only [hself']; exact hto)
      (by simp only [ev, hmem, set_self, Flags.init_set, Event.unscheduled_init, hi])
      (fun _ => by simp only [hself']; exact hnow.add (htv tv rfl))
    refine ⟨s₃, by simp only [addTimeout, h₁, h₂, Option.bind_some]; exact h₃, ?_, ?_, u₃.wf,
      u₃.queues.trans hn, fun p => ?_⟩
    · rw [OnlyQueues, u₃.only, hon]
    · rw [u₃.mem, flag_set]
      simp only [ev, hmem, set_self, set_set]
      rfl
    · rw [u₃.line]
      simpa using hline p

/-- An event after the part of `event_add` that puts it into the other queues. -/
def Event.entered (ev : Event) : Event :=
  if ev.events.io && !(ev.flags.inserted || ev.flags.active) then
    { ev with flags := ev.flags.set .inserted true }
  else if ev.events.signal && !ev.flags.signal then { ev with flags := ev.flags.set .signal true }
  else ev

def Event.added (ev : Event) (now : Timeval) (tv : Option Timeval) : Event :=
  (ev.timed now tv).entered

/-- What `event_add` does: an event that is active because of its time may leave the
active queue, and the others keep their order there. -/
structure Added (s : State) (a : Addr) (now : Timeval) (tv : Option Timeval) (s' : State) :
    Prop where
  frame : Frame s s'
  mem : s'.mem = s.mem.set a ((s.mem a).added now tv)
  locals : s'.locals = s.locals
  line : ∀ p, s'.qs.line .active p =
    if tv.isSome && ((s.mem a).flags.active && (s.mem a).res.timeout) then
      (s.qs.line .active p).erase a
    else s.qs.line .active p
  good : Good s'

/-- The descriptor is open, and no other event waits for it in the same direction. -/
def Free (s : State) (a : Addr) : Prop :=
  (s.mem a).events.io = true → (s.mem a).flags.inserted = false →
    s.epoll.live (s.mem a).fd = true ∧ ∀ b, (s.mem b).fd = (s.mem a).fd →
      ((s.mem a).events.read = true → (s.mem b).reads = false) ∧
      ((s.mem a).events.write = true → (s.mem b).writes = false)

/-- What setting a time and entering the queues leaves of an event. -/
structure Keeps (ev ev' : Event) : Prop where
  fd : ev'.fd = ev.fd
  events : ev'.events = ev.events
  ncalls : ev'.ncalls = ev.ncalls
  pncalls : ev'.pncalls = ev.pncalls
  pri : ev'.pri = ev.pri
  res : ev'.res = ev.res
  init : ev'.flags.init = ev.flags.init
  active : ev'.flags.active = true → ev.flags.active = true
  inserted : ev'.flags.inserted = true → ev.flags.inserted = true ∨ ev.events.io = true
  signal : ev'.flags.signal = true → ev.flags.signal = true ∨ ev.events.signal = true

theorem keeps_timed (ev : Event) (now : Timeval) (tv : Option Timeval) :
    Keeps ev (ev.timed now tv) := by
  cases tv with
  | none => exact ⟨rfl, rfl, rfl, rfl, rfl, rfl, rfl, id, fun h => .inl h, fun h => .inl h⟩
  | some tv =>
    rw [Event.timed, Event.unscheduled]
    split
    next h => exact ⟨rfl, rfl, rfl, rfl, rfl, rfl, rfl, nofun, fun h => .inl h, fun h => .inl h⟩
    next h => exact ⟨rfl, rfl, rfl, rfl, rfl, rfl, rfl, id, fun h => .inl h, fun h => .inl h⟩

theorem timed_get (ev : Event) (now : Timeval) (tv : Option Timeval) :
    (ev.timed now tv).flags.inserted = ev.flags.inserted ∧
      (ev.timed now tv).flags.signal = ev.flags.signal := by
  cases tv with
  | none => exact ⟨rfl, rfl⟩
  | some tv =>
    rw [Event.timed, Event.unscheduled]
    split <;> exact ⟨rfl, rfl⟩

theorem keeps_entered (ev : Event) : Keeps ev ev.entered := by
  rw [Event.entered]
  split
  next h =>
    rw [Bool.and_eq_true] at h
    exact ⟨rfl, rfl, rfl, rfl, rfl, rfl, rfl, id, fun _ => .inr h.1, fun h => .inl h⟩
  next =>
    split
    next h =>
      rw [Bool.and_eq_true] at h
      exact ⟨rfl, rfl, rfl, rfl, rfl, rfl, rfl, id, fun h => .inl h, fun _ => .inr h.1⟩
    next => exact ⟨rfl, rfl, rfl, rfl, rfl, rfl, rfl, id, fun h => .inl h, fun h => .inl h⟩

theorem Keeps.trans {a b c : Event} (h : Keeps a b) (h' : Keeps b c) : Keeps a c where
  fd := h'.fd.trans h.fd
  events := h'.events.trans h.events
  ncalls := h'.ncalls.trans h.ncalls
  pncalls := h'.pncalls.trans h.pncalls
  pri := h'.pri.trans h.pri
  res := h'.res.trans h.res
  init := h'.init.trans h.init
  active hc := h.active (h'.active hc)
  inserted hc := (h'.inserted hc).elim h.inserted fun e => .inr (h.events ▸ e)
  signal hc := (h'.signal hc).elim h.signal fun e => .inr (h.events ▸ e)

theorem keeps_added (ev : Event) (now : Timeval) (tv : Option Timeval) :
    Keeps ev (ev.added now tv) :=
  (keeps_timed ev now tv).trans (keeps_entered _)

theorem Good.added {s s' : State} {a : Addr} {now : Timeval} {tv : Option Timeval} (hg : Good s)
    (hf : Frame s s') (hi : (s.mem a).flags.init = true) (hc : ¬CutShort s a)
    (hmem : s'.mem = s.mem.set a ((s.mem a).added now tv)) (hloc : s'.locals = s.locals)
    (hw : Wf s'.mem s'.qs) (ht : Table s'.mem s'.epoll)
    (hadd : a = s.ev_signal → s.sig.ev_signal_added = true) : Good s' := by
  have hself : s'.mem a = (s.mem a).added now tv := by rw [hmem, set_self]
  have hother : ∀ x, x ≠ a → s'.mem x = s.mem x := fun x e => by rw [hmem, set_ne e]
  have hk := hself ▸ keeps_added (s.mem a) now tv
  have ok := hg.ok a
  refine hg.update hf hw ht hother ⟨?_, ?_, ?_, ?_, ?_, ?_⟩ (fun l hl hn => ?_) (fun x e hx => ?_)
    (fun h => ?_) ?_
  · exact fun h => hk.events ▸ (hk.inserted h).elim ok.io id
  · exact fun h => hk.events ▸ (hk.signal h).elim ok.signal id
  · rw [hk.init, hk.events]; exact ok.one
  · rw [hk.init, hk.events, hk.fd]; exact ok.range
  · rw [hk.init, hk.events, hk.fd]; exact ok.number
  · exact fun h => hk.pncalls.trans (ok.pncalls (hk.active h))
  · rw [hloc] at hl
    exact ⟨hl, fun _ => ⟨hk.ncalls, hk.pncalls⟩⟩
  · exact (running_congr hloc x).mpr hx
  · exact absurd ⟨hk.ncalls ▸ h.1, hk.pncalls ▸ h.2.1,
      fun hr => h.2.2 ((running_congr hloc a).mpr hr)⟩ hc
  · by_cases e : a = s.ev_signal
    · subst e
      exact hg.pipe.self hf hother (hk.init.trans hi) hk.events hk.fd (hadd rfl)
    · refine hg.pipe.other hf e hother fun hi' hio => ?_
      rw [hk.events] at hio
      rw [hk.fd]
      exact hg.pipe.alone a e hi hio

namespace Timed

variable {s s₁ : State} {a : Addr} {now : Timeval} {tv : Option Timeval}

theorem self (t : Timed s a now tv s₁) : s₁.mem a = (s.mem a).timed now tv := by
  rw [t.mem, set_self]

theorem other (t : Timed s a now tv s₁) {x : Addr} (e : x ≠ a) : s₁.mem x = s.mem x := by
  rw [t.mem, set_ne e]

theorem epoll (t : Timed s a now tv s₁) : s₁.epoll = s.epoll := by
  rw [t.only]

theorem locals (t : Timed s a now tv s₁) : s₁.locals = s.locals := by
  rw [t.only]

theorem frame (t : Timed s a now tv s₁) : Frame s s₁ := t.only.frame t.queues

/-- The timers are no concern of the kernel's table. -/
theorem table (t : Timed s a now tv s₁) (hg : Good s) : Table s₁.mem s.epoll := by
  refine hg.table.congr fun x => ?_
  by_cases e : x = a
  · have hk := keeps_timed (s.mem a) now tv
    rw [e, t.self]
    exact ⟨(timed_get (s.mem a) now tv).1, fun _ => ⟨hk.fd, hk.events⟩⟩
  · rw [t.other e]
    exact ⟨rfl, fun _ => ⟨rfl, rfl⟩⟩

/-- The second part of `event_add` for an event that waits for a descriptor. -/
theorem insert_spec (recalc : State → Option (State × Int)) (t : Timed s a now tv s₁) (hg : Good s)
    (hi : (s.mem a).flags.init = true) (hc : ¬CutShort s a) (hfree : Free s a)
    (hadd : a = s.ev_signal → s.sig.ev_signal_added = true)
    (hcond : ((s₁.mem a).events.io &&
      !((s₁.mem a).flags.inserted || (s₁.mem a).flags.active)) = true) :
    ∃ s', ((eventQueueInsert s₁ a .inserted).bind fun s => epollAdd recalc s a) = some (s', 0) ∧
      Added s a now tv s' := by
  have hk := t.self ▸ keeps_timed (s.mem a) now tv
  have hin := t.self ▸ (timed_get (s.mem a) now tv).1
  have hok := hg.ok a
  have hent : (s₁.mem a).entered = { s₁.mem a with flags := (s₁.mem a).flags.set .inserted true } :=
    if_pos hcond
  simp only [Bool.and_eq_true, Bool.not_eq_true', Bool.or_eq_false_iff] at hcond
  obtain ⟨hio, hni, -⟩ := hcond
  have hio' : (s.mem a).events.io = true := hk.events ▸ hio
  obtain ⟨s₂, h₂, l₂⟩ := eventQueueInsert_spec a .inserted t.wf hni (hk.init.trans hi)
    fun h => by cases h
  have hep₂ : s₂.epoll = s.epoll := by rw [l₂.only, t.epoll]
  obtain ⟨hlive, hdir⟩ := hfree hio' (hin ▸ hni)
  have hns : (s₁.mem a).events.signal = false := by
    cases h : (s₁.mem a).events.signal with
    | false => rfl
    | true => exact absurd ⟨hio', hk.events ▸ h⟩ (hok.one hi)
  have hdir₁ : ∀ b, (s₁.mem b).fd = (s₁.mem a).fd →
      ((s₁.mem a).events.read = true → (s₁.mem b).reads = false) ∧
        ((s₁.mem a).events.write = true → (s₁.mem b).writes = false) := by
    intro b hb
    by_cases e : b = a
    · rw [e, Event.reads, Event.writes, hni]
      exact ⟨fun _ => rfl, fun _ => rfl⟩
    · rw [t.other e] at hb ⊢
      rw [hk.events]
      exact hdir b (hb.trans hk.fd)
  obtain ⟨e, he, ht, hlen, hv, hl⟩ := epollAdd_spec recalc (m := s₁.mem) (s := s₂)
    (a := a) (hep₂ ▸ t.table hg) l₂.mem hni hns (by rw [hep₂, hk.fd]; exact hok.range hi hio')
    (by rw [hep₂, hk.fd]; exact hlive) hdir₁ hio
  have hfr : Frame s { s₂ with epoll := e } := by
    refine (t.frame.trans (l₂.only.frame l₂.queues)).trans ?_
    constructor <;> first | rfl | assumption
  have hmem : s₂.mem = s.mem.set a ((s.mem a).added now tv) := by
    rw [Event.added, ← t.self, hent, l₂.mem, Mem.flag, t.mem, set_set, set_self]
  have hloc : s₂.locals = s.locals := by rw [l₂.only, t.locals]
  refine ⟨_, by rw [h₂]; exact he, hfr, hmem, hloc, fun p => ?_,
    hg.added hfr hi hc hmem hloc l₂.wf ht hadd⟩
  rw [← t.line p]
  exact (l₂.line .active p).trans (if_neg (by simp))

/-- The second part of `event_add` for a signal event that is not in the queue of signals. -/
theorem signal_spec (recalc : State → Option (State × Int)) (t : Timed s a now tv s₁) (hg : Good s)
    (hi : (s.mem a).flags.init = true) (hc : ¬CutShort s a)
    (hadd : a = s.ev_signal → s.sig.ev_signal_added = true)
    (hcond : ¬((s₁.mem a).events.io &&
      !((s₁.mem a).flags.inserted || (s₁.mem a).flags.active)) = true)
    (hsig : ((s₁.mem a).events.signal && !(s₁.mem a).flags.signal) = true) :
    ∃ s', ((eventQueueInsert s₁ a .signal).bind fun s => epollAdd recalc s a) = some (s', 0) ∧
      Added s a now tv s' := by
  have hk := t.self ▸ keeps_timed (s.mem a) now tv
  have hent : (s₁.mem a).entered =
      { s₁.mem a with flags := (s₁.mem a).flags.set .signal true } := by
    rw [Event.entered, if_neg hcond, if_pos hsig]
  simp only [Bool.and_eq_true, Bool.not_eq_true'] at hsig
  obtain ⟨hev, hns⟩ := hsig
  obtain ⟨s₂, h₂, l₂⟩ := eventQueueInsert_spec a .signal t.wf hns (hk.init.trans hi)
    fun h => by cases h
  have hmem : s₂.mem = s.mem.set a ((s.mem a).added now tv) := by
    rw [Event.added, ← t.self, hent, l₂.mem, Mem.flag, t.mem, set_set, set_self]
  have hev₂ : (s₂.mem a).events.signal = true := by
    rw [l₂.mem, flag_apply, if_pos rfl]
    exact hev
  have hloc : s₂.locals = s.locals := by rw [l₂.only, t.locals]
  have hfr : Frame s s₂ := t.frame.trans (l₂.only.frame l₂.queues)
  have ht : Table s₂.mem s₂.epoll := by
    rw [l₂.only, t.epoll]
    refine (t.table hg).congr fun x => ?_
    rw [l₂.mem, flag_apply]
    split
    next e => rw [e]; exact ⟨rfl, fun _ => ⟨rfl, rfl⟩⟩
    next => exact ⟨rfl, fun _ => ⟨rfl, rfl⟩⟩
  refine ⟨s₂, by rw [h₂, Option.bind_some, epollAdd]; simp [hev₂], hfr, hmem, hloc,
    fun p => ?_, hg.added hfr hi hc hmem hloc l₂.wf ht hadd⟩
  rw [← t.line p]
  exact (l₂.line .active p).trans (if_neg (by simp))

end Timed

theorem eventAdd_spec (recalc : State → Option (State × Int)) {s : State} {a : Addr} {now : Timeval}
    {tv : Option Timeval} (hg : Good s) (hi : (s.mem a).flags.init = true) (hc : ¬CutShort s a)
    (hnow : now.Valid) (htv : ∀ t ∈ tv, t.Delay) (hfree : Free s a)
    (hadd : a = s.ev_signal → s.sig.ev_signal_added = true) :
    ∃ s', eventAddWith recalc s a now tv = some (s', 0) ∧ Added s a now tv s' := by
  obtain ⟨s₁, h₁, t⟩ := addTimeout_spec hg.wf (hg.ok a).pncalls hi hnow htv
  simp only [eventAddWith, hi, Bool.not_true, Bool.false_eq_true, if_false, h₁, Option.bind_some]
  split
  next hcond => exact t.insert_spec recalc hg hi hc hfree hadd hcond
  next hcond =>
    split
    next hsig => exact t.signal_spec recalc hg hi hc hadd hcond hsig
    next hsig =>
      have hmem : s₁.mem = s.mem.set a ((s.mem a).added now tv) := by
        rw [Event.added, ← t.self, Event.entered, if_neg hcond, if_neg hsig, t.mem, set_self]
      have ht : Table s₁.mem s₁.epoll := by
        rw [t.epoll]
        exact t.table hg
      exact ⟨s₁, rfl, t.frame, hmem, t.locals, t.line,
        hg.added t.frame hi hc hmem t.locals t.wf ht hadd⟩

/-- `event_add` asks the kernel to watch for the event. -/
def Event.enters (ev : Event) (tv : Option Timeval) : Bool :=
  ev.events.io && !(ev.flags.inserted || ev.flags.active && !(tv.isSome && ev.res.timeout))

theorem timed_enters (ev : Event) (now : Timeval) (tv : Option Timeval) :
    ((ev.timed now tv).events.io &&
      !((ev.timed now tv).flags.inserted || (ev.timed now tv).flags.active)) = ev.enters tv := by
  rw [(timed_get ev now tv).1, (keeps_timed ev now tv).events, Event.enters]
  cases tv with
  | none => simp [Event.timed]
  | some tv =>
    rw [Event.timed, Event.unscheduled]
    cases h : ev.flags.active <;> cases h' : ev.res.timeout <;> simp [h, Flags.set]

/-- `event_add` fails just where it comes to a descriptor that is not open, whatever other events
wait for. -/
theorem eventAdd_result (recalc : State → Option (State × Int)) {s : State} {a : Addr}
    {now : Timeval} {tv : Option Timeval} (hg : Good s) (hi : (s.mem a).flags.init = true)
    (hnow : now.Valid) (htv : ∀ t ∈ tv, t.Delay) :
    ∃ s', eventAddWith recalc s a now tv = some (s',
      if (s.mem a).enters tv && !s.epoll.live (s.mem a).fd then -1 else 0) := by
  obtain ⟨s₁, h₁, t⟩ := addTimeout_spec hg.wf (hg.ok a).pncalls hi hnow htv
  have hk := t.self ▸ keeps_timed (s.mem a) now tv
  have hin := t.self ▸ (timed_get (s.mem a) now tv).1
  have henters := t.self ▸ timed_enters (s.mem a) now tv
  simp only [eventAddWith, hi, Bool.not_true, Bool.false_eq_true, if_false, h₁, Option.bind_some,
    henters]
  cases h : (s.mem a).enters tv with
  | true =>
    rw [if_pos rfl, Bool.true_and]
    rw [Event.enters, Bool.and_eq_true, Bool.not_eq_true', Bool.or_eq_false_iff] at h
    obtain ⟨hio, hni, -⟩ := h
    obtain ⟨s₂, h₂, l₂⟩ := eventQueueInsert_spec a .inserted t.wf (hin.trans hni)
      (hk.init.trans hi) fun h => by cases h
    have hep : s₂.epoll = s.epoll := by rw [l₂.only, t.epoll]
    have hself : (s₂.mem a).fd = (s.mem a).fd ∧ (s₂.mem a).events = (s.mem a).events := by
      rw [l₂.mem, flag_apply, if_pos rfl]
      exact ⟨hk.fd, hk.events⟩
    have hns : (s.mem a).events.signal = false := by
      cases hs : (s.mem a).events.signal with
      | false => rfl
      | true => exact absurd ⟨hio, hs⟩ ((hg.ok a).one hi)
    obtain ⟨s', h'⟩ := epollAdd_result recalc (m := s₁.mem) (s := s₂) (a := a)
      (hep ▸ t.table hg) (by rw [hself.2, hns])
      (by rw [hself.1, hep]; exact (hg.ok a).range hi hio)
    rw [hself.1, hep] at h'
    refine ⟨s', by rw [h₂, Option.bind_some, h']; cases s.epoll.live (s.mem a).fd <;> rfl⟩
  | false =>
    rw [if_neg Bool.false_ne_true, Bool.false_and, if_neg Bool.false_ne_true]
    split
    next hsig =>
      rw [Bool.and_eq_true, Bool.not_eq_true'] at hsig
      obtain ⟨s₂, h₂, l₂⟩ := eventQueueInsert_spec a .signal t.wf hsig.2 (hk.init.trans hi)
        fun h => by cases h
      have hev : (s₂.mem a).events.signal = true := by
        rw [l₂.mem, flag_apply, if_pos rfl]
        exact hsig.1
      exact ⟨s₂, by rw [h₂, Option.bind_some, epollAdd]; simp [hev]⟩
    next => exact ⟨s₁, rfl⟩

end FilesEvent.Net
