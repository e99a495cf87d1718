import FilesEvent.Net.Machine

/-! What holds of the event library after every orderly run: no step fails, the kernel
watches what the events wait for, and what a deletion does to the running loop. -/

namespace FilesEvent.Net
open RedBlack What

/-- What `event_init` starts from: at least one queue, and a descriptor in the range of
the table for the internal event. -/
structure Startable (n nfds : Nat) (pipe : Int) (now : Timeval) : Prop where
  queues : 0 < n
  pipe : 0 ≤ pipe ∧ pipe < nfds
  clock : now.Valid

section

variable {n nfds : Nat} {ev_signal : Addr} {pipe : Int} {now : Timeval} {zeroed : Addr → Bool}

theorem init_self : (Machine.init n nfds ev_signal pipe now zeroed).s.mem ev_signal = { Event.zero with
    fd := pipe, events := EV_READ, pri := 0, flags := { Flags.fresh with internal := true } } := by
  rw [Machine.init]
  simp only [set_self]

theorem init_other {a : Addr} (e : a ≠ ev_signal) :
    (Machine.init n nfds ev_signal pipe now zeroed).s.mem a = .zero := by
  rw [Machine.init]
  simp only [set_ne e]

theorem init_flags (q : Queue) (a : Addr) :
    ((Machine.init n nfds ev_signal pipe now zeroed).s.mem a).flags.get q = false := by
  rcases eq_or_ne a ev_signal with rfl | e
  · rw [init_self]
    cases q <;> rfl
  · rw [init_other e]
    cases q <;> rfl

theorem init_members (q : Queue) :
    (Machine.init n nfds ev_signal pipe now zeroed).s.qs.members q = [] := by
  cases q <;> simp [Machine.init, Queues.members, ColorTree.toList]

theorem init_counted (q : Queue) : counted (Machine.init n nfds ev_signal pipe now zeroed).s.mem
    (Machine.init n nfds ev_signal pipe now zeroed).s.qs q = 0 := by
  rw [counted, init_members]
  rfl

theorem init_wf (h : Startable n nfds pipe now) : Wf (Machine.init n nfds ev_signal pipe now zeroed).s.mem
    (Machine.init n nfds ev_signal pipe now zeroed).s.qs := by
  have hempty : ∀ q a, a ∉ (Machine.init n nfds ev_signal pipe now zeroed).s.qs.members q := by
    intro q a
    rw [init_members]
    exact List.not_mem_nil
  have hlen : (Machine.init n nfds ev_signal pipe now zeroed).s.qs.activequeues.length = n :=
    List.length_replicate
  have hn := h.queues
  constructor
  case flag => exact fun q a => iff_of_false (by rw [init_flags]; exact Bool.false_ne_true) (hempty q a)
  case nodup =>
    intro q
    rw [init_members]
    exact List.nodup_nil
  case inited => exact fun q a ha => absurd ha (hempty q a)
  case priority =>
    intro a ha
    rw [hlen]
    rcases eq_or_ne a ev_signal with rfl | e
    · rw [init_self]
      simp only
      omega
    · rw [init_other e] at ha
      cases ha
  case queue =>
    intro p l hl a ha
    exact absurd (List.mem_flatten_of_mem (List.mem_of_getElem? hl) ha) (hempty .active a)
  case queues => rwa [hlen]
  case legal => exact ColorTree.legal_nil
  case sorted => exact List.Pairwise.nil
  case valid => exact fun a ha => absurd ha (hempty .timeout a)
  case count =>
    rw [init_counted, init_counted, init_counted, init_counted]
    rfl
  case count_active =>
    rw [init_counted]
    rfl

theorem init_eventOk (h : Startable n nfds pipe now) (a : Addr) :
    EventOk nfds ((Machine.init n nfds ev_signal pipe now zeroed).s.mem a) := by
  rcases eq_or_ne a ev_signal with rfl | e
  · rw [init_self]
    refine ⟨by simp [Flags.fresh], by simp [Flags.fresh], by simp [EV_READ, What.zero],
      fun _ _ => h.pipe, by simp [EV_READ, What.zero], by simp [Flags.fresh]⟩
  · rw [init_other e]
    constructor <;> simp [Event.zero]

/-- No slot of the table names an event, and the kernel watches nothing. -/
theorem init_table : Table (Machine.init n nfds ev_signal pipe now zeroed).s.mem
    (Machine.init n nfds ev_signal pipe now zeroed).s.epoll := by
  have hno : ∀ a, ((Machine.init n nfds ev_signal pipe now zeroed).s.mem a).flags.inserted = false :=
    init_flags .inserted
  have hevep : ∀ fd evep, (Machine.init n nfds ev_signal pipe now zeroed).s.epoll.evep fd = some evep →
      evep = ⟨none, none⟩ := by
    intro fd evep he
    rw [Epollop.evep] at he
    split at he
    · exact List.eq_of_mem_replicate (List.mem_of_getElem? he)
    · cases he
  constructor
  case reader =>
    intro fd evep he a
    rw [hevep fd evep he, Event.reads, hno]
    simp
  case writer =>
    intro fd evep he a
    rw [hevep fd evep he, Event.writes, hno]
    simp
  case range => exact fun a ha => absurd ((hno a).symm.trans ha) Bool.false_ne_true
  case live => exact fun a ha => absurd ((hno a).symm.trans ha) Bool.false_ne_true
  case kernel =>
    intro fd
    change none = _
    cases he : (Machine.init n nfds ev_signal pipe now zeroed).s.epoll.evep fd with
    | none => rfl
    | some evep =>
      rw [hevep fd evep he]
      rfl

theorem init_pipe : Pipe (Machine.init n nfds ev_signal pipe now zeroed).s := by
  have hsig : (Machine.init n nfds ev_signal pipe now zeroed).s.ev_signal = ev_signal := rfl
  constructor
  case init =>
    rw [hsig, init_self]
    rfl
  case events => rw [hsig, init_self]
  case live =>
    rw [hsig, init_self]
    simp [Machine.init]
  case alone =>
    intro a ha hi
    have ha : a ≠ ev_signal := ha
    rw [init_other ha] at hi
    cases hi
  case first =>
    intro _
    refine ⟨?_, fun q => init_flags q _⟩
    rw [hsig, init_self]
    rfl

end

theorem init_sound {n nfds : Nat} {pipe : Int} {now : Timeval} (h : Startable n nfds pipe now)
    (ev_signal : Addr) (zeroed : Addr → Bool) :
    Sound (Machine.init n nfds ev_signal pipe now zeroed) := by
  refine ⟨⟨init_wf h, fun a => ?_, init_table, fun l hl => ?_, fun a _ q => init_flags q a, h.clock,
    init_pipe⟩, iff_of_true rfl rfl, fun l hl => ?_⟩
  · rw [show (Machine.init n nfds ev_signal pipe now zeroed).s.epoll.fds.length = nfds from
      List.length_replicate]
    exact init_eventOk h a
  · cases hl
  · cases hl

/-- A state that orderly steps lead to. -/
def Reached (m : Machine) : Prop :=
  ∃ n nfds ev_signal pipe now zeroed es, Startable n nfds pipe now ∧
    Runs.Meets step Orderly (Machine.init n nfds ev_signal pipe now zeroed) es ∧
    Runs.run step (Machine.init n nfds ev_signal pipe now zeroed) es = some m

theorem Reached.sound {m : Machine} (h : Reached m) : Sound m := by
  obtain ⟨n, nfds, ev_signal, pipe, now, zeroed, es, hs, hC, hr⟩ := h
  obtain ⟨m', hr', hm⟩ := Runs.run_defined (fun _ _ hm ho => step_sound hm ho)
    (init_sound hs ev_signal zeroed) hC
  rw [hr] at hr'
  exact Option.some.inj hr' ▸ hm

theorem reached_init {n nfds : Nat} {ev_signal : Addr} {pipe : Int} {now : Timeval}
    {zeroed : Addr → Bool} (hs : Startable n nfds pipe now) :
    Reached (Machine.init n nfds ev_signal pipe now zeroed) :=
  ⟨n, nfds, ev_signal, pipe, now, zeroed, [], hs, trivial, rfl⟩

theorem Reached.run {m m' : Machine} {es : List Step} (h : Reached m)
    (hC : Runs.Meets step Orderly m es) (hr : Runs.run step m es = some m') : Reached m' := by
  obtain ⟨n, nfds, ev_signal, pipe, now, zeroed, es₀, hs, hC₀, hr₀⟩ := h
  exact ⟨n, nfds, ev_signal, pipe, now, zeroed, es₀ ++ es, hs, Runs.meets_append hC₀ hr₀ hC,
    by rw [Runs.run_append, hr₀]; exact hr⟩

theorem settable_unused {s : State} {a : Addr} {fd : Int} {events : What} (hz : s.mem a = .zero)
    (hl : s.locals = none) (h1 : ¬(events.io = true ∧ events.signal = true))
    (hr : events.io = true → 0 ≤ fd ∧ fd < s.epoll.fds.length)
    (hn : events.signal = true → 0 ≤ fd ∧ fd < NSIG)
    (hp : events.io = true → fd ≠ (s.mem s.ev_signal).fd) : Settable s a fd events where
  free q := by
    rw [hz]
    cases q <;> rfl
  idle := not_running hl a
  one := h1
  range := hr
  number := hn
  pipe := hp

theorem free_of_empty {s : State} {a : Addr} (hg : Good s) (he : s.qs.eventqueue = [])
    (hl : s.epoll.live (s.mem a).fd = true) : Free s a := by
  have hin : ∀ b, (s.mem b).flags.inserted = false := fun b => by
    cases h : (s.mem b).flags.inserted with
    | false => rfl
    | true => exact absurd ((hg.wf.flag .inserted b).mp h) (by simp [Queues.members, he])
  exact fun _ _ => ⟨hl, fun b _ => by simp [Event.reads, Event.writes, hin]⟩

/-- A library that was just started, with one queue of active events. The memory of the events
comes from `malloc`. -/
def Machine.fresh : Machine := .init 1 8 0 3 ⟨100, 0⟩ fun _ => false

theorem fresh_startable : Startable 1 8 3 ⟨100, 0⟩ := ⟨by decide, by decide, by decide⟩

/-- The event 1 is set for a descriptor. -/
def setSteps : List Step := [.openFd 5, .call (.set 1 5 EV_READ)]

theorem setSteps_orderly : Runs.Meets step Orderly .fresh setSteps := by
  refine Runs.meets_get rfl trivial (Runs.meets_get rfl ⟨nofun, by decide, ?_⟩ trivial)
  exact settable_unused rfl rfl (by decide) (by decide) (by decide) fun _ => by decide

/-- The event 1 waits a second for its descriptor, the event 2 for interrupts. -/
def armSteps : List Step :=
  setSteps ++ [.call (.add 1 ⟨100, 0⟩ (some ⟨1, 0⟩)),
    .call (.set 2 2 { EV_SIGNAL with persist := true }), .call (.add 2 ⟨100, 0⟩ none)]

theorem armSteps_orderly : Runs.Meets step Orderly .fresh armSteps := by
  have hr : Runs.run step .fresh setSteps = some _ :=
    (Option.some_get (by decide : (Runs.run step .fresh setSteps).isSome = true)).symm
  have hg := ((reached_init fresh_startable).run setSteps_orderly hr).sound.good
  refine Runs.meets_append setSteps_orderly hr ?_
  refine Runs.meets_get (by decide) ⟨by decide, by decide, by decide,
    by decide, by decide, by decide,
    free_of_empty hg (by decide) (by decide)⟩ ?_
  refine Runs.meets_get rfl ⟨by decide, by decide, settable_unused (by decide)
    (by decide) (by decide) (by decide) (by decide) (by decide)⟩ ?_
  exact Runs.meets_get (by decide) ⟨by decide, by decide, by decide,
    by decide, by decide, by decide,
    fun h => absurd h (by decide)⟩ trivial

def Machine.armed : Machine := (Runs.run step .fresh armSteps).get (by decide)

theorem armed_reached : Reached .armed :=
  (reached_init fresh_startable).run armSteps_orderly (Option.some_get _).symm

/-- An event that was cut short is in no queue, so that `event_del` only writes through
the pointer. -/
theorem eventDel_cut {s : State} {a : Addr} (hg : Good s) (hc : CutShort s a)
    (hi : (s.mem a).flags.init = true) :
    eventDel s a = (abortLoop s a).map fun s => (s, 0) := by
  have hf : ∀ q, (s.mem a).flags.get q = false := hg.tidy a hc
  have hin : (s.mem a).flags.inserted = false := hf .inserted
  have hsi : (s.mem a).flags.signal = false := hf .signal
  have hrest : ∀ s' : State, s'.mem = s.mem →
      ((removeIf s' a .timeout).bind fun s => (removeIf s a .active).bind fun s =>
        if (s.mem a).flags.inserted then
          (eventQueueRemove s a .inserted).bind fun s => epollDel s a
        else if (s.mem a).flags.signal then
          (eventQueueRemove s a .signal).bind fun s => epollDel s a
        else some (s, 0)) = some (s', (0 : Int)) := by
    intro s' hs'
    have h : ∀ q, removeIf s' a q = some s' := fun q => by
      rw [removeIf, hs', hf, if_neg Bool.false_ne_true]
    simp [h, hs', hin, hsi]
  rw [eventDel, State.readable, hi, Bool.true_or, Bool.not_true, if_neg Bool.false_ne_true,
    if_neg Bool.false_ne_true]
  cases h : abortLoop s a with
  | none => rfl
  | some s' =>
    refine hrest s' ?_
    rw [abortLoop] at h
    split at h
    · cases h
      rfl
    · split at h
      · cases h
        rfl
      · split at h
        · cases h
          rfl
        · cases h
      · cases h

/-- `event_del` that comes back fails just for a signal that `sigaction` does not know. -/
theorem eventDel_result {s s' : State} {a : Addr} {r : Int} (hg : Good s)
    (hi : (s.mem a).flags.init = true) (h : eventDel s a = some (s', r)) :
    r = if (s.mem a).refused then -1 else 0 := by
  by_cases hc : CutShort s a
  · rw [eventDel_cut hg hc hi] at h
    obtain ⟨s₁, -, e⟩ := Option.map_eq_some_iff.mp h
    cases e
    rw [Event.refused, show (s.mem a).flags.signal = false from hg.tidy a hc .signal]
    rfl
  · obtain ⟨s₁, s₂, h₁, -⟩ := eventDel_leaves hg hc hi
    rw [h₁] at h
    cases h
    rfl

/-- What `event_del` does to the loop that is running, after every orderly run. It ends the
calls of its own event. For an event whose calls were cut short before, it writes through
the pointer that stayed: into a dead variable, or into that of the event that runs now. -/
theorem eventDel_stale_pointer {m : Machine} (hm : Reached m) {a : Addr}
    (hi : (m.s.mem a).flags.init = true) :
    (eventDel m.s a = none ↔ CutShort m.s a ∧
      ((m.s.mem a).pncalls ≠ some m.s.activation ∨ m.s.locals = none)) ∧
    ∀ s' r, eventDel m.s a = some (s', r) →
      (r = if (m.s.mem a).refused then -1 else 0) ∧
      (¬CutShort m.s a → s'.locals = m.s.locals.map (Locals.stop a)) ∧
      (CutShort m.s a → s'.locals = m.s.locals.map fun l => { l with ncalls := 0 }) := by
  have hg := hm.sound.good
  by_cases hc : CutShort m.s a
  · have hcut := eventDel_cut hg hc hi
    obtain ⟨h₁, h₂, -⟩ := id hc
    obtain ⟨k, hk⟩ := Option.ne_none_iff_exists'.mp h₂
    rw [abortLoop, if_neg h₁, hk] at hcut
    cases hl : m.s.locals with
    | none =>
      simp only [hl, Option.map_none] at hcut
      exact ⟨iff_of_true hcut ⟨hc, .inr rfl⟩, fun s' r h => by rw [hcut] at h; cases h⟩
    | some l =>
      simp only [hl] at hcut
      split at hcut
      next e =>
        refine ⟨iff_of_false (by simp [hcut]) ?_, fun s' r h => ⟨eventDel_result hg hi h, ?_⟩⟩
        · rintro ⟨-, h | h⟩
          · exact h (by rw [hk, e])
          · cases h
        · rw [hcut] at h
          cases h
          exact ⟨fun h => absurd hc h, fun _ => rfl⟩
      next e =>
        refine ⟨iff_of_true hcut ⟨hc, .inl ?_⟩, fun s' r h => by rw [hcut] at h; cases h⟩
        rw [hk]
        exact fun h => e (Option.some.inj h)
  · obtain ⟨s₁, s', h, u, -, -, hl, -⟩ := eventDel_leaves hg hc hi
    refine ⟨iff_of_false (by simp [h]) fun h' => hc h'.1, fun s'' r h' => ?_⟩
    rw [h] at h'
    cases h'
    exact ⟨rfl, fun _ => hl.trans u.locals, fun h => absurd h hc⟩

/-- Three events wait to be called, the first of them twice. -/
def busySteps : List Step :=
  [.call (.set 1 (-1) .zero), .call (.set 2 (-1) .zero), .call (.set 3 (-1) .zero),
    .call (.active 1 EV_TIMEOUT 2), .call (.active 2 EV_TIMEOUT 1), .call (.active 3 EV_TIMEOUT 1),
    .turn ⟨100, 0⟩ ⟨100, 0⟩ [] (.ready [])]

theorem busySteps_orderly : Runs.Meets step Orderly .fresh busySteps := by
  have hset : ∀ (s : State) (a : Addr), s.mem a = .zero → s.locals = none →
      Settable s a (-1) .zero := fun s a hz hl =>
    settable_unused hz hl (by decide) nofun nofun nofun
  refine Runs.meets_get rfl ⟨nofun, by decide, hset _ _ rfl rfl⟩ ?_
  refine Runs.meets_get rfl ⟨nofun, by decide, hset _ _ rfl rfl⟩ ?_
  refine Runs.meets_get rfl ⟨nofun, by decide, hset _ _ rfl rfl⟩ ?_
  refine Runs.meets_get (by decide) ⟨nofun, by decide, rfl, not_running rfl 1⟩ ?_
  refine Runs.meets_get (by decide) ⟨by decide, by decide, by decide,
    not_running (by decide) 2⟩ ?_
  refine Runs.meets_get (by decide) ⟨by decide, by decide, by decide,
    not_running (by decide) 3⟩ ?_
  exact Runs.meets_get (by decide) ⟨by decide, by decide, nofun, nofun⟩ trivial

def Machine.busy : Machine := (Runs.run step .fresh busySteps).get (by decide)

theorem busy_reached : Reached .busy :=
  (reached_init fresh_startable).run busySteps_orderly (Option.some_get _).symm

/-- The event 1 deletes itself in its callback, with a call left, and the loop goes on. -/
def cutSteps : List Step := [.invoke, .call (.del 1), .ret, .next]

theorem cutSteps_orderly : Runs.Meets step Orderly .busy cutSteps := by
  refine Runs.meets_get (by decide) ⟨by decide, by decide⟩ ?_
  refine Runs.meets_get (by decide) ⟨by decide, by decide,
    by decide⟩ ?_
  refine Runs.meets_get (by decide) (by decide : _ = Phase.callback) ?_
  exact Runs.meets_get (by decide) ⟨by decide, by decide⟩ trivial

def Machine.cut : Machine := (Runs.run step .busy cutSteps).get (by decide)

theorem cut_reached : Reached .cut := busy_reached.run cutSteps_orderly (Option.some_get _).symm

/-- A second deletion ends the calls of the event 2, which now runs. -/
theorem eventDel_stale_pointer_cut :
    ∃ s', eventDel Machine.cut.s 1 = some (s', 0) ∧ s'.locals = some ⟨0, 2, 0⟩ := by
  obtain ⟨hnone, hsome⟩ := eventDel_stale_pointer (a := 1) cut_reached (by decide)
  have hcut : CutShort Machine.cut.s 1 := by decide
  cases h : eventDel Machine.cut.s 1 with
  | none =>
    rcases (hnone.mp h).2 with h' | h'
    · exact absurd (by decide) h'
    · exact absurd h' (by decide)
  | some r =>
    obtain ⟨h₀, -, h₂⟩ := hsome r.1 r.2 h
    have hz : r.2 = 0 := h₀.trans (by decide)
    exact ⟨r.1, by rw [← hz], (h₂ hcut).trans (by decide)⟩

/-- After every orderly run `event_add` of any event fails just where it asks the kernel to watch
a descriptor that is not open, and `event_del`, if it comes back, just for a signal that
`sigaction` does not know: `epoll_ctl` refuses nothing else that they choose. -/
theorem calls_fail_iff {m : Machine} (hm : Reached m) {a : Addr}
    (hi : (m.s.mem a).flags.init = true) :
    (∀ now tv, now.Valid → (∀ t ∈ tv, t.Delay) → ∃ s' r, eventAdd m.s a now tv = some (s', r) ∧
      (r = 0 ∨ r = -1) ∧ (r = -1 ↔
        (m.s.mem a).enters tv = true ∧ m.s.epoll.live (m.s.mem a).fd = false)) ∧
    ∀ s' r, eventDel m.s a = some (s', r) → (r = 0 ∨ r = -1) ∧
      (r = -1 ↔ (m.s.mem a).flags.signal = true ∧ known (m.s.mem a).fd = false) := by
  have hg := hm.sound.good
  have hcases : ∀ b : Bool, ((if b then -1 else 0 : Int) = 0 ∨ (if b then -1 else 0 : Int) = -1) ∧
      ((if b then -1 else 0 : Int) = -1 ↔ b = true) := by
    decide
  refine ⟨fun now tv hnow htv => ?_, fun s' r h => ?_⟩
  · obtain ⟨s', h⟩ := eventAdd_result (evsignalRecalc addEvSignal) hg hi hnow htv
    obtain ⟨h₁, h₂⟩ := hcases ((m.s.mem a).enters tv && !m.s.epoll.live (m.s.mem a).fd)
    refine ⟨s', _, h, h₁, h₂.trans ?_⟩
    rw [Bool.and_eq_true, Bool.not_eq_true']
  · obtain ⟨h₁, h₂⟩ := hcases (m.s.mem a).refused
    rw [eventDel_result hg hi h]
    refine ⟨h₁, h₂.trans ?_⟩
    rw [Event.refused, Bool.and_eq_true, Bool.not_eq_true']

/-- The event 1 waits for its descriptor already. -/
theorem calls_fail_iff_armed :
    (∃ s', eventAdd Machine.armed.s 1 ⟨100, 0⟩ none = some (s', 0)) ∧
      ∀ s' r, eventDel Machine.armed.s 1 = some (s', r) → r = 0 := by
  obtain ⟨hadd, hdel⟩ := calls_fail_iff (a := 1) armed_reached (by decide)
  obtain ⟨s', r, h, h₀, hr⟩ := hadd ⟨100, 0⟩ none (by decide) (by decide)
  have hz : r = 0 := h₀.resolve_right fun h' => absurd (hr.mp h').1 (by decide)
  refine ⟨⟨s', by rw [h, hz]⟩, fun s₁ r₁ h₁ => ?_⟩
  obtain ⟨h₂, h₃⟩ := hdel s₁ r₁ h₁
  exact h₂.resolve_right fun h' => absurd (h₃.mp h').1 (by decide)

theorem active_of_pass {p : Pass} {ev : Event} :
    (p.apply ev).flags.active = true ↔ ev.flags.active = true ∨ p.activates ev := by
  rcases apply_cases p ev with ⟨h, ha⟩ | ⟨h, he⟩
  · exact iff_of_true ha (.inr h)
  · rw [he, (corrected_alike p.off ev).1]
    simp [h]

/-- A turn of the loop that comes to its end makes just those events active of which a
signal was handed on, which wait for a descriptor that was reported, or whose corrected
time has come. Every other event is as before, but for the correction of its time. A
turn ends early where an added signal has no handler. -/
theorem turn_activates {m : Machine} {now later : Timeval} {signals : List Nat} {w : Wait}
    (hm : Reached m) (ho : Orderly m (.turn now later signals w)) :
    ∃ s t counts, turn m.s now later signals w = some (s, t) ∧
      Gathered signals counts m.s.sig.evsigcaught s.sig.evsigcaught ∧
      (¬AllHandled m.s → t = .failed) ∧
      (t = .turned → ∀ a, a ≠ m.s.ev_signal →
        ((s.mem a).flags.active = true ↔ (m.s.mem a).flags.active = true ∨
          (Pass.mk (wentBack m.s now) counts w.reports (some later)).activates (m.s.mem a)) ∧
        (¬(Pass.mk (wentBack m.s now) counts w.reports (some later)).activates (m.s.mem a) →
          s.mem a = (wentBack m.s now).elim (m.s.mem a) fun off => (m.s.mem a).corrected off)) ∧
      (t ≠ .turned → ∀ a, a ≠ m.s.ev_signal → (s.mem a).flags = (m.s.mem a).flags) := by
  obtain ⟨s, t, p, ht, hof, hc, hp, hall⟩ := turn_step_spec hm.sound ho
  refine ⟨s, t, p.counts, ht, counted_gathered hc, hall, fun e a ha => ?_, fun e a ha => ?_⟩
  · rw [Pass.Of, if_pos e] at hof
    obtain ⟨h₁, h₂, h₃⟩ := hof
    have hpe : Pass.mk (wentBack m.s now) p.counts w.reports (some later) = p := by
      rw [← h₁, ← h₂, ← h₃]
    rw [hpe, ← h₁, hp.mem a ha]
    refine ⟨active_of_pass, fun hno => ?_⟩
    rcases apply_cases p (m.s.mem a) with ⟨h, -⟩ | ⟨-, h⟩
    · exact absurd h hno
    · exact h
  · rw [Pass.Of, if_neg e] at hof
    obtain ⟨h₁, h₂, h₃⟩ := hof
    rw [hp.mem a ha, Pass.apply]
    simp only [h₁, h₂, h₃, Option.elim_none, List.foldl_nil]
    exact (corrected_alike p.off _).1

/-- The first turn, in which the descriptor of the socket pair is reported as well. -/
theorem turn_activates_armed :
    ∃ s t, turn Machine.armed.s ⟨100, 500000⟩ ⟨100, 600000⟩ [2]
        (.ready [⟨0, 5, true, false, false, false⟩, ⟨0, 3, true, false, false, false⟩]) =
          some (s, t) ∧
      (t = .turned → (s.mem 1).flags.active = true) := by
  have ho : Orderly .armed (.turn ⟨100, 500000⟩ ⟨100, 600000⟩ [2]
      (.ready [⟨0, 5, true, false, false, false⟩, ⟨0, 3, true, false, false, false⟩])) := by
    refine ⟨by decide, by decide, by decide, fun r hr => ?_⟩
    have hwatch : ∀ fd ∈ [(3 : Int), 5],
        Machine.armed.s.recalced.epoll.interest fd = some ⟨⟨true, false⟩, 0, fd.toNat⟩ := by decide
    rcases List.mem_pair.mp hr with rfl | rfl
    · exact ⟨5, _, hwatch 5 (by decide), rfl, rfl⟩
    · exact ⟨3, _, hwatch 3 (by decide), rfl, rfl⟩
  obtain ⟨s, t, counts, h, -, -, hturned, -⟩ := turn_activates armed_reached ho
  refine ⟨s, t, h, fun e => ((hturned e) 1 (by decide)).1.mpr (.inr (.inr (.inl ?_)))⟩
  exact ⟨_, .head _, by decide⟩

/-! ### Timers -/

/-- When the clock goes back, `timeout_correct` makes every timer wait as long as before, and
keeps the tree as it is, in order. -/
theorem clock_jump_keeps_waits {m : Machine} {now : Timeval} (hm : Reached m)
    (hnow : now.Valid) :
    ∃ s, timeoutCorrect m.s (m.s.event_tv.sub now) = some s ∧ s.qs = m.s.qs ∧
      Good { s with event_tv := now } ∧
      (∀ a, (m.s.mem a).flags.timeout = true → (s.mem a).timeout.Valid ∧
        (s.mem a).timeout.micros - now.micros =
          (m.s.mem a).timeout.micros - m.s.event_tv.micros) ∧
      ∀ a, s.mem a = { m.s.mem a with timeout := (s.mem a).timeout } := by
  have hg := hm.sound.good
  have hoff := hg.clock.sub hnow
  obtain ⟨mem, h, hmem, hgm⟩ := timeoutCorrect_spec hg hoff
  refine ⟨_, h, rfl, hgm.clock_set hnow, fun a ha => ?_, fun a => ?_⟩
  · have hv := hg.wf.valid a (hg.timer.mp ha)
    have ht : (mem a).timeout = (m.s.mem a).timeout.sub (m.s.event_tv.sub now) := by
      rw [hmem, Event.corrected, if_pos ha]
      rfl
    simp only [ht]
    refine ⟨hv.sub hoff, ?_⟩
    rw [Timeval.micros_sub, Timeval.micros_sub]
    omega
  · simp only [hmem]
    exact Event.corrected_timeout _ _

theorem clock_jump_keeps_waits_armed :
    ∃ s, timeoutCorrect Machine.armed.s (Machine.armed.s.event_tv.sub ⟨40, 0⟩) = some s ∧
      (s.mem 1).timeout.micros - 40000000 = 1000000 := by
  obtain ⟨s, h, -, -, ht, -⟩ := clock_jump_keeps_waits armed_reached
    (by decide : Timeval.Valid ⟨40, 0⟩)
  refine ⟨s, h, ((ht 1 (by decide)).2).trans (by decide)⟩

/-- Outside of the callbacks `timeout_process` moves the events that are due to the ends of
their active queues, in the order of their times, and leaves the others in the tree. -/
theorem due_timers_fire {m : Machine} (hm : Reached m) (hout : m.phase = .out) (now : Timeval) :
    ∃ s', timeoutProcess m.s now = some s' ∧ Expired m.s now s' :=
  timeoutProcess_spec hm.sound.good (hm.sound.phase.mp hout) now

theorem due_timers_fire_armed :
    ∃ s', timeoutProcess Machine.armed.s ⟨102, 0⟩ = some s' ∧ s'.qs.line .active 0 = [1] := by
  obtain ⟨s', h, e⟩ := due_timers_fire armed_reached (by decide) ⟨102, 0⟩
  exact ⟨s', h, (e.line 0).trans (by decide)⟩

/-- When the first timer is at most 2^31 - 1 milliseconds away, the time that is given to
`epoll_wait` is enough for it: at its end a timer is due, and a millisecond before it
none is. -/
theorem wait_covers_first_timer {m : Machine} {now : Timeval} (hm : Reached m) (hnow : now.Valid)
    (ht : m.s.qs.timetree.toList ≠ []) (hs : (timeoutNext m.s now).micros ≤ 2147483647000)
    {t : Timeval} (hv : t.Valid) :
    (now.micros + 1000 * epollTimeout (timeoutNext m.s now) ≤ t.micros → due m.s t ≠ []) ∧
      (now.micros ≤ t.micros →
        t.micros + 1000 ≤ now.micros + 1000 * epollTimeout (timeoutNext m.s now) →
        due m.s t = []) := by
  have hg := hm.sound.good
  have hd := timeoutNext_delay hg hnow
  obtain ⟨hfirst, hnone⟩ := timeoutNext_first_due hg hnow ht
  obtain ⟨h₁, h₂⟩ := epollTimeout_spec hd hs
  have hend := hnow.add hd
  have hm' := Timeval.micros_add now (timeoutNext m.s now)
  refine ⟨fun hle => ?_, fun hle hlt => hnone t ?_ ?_⟩
  · obtain ⟨a, ha⟩ := List.exists_mem_of_ne_nil _ hfirst
    obtain ⟨hin, hdue⟩ := List.mem_filter.mp ha
    refine List.ne_nil_of_mem (List.mem_filter.mpr ⟨hin, ?_⟩)
    have hva := hg.wf.valid a hin
    rw [Bool.not_eq_true', Bool.eq_false_iff, ne_eq, Timeval.lt_iff_micros hend hva] at hdue
    rw [Bool.not_eq_true', Bool.eq_false_iff, ne_eq, Timeval.lt_iff_micros hv hva]
    omega
  · rw [Bool.eq_false_iff, ne_eq, Timeval.lt_iff_micros hv hnow]
    omega
  · rw [Timeval.lt_iff_micros hv hend]
    omega

theorem wait_covers_first_timer_armed : due Machine.armed.s ⟨101, 0⟩ ≠ [] :=
  (wait_covers_first_timer (t := ⟨101, 0⟩) armed_reached (by decide : Timeval.Valid ⟨100, 400000⟩)
    (by decide) (by decide) (by decide)).1 (by decide)

/-! ### The table of descriptors -/

/-- Before its event is added nothing watches the socket pair. -/
theorem Good.pipe_unwatched {s : State} (hg : Good s) (h : s.sig.ev_signal_added = false) :
    s.epoll.interest (s.mem s.ev_signal).fd = none := by
  refine hg.table.unwatched fun b hb => ?_
  by_cases e : b = s.ev_signal
  · have hno : (s.mem b).flags.inserted = false := e ▸ (hg.pipe.first h).2 .inserted
    exact absurd (hno.symm.trans hb) nofun
  · exact hg.pipe.alone b e (hg.eventOk .inserted hb) ((hg.ok b).io hb)

/-- A state in which `event_add` comes to `epoll_add`, after `event_set`: it is the one before
`event_set` but for this event and the queues. -/
structure Entering (s : State) (a : Addr) (fd : Int) (events : What) (s₁ : State) : Prop where
  wf : Wf s₁.mem s₁.qs
  epoll : s₁.epoll = s.epoll
  sig : s₁.sig = s.sig
  ev_signal : s₁.ev_signal = s.ev_signal
  other : ∀ x, x ≠ a → s₁.mem x = s.mem x
  fd : (s₁.mem a).fd = fd
  events : (s₁.mem a).events = events
  init : (s₁.mem a).flags.init = true
  inserted : (s₁.mem a).flags.inserted = true
  signal : (s₁.mem a).flags.signal = false

/-- `event_add` of an event that was just set comes to `epoll_add`. -/
theorem eventAdd_of_set {s : State} {a : Addr} (hw : Wf s.mem s.qs)
    (hq : ∀ q, (s.mem a).flags.get q = false) (fd : Int) {events : What} (hio : events.io = true)
    {now : Timeval} {tv : Option Timeval} (hnow : now.Valid) (htv : ∀ t ∈ tv, t.Delay) :
    ∃ s₁, eventAdd (eventSet s a fd events) a now tv =
        epollAdd (evsignalRecalc addEvSignal) s₁ a ∧ Entering s a fd events s₁ := by
  have hmem : (eventSet s a fd events).mem a = (s.mem a).reset fd events
      (s.qs.activequeues.length / 2) := set_self ..
  have hother : ∀ x, x ≠ a → (eventSet s a fd events).mem x = s.mem x := fun x e => set_ne e _
  obtain ⟨s₁, h₁, t⟩ := addTimeout_spec (hw.eventSet hq fd events) (by rw [hmem]; nofun)
    (by rw [hmem]; rfl) hnow htv
  have hk := t.self ▸ keeps_timed ((eventSet s a fd events).mem a) now tv
  have hget := t.self ▸ timed_get ((eventSet s a fd events).mem a) now tv
  rw [hmem] at hk hget
  have hact : (s₁.mem a).flags.active = false :=
    Bool.eq_false_iff.mpr fun h => by cases hk.active h
  obtain ⟨s₂, h₂, l₂⟩ := eventQueueInsert_spec a .inserted t.wf hget.1 hk.init fun h => by cases h
  have hself : s₂.mem a = { s₁.mem a with flags := (s₁.mem a).flags.set .inserted true } := by
    rw [l₂.mem, flag_apply, if_pos rfl]
  refine ⟨s₂, ?_, l₂.wf, ?_, ?_, ?_, fun x e => ?_, ?_, ?_, ?_, ?_, ?_⟩
  · have hin : (s₁.mem a).flags.inserted = false := hget.1
    have hev : (s₁.mem a).events = events := hk.events
    simp only [eventAdd, eventAddWith, hmem, Event.reset, Flags.fresh, Bool.not_true,
      Bool.false_eq_true, if_false, h₁, Option.bind_some, hev, hio, hin, hact, Bool.or_false,
      Bool.not_false, Bool.and_self, if_true, h₂]
  · rw [l₂.only, t.epoll]
    rfl
  · rw [l₂.only, t.only]
    rfl
  · rw [l₂.only, t.only]
    rfl
  · rw [l₂.mem, flag_other e, t.other e, hother x e]
  · rw [hself]
    exact hk.fd
  · rw [hself]
    exact hk.events
  · rw [hself]
    exact hk.init
  · rw [hself]
    rfl
  · rw [hself]
    exact hget.2

namespace Entering

variable {s s₁ : State} {a : Addr} {fd : Int} {events : What}

/-- The signals that were added are those of before. -/
theorem allHandled (h : Entering s a fd events s₁) (hg : Good s)
    (hq : ∀ q, (s.mem a).flags.get q = false) : AllHandled s₁ ↔ AllHandled s := by
  refine allHandled_congr hg.wf h.wf fun b => ?_
  by_cases e : b = a
  · have h' : (s.mem a).flags.signal = false := hq .signal
    rw [e, h.signal, h']
    exact ⟨rfl, nofun⟩
  · rw [h.other b e]
    exact ⟨rfl, fun _ => rfl⟩

/-- The event of the socket pair can be added while the table grows, whether or not it is the
event that was set. -/
theorem addable (h : Entering s a fd events s₁) (hg : Good s) (hs : events.signal = false) (n : Nat) :
    Addable { s₁ with epoll := s₁.epoll.extend n } := by
  have hlen : s.epoll.fds.length ≤ (s₁.epoll.extend n).fds.length := by
    rw [h.epoll, length_extend]
    split <;> omega
  have hr := (hg.ok s.ev_signal).range hg.pipe.init (by rw [hg.pipe.events]; rfl)
  by_cases e : s.ev_signal = a
  · have e₁ : s₁.ev_signal = a := h.ev_signal.trans e
    refine ⟨h.wf, ?_, ?_, fun hni => ?_⟩
    · simp only [e₁]
      exact h.init
    · simp only [e₁, h.events]
      exact hs
    · simp only [e₁] at hni
      exact absurd (h.inserted.symm.trans hni) nofun
  · have e₁ : s₁.mem s₁.ev_signal = s.mem s.ev_signal := by
      rw [h.ev_signal, h.other _ e]
    refine ⟨h.wf, ?_, ?_, fun _ => ?_⟩
    · simp only [e₁]
      exact hg.pipe.init
    · simp only [e₁, hg.pipe.events]
      rfl
    · simp only [e₁]
      exact ⟨hr.1, hr.2.trans_le (by exact_mod_cast hlen)⟩

end Entering

/-- `event_add` uses an element beyond the end of the table for the descriptor whose number
is the size of the table, which is the last one that a process may open, and for the
doubles of it, if all added signals have handlers: else it fails before. For the other
descriptors, larger ones too, it does not. -/
theorem event_add_out_of_range_iff {m : Machine} {a : Addr} {fd : Int} {events : What}
    {now : Timeval} {tv : Option Timeval} (hm : Reached m)
    (hq : ∀ q, (m.s.mem a).flags.get q = false) (hio : events.io = true)
    (hs : events.signal = false) (h0 : 0 ≤ fd) (hnow : now.Valid) (htv : ∀ t ∈ tv, t.Delay) :
    eventAdd (eventSet m.s a fd events) a now tv = none ↔
      AllHandled m.s ∧ ∃ k, fd = m.s.epoll.fds.length * 2 ^ k := by
  have hg := hm.sound.good
  obtain ⟨s₁, h, e⟩ := eventAdd_of_set hg.wf hq fd hio hnow htv
  have hr := (hg.ok m.s.ev_signal).range hg.pipe.init (by rw [hg.pipe.events]; rfl)
  obtain ⟨s', res, hrec, hlen, -, -, hres⟩ := evsignalRecalc_entry fun _ =>
    e.addable hg hs (s₁.mem a).fd.toNat
  rw [h, epollAdd_out_of_range_iff (by rw [e.events, hs]) (by rw [e.fd]; exact h0)
    (by rw [e.epoll]; omega) hrec hlen, e.fd, e.epoll, ← e.allHandled hg hq, ne_eq, hres]
  simp [AllHandled]

/-- Before the first turn, with a timeout. -/
theorem event_add_out_of_range_iff_fresh :
    eventAdd (eventSet Machine.fresh.s 4 16 EV_READ) 4 ⟨100, 0⟩ (some ⟨1, 0⟩) = none :=
  (event_add_out_of_range_iff (m := .fresh) (reached_init fresh_startable)
    (fun q => by cases q <;> rfl) rfl rfl (by decide) (by decide) (by decide)).mpr
    ⟨by decide, 1, by decide⟩

/-- When `event_add` makes the table longer, the pointers that the kernel has of all other
descriptors are dead: the next report of any of them makes `epoll_dispatch` use one. -/
theorem growth_leaves_dead_pointers {m : Machine} {a : Addr} {fd : Int} {events : What} {s' : State}
    {now : Timeval} {tv : Option Timeval} {z : Int} (hm : Reached m)
    (hq : ∀ q, (m.s.mem a).flags.get q = false) (hio : events.io = true)
    (hs : events.signal = false) (hgt : m.s.epoll.fds.length < fd) (hnow : now.Valid)
    (htv : ∀ t ∈ tv, t.Delay)
    (h : eventAdd (eventSet m.s a fd events) a now tv = some (s', z)) {r : Report}
    (hr : Reported m.s.epoll r) : Reported s'.epoll r ∧ dispatchOne s' r = none := by
  have hg := hm.sound.good
  obtain ⟨s₁, h₁, e⟩ := eventAdd_of_set hg.wf hq fd hio hnow htv
  obtain ⟨s₂, res, hrec, -, hv₂, hi₂, -⟩ := evsignalRecalc_entry fun _ =>
    e.addable hg hs (s₁.mem a).fd.toNat
  rw [h₁] at h
  obtain ⟨hv, hi⟩ := epollAdd_growth (by rw [e.events, hs]) (by rw [e.epoll, e.fd]; exact hgt)
    hrec hv₂ h
  have hrv := (hg.table.reported hr).1
  obtain ⟨x, i, hx, hrep⟩ := id hr
  have hxr : x ≠ fd := fun e => by
    rw [hg.table.kernel] at hx
    obtain ⟨evep, hevep, -⟩ := Option.bind_eq_some_iff.mp hx
    have := range_of_evep hevep
    omega
  have hpipe : s₁.sig.ev_signal_added = false → x ≠ (s₁.mem s₁.ev_signal).fd := fun hno hxe => by
    rw [e.ev_signal] at hxe
    by_cases ea : m.s.ev_signal = a
    · rw [ea, e.fd] at hxe
      exact hxr hxe
    · rw [e.other _ ea] at hxe
      rw [hxe, hg.pipe_unwatched (e.sig ▸ hno)] at hx
      cases hx
  have hkeep : s'.epoll.interest x = some i := by
    rw [hi x (by rw [e.fd]; exact hxr), hi₂ x hpipe, interest_extend, e.epoll, hx]
  refine ⟨⟨x, i, hkeep, hrep⟩, ?_⟩
  rw [dispatchOne, if_pos (by rw [hv, hrv, e.epoll]; omega)]

/-- The descriptor 20 is open. -/
def Machine.opened : Machine := ⟨{ Machine.busy.s with epoll := Machine.busy.s.epoll.openFd 20 }, .active⟩

theorem opened_reached : Reached .opened := by
  have hC : Runs.Meets step Orderly .busy [.openFd 20] := Runs.meets_get rfl trivial trivial
  refine busy_reached.run hC ?_
  rw [Runs.run, step, Option.bind_some, show Machine.busy.phase = .active by decide]
  rfl

theorem growth_leaves_dead_pointers_opened :
    ∃ s', eventAdd (eventSet Machine.opened.s 4 20 EV_READ) 4 ⟨100, 0⟩ none = some (s', 0) ∧
      dispatchOne s' ⟨0, 3, true, false, false, false⟩ = none := by
  have h : eventAdd (eventSet Machine.opened.s 4 20 EV_READ) 4 ⟨100, 0⟩ none = some _ :=
    (Option.some_get (by decide)).symm
  have hz : ((eventAdd (eventSet Machine.opened.s 4 20 EV_READ) 4 ⟨100, 0⟩ none).get
      (by decide)).2 = 0 := by decide
  refine ⟨_, h.trans (congrArg some (Prod.ext rfl hz)), ?_⟩
  exact (growth_leaves_dead_pointers opened_reached (fun q => by cases q <;> decide) rfl rfl
    (by decide) (by decide) (by decide) h ⟨3, ⟨⟨true, false⟩, 0, 3⟩, by decide, rfl, rfl⟩).2

end FilesEvent.Net
