import FilesEvent.Net.Reached

/-! When callbacks are called, over every orderly run: never after `event_del`, once for
each `event_add` of an event that is not persistent, once for each signal that was
caught, and in the order in which the events became active. -/

namespace FilesEvent.Net
open What

/-- The callback of `a` is called in the step. -/
def calls (a : Addr) (m : Machine) (st : Step) : Nat := (m.s.view a).calls st

/-! ### Deletion -/

theorem quiet_step {m m' : Machine} {st : Step} {a : Addr}
    (hI : Sound m ∧ a ≠ m.s.ev_signal ∧ Quiet (m.s.view a)) (hC : Orderly m st ∧ ¬st.asks a)
    (h : step m st = some m') : Sound m' ∧ a ≠ m'.s.ev_signal ∧ Quiet (m'.s.view a) := by
  obtain ⟨hm, ha, hq⟩ := hI
  have d := stepped hm hC.1 h
  exact ⟨d.sound, by rw [d.ev_signal]; exact ha, (d.acted a ha).quiet hq hC.2⟩

/-- After `event_del` the callback is not called, in whatever way the run goes on, until the
event is added or made active again. This holds also when the event was active, and
when it is deleted in its own callback with calls left. -/
theorem deleted_not_called {m m₁ : Machine} {a : Addr} {es : List Step} (hm : Reached m)
    (hi : (m.s.mem a).flags.init = true) (hd : Orderly m (.call (.del a)))
    (h₁ : step m (.call (.del a)) = some m₁)
    (hC : Runs.Meets step (fun m st => Orderly m st ∧ ¬st.asks a) m₁ es) :
    Runs.Meets step (fun m st => calls a m st = 0) m₁ es := by
  have ha : a ≠ m.s.ev_signal := hd.2.1
  have d := stepped hm.sound hd h₁
  have hquiet : Quiet (m₁.s.view a) := by
    obtain ⟨s', h, e⟩ := eventDel_spec hm.sound.good hd.2.2.2 hi fun e => absurd e ha
    rw [step, if_neg hd.1, Call.apply, h] at h₁
    obtain rfl := Option.some.inj h₁
    refine ⟨fun q => ?_, ?_⟩
    · simp only [State.view, e.apply]
      exact Flags.get_off _ q
    · exact (left_stop e.locals a).trans (if_pos rfl)
  refine Runs.meets_of_invariant (fun _ _ _ => quiet_step) (fun m st hI _ => ?_)
    ⟨d.sound, by rw [d.ev_signal]; exact ha, hquiet⟩ hC
  cases st with
  | invoke => exact if_pos hI.2.2.left
  | _ => rfl

/-- The event 1 deletes itself in its callback, with a call left. -/
def Machine.inCallback : Machine := (Runs.run step .busy [.invoke]).get (by decide)

theorem inCallback_reached : Reached .inCallback := by
  have hC : Runs.Meets step Orderly .busy [.invoke] :=
    Runs.meets_get (by decide) ⟨by decide, by decide⟩ trivial
  exact busy_reached.run hC (Option.some_get _).symm

theorem deleted_not_called_inCallback :
    ∃ m₁, step .inCallback (.call (.del 1)) = some m₁ ∧
      Runs.Meets step (fun m st => calls 1 m st = 0) m₁ [.ret, .next, .invoke] := by
  have hd : Orderly .inCallback (.call (.del 1)) :=
    ⟨by decide, by decide, by decide⟩
  have h₁ : step .inCallback (.call (.del 1)) =
      some ((step .inCallback (.call (.del 1))).get (by decide)) := (Option.some_get _).symm
  refine ⟨_, h₁, deleted_not_called inCallback_reached (by decide) hd h₁ ?_⟩
  refine Runs.meets_get (by decide) ⟨(by decide : _ = Phase.callback), nofun⟩ ?_
  refine Runs.meets_get (by decide) ⟨⟨by decide, by decide⟩, nofun⟩ ?_
  exact Runs.meets_get (by decide) ⟨⟨by decide, by decide⟩, nofun⟩ trivial

/-! ### One call for each addition -/

theorem due_step {m m' : Machine} {st : Step} {a : Addr}
    (hI : Sound m ∧ a ≠ m.s.ev_signal ∧ Once (m.s.view a)) (hC : Orderly m st ∧ st.oneShot a)
    (h : step m st = some m') :
    (Sound m' ∧ a ≠ m'.s.ev_signal ∧ Once (m'.s.view a)) ∧
      (m'.s.view a).due + calls a m st ≤ (m.s.view a).due + st.requests a := by
  obtain ⟨hm, ha, ho⟩ := hI
  have d := stepped hm hC.1 h
  obtain ⟨ho', hle⟩ := (d.acted a ha).due ho hC.2
  exact ⟨⟨d.sound, by rw [d.ev_signal]; exact ha, ho'⟩, hle⟩

/-- The event whose calls the loop is making is not active again. -/
theorem Good.not_active {s : State} (hg : Good s) {a : Addr} (hl : s.left a ≠ 0) :
    (s.mem a).flags.active = false := by
  by_contra h
  refine hl (left_of_idle ?_)
  rintro ⟨l, hlo, rfl, hn⟩
  have hp := (hg.running l hlo hn).2
  rw [(hg.ok l.ev).pncalls (by simpa using h)] at hp
  cases hp

/-- The callback of an event that is neither persistent nor for a signal is called at most once for
each time that the event is added, and as often as `event_active` asks for, whatever is
ready, caught or due. What is due at the end has not been called yet. -/
theorem called_once_per_add {m m' : Machine} {a : Addr} {es : List Step} (hm : Reached m)
    (ha : a ≠ m.s.ev_signal) (hp : (m.s.mem a).events.persist = false)
    (hs : (m.s.mem a).events.signal = false)
    (hC : Runs.Meets step (fun m st => Orderly m st ∧ st.oneShot a) m es)
    (hr : Runs.run step m es = some m') :
    (m'.s.view a).due + Runs.tally step (calls a) m es ≤
      (m.s.view a).due + Runs.tally step (fun _ => Step.requests a) m es := by
  have hg := hm.sound.good
  have hsi : (m.s.mem a).flags.signal = false := Bool.eq_false_iff.mpr fun h =>
    absurd (hs.symm.trans ((hg.ok a).signal h)) nofun
  have ho : Once (m.s.view a) := ⟨⟨hp, hsi⟩, hs, hg.not_active⟩
  exact Runs.tally_le (fun m st m' => @due_step m m' st a) ⟨hm.sound, ha, ho⟩ hC hr

/-- A timer that is added once, and the turn in which it is due. -/
def timerSteps : List Step :=
  [.call (.set 1 (-1) .zero), .call (.add 1 ⟨100, 0⟩ (some ⟨1, 0⟩)),
    .turn ⟨102, 0⟩ ⟨102, 0⟩ [] (.ready []), .invoke]

theorem timerSteps_orderly :
    Runs.Meets step (fun m st => Orderly m st ∧ st.oneShot 1) .fresh timerSteps := by
  refine Runs.meets_get rfl ⟨⟨nofun, by decide, settable_unused rfl rfl (by decide) nofun nofun
    nofun⟩, fun _ => ⟨rfl, rfl⟩⟩ ?_
  refine Runs.meets_get (by decide) ⟨⟨by decide, by decide, by decide,
    by decide, by decide, by decide, fun h => absurd h (by decide)⟩, trivial⟩ ?_
  refine Runs.meets_get (by decide) ⟨⟨by decide, by decide, nofun, nofun⟩, trivial⟩ ?_
  exact Runs.meets_get (by decide) ⟨⟨by decide, by decide⟩, trivial⟩ trivial

theorem called_once_per_add_timer :
    Runs.tally step (calls 1) .fresh timerSteps ≤
      Runs.tally step (fun _ => Step.requests 1) .fresh timerSteps := by
  have h := called_once_per_add (m := .fresh) (a := 1) (reached_init fresh_startable) (by decide)
    rfl rfl timerSteps_orderly
    (Option.some_get (by decide : (Runs.run step .fresh timerSteps).isSome = true)).symm
  have h₀ : (Machine.fresh.s.view 1).due = 0 := by decide
  exact Nat.le_of_add_left_le (h.trans_eq (by rw [h₀, Nat.zero_add]))

/-! ### One call for each signal -/

/-- The event is not active when the loop comes to its top. -/
structure Drained (sig : Nat) (a : Addr) (m : Machine) : Prop where
  sound : Sound m
  other : a ≠ m.s.ev_signal
  queues : m.s.qs.activequeues.length = 1
  watching : Watching sig (m.s.view a)
  out : m.phase = .out → (m.s.mem a).flags.active = false

/-- A step that leaves the event to the loop does not make it active, but for a turn. -/
theorem Acted.inactive {a : Addr} {st : Step} {v v' : View} (h : Acted a st v v')
    (hst : st.leaves a) (ht : ¬st.turns) (ha : v.ev.flags.active = false) :
    v'.ev.flags.active = false := by
  cases h with
  | same | priority | signal | invoke => exact ha
  | set | add | del | active => exact absurd rfl hst
  | turn | turnStart => exact absurd trivial ht
  | next => rfl

/-- An event that is still active was not taken off its queue. -/
theorem Acted.not_taken {a : Addr} {st : Step} {v v' : View} (h : Acted a st v v')
    (ht : ¬st.turns) (hl : v.left = 0) (ha : v'.ev.flags.active = true) : v'.left = 0 := by
  cases h with
  | same | set | priority | add | active | signal => exact hl
  | del => rfl
  | turn | turnStart => exact absurd trivial ht
  | invoke hl' => exact absurd hl hl'
  | next => cases ha

theorem inactive_of_count {s : State} {a : Addr} (hg : Good s)
    (hi : (s.mem a).flags.internal = false) (h : s.qs.event_count_active = 0) :
    (s.mem a).flags.active = false := by
  have hc : counted s.mem s.qs .active = 0 := by
    have := hg.wf.count_active
    omega
  rw [counted, List.countP_eq_zero] at hc
  cases ha : (s.mem a).flags.active with
  | false => rfl
  | true => exact absurd hi (by simpa using hc a ((hg.wf.flag .active a).mp ha))

theorem drained_step {m m' : Machine} {st : Step} {a : Addr} {sig : Nat} (hI : Drained sig a m)
    (hC : Orderly m st ∧ st.leaves a ∧ st.few sig (m.s.view a)) (h : step m st = some m') :
    Drained sig a m' ∧
      (m'.s.view a).owed sig + calls a m st = (m.s.view a).owed sig + st.signals.count sig := by
  obtain ⟨ho, hleave, hfew⟩ := hC
  have d := stepped hI.sound ho h
  have hact := d.acted a hI.other
  have hphase : st.turns → m.phase = .out := fun ht => by
    cases st with
    | turn => exact ho.1
    | _ => cases ht
  obtain ⟨hw, howed⟩ := hact.owed hI.watching hleave hfew fun ht => hI.out (hphase ht)
  have hq : m'.s.qs.activequeues.length = 1 := d.queues.trans hI.queues
  refine ⟨⟨d.sound, by rw [d.ev_signal]; exact hI.other, hq, hw, fun hout => ?_⟩, howed⟩
  have hg := d.sound.good
  rcases step_out hI.sound ho h hout with ⟨hp, ht⟩ | ⟨-, hcount⟩ | ⟨l, hl, hnil⟩ | ⟨hp, hsame⟩
  · exact hact.inactive hleave ht (hI.out hp)
  · exact inactive_of_count hg hw.internal hcount
  · have hone : m'.s.qs.activequeues = [[]] := by
      have hlt := hI.sound.queue l hl
      rw [hI.queues] at hlt
      rw [show l.activeq = 0 by omega] at hnil
      obtain ⟨x, hx⟩ := List.length_eq_one_iff.mp hq
      rw [hx] at hnil ⊢
      rw [Option.some.inj hnil]
    cases ha : (m'.s.mem a).flags.active with
    | false => rfl
    | true =>
      have hmem := (hg.wf.flag .active a).mp ha
      rw [Queues.members, hone] at hmem
      cases hmem
  · rw [hsame a hI.other]
    exact hI.out hp

/-- With one queue of active events no signal is lost and none is handed on twice, if fewer than
65536 of it wait for a turn: over every orderly run that leaves the persistent event of a
signal to the loop, the calls of its callback and those that are still owed to it are
those that were owed at first and the signals that were caught. -/
theorem signals_all_called {m m' : Machine} {a : Addr} {sig : Nat} {es : List Step}
    (hm : Reached m) (ha : a ≠ m.s.ev_signal) (hone : m.s.qs.activequeues.length = 1)
    (hw : Watching sig (m.s.view a)) (hout : m.phase = .out → (m.s.mem a).flags.active = false)
    (hC : Runs.Meets step
      (fun m st => Orderly m st ∧ st.leaves a ∧ st.few sig (m.s.view a)) m es)
    (hr : Runs.run step m es = some m') :
    (m'.s.view a).owed sig + Runs.tally step (calls a) m es =
      (m.s.view a).owed sig + Runs.tally step (fun _ st => st.signals.count sig) m es :=
  Runs.tally_eq (fun m st m' => @drained_step m m' st a sig) ⟨hm.sound, ha, hone, hw, hout⟩ hC hr

/-- Two interrupts arrive while the loop waits. -/
def signalSteps : List Step :=
  [.turn ⟨100, 0⟩ ⟨100, 0⟩ [2, 2] (.ready []), .invoke, .ret, .invoke]

theorem signals_all_called_armed :
    ∃ m', Runs.run step .armed signalSteps = some m' ∧
      (m'.s.view 2).owed 2 + Runs.tally step (calls 2) .armed signalSteps =
        (Machine.armed.s.view 2).owed 2 +
          Runs.tally step (fun _ st => st.signals.count 2) .armed signalSteps := by
  have hr : (Runs.run step .armed signalSteps).isSome = true := by decide
  refine ⟨_, (Option.some_get hr).symm, signals_all_called armed_reached (by decide)
    (by decide) (by constructor <;> decide) (fun _ => by decide) ?_
    (Option.some_get hr).symm⟩
  refine Runs.meets_get (by decide) ⟨⟨by decide, by decide, by decide,
    nofun⟩, trivial, (by decide : _ < _)⟩ ?_
  refine Runs.meets_get (by decide) ⟨⟨by decide, by decide⟩, trivial,
    (by decide : _ < _)⟩ ?_
  refine Runs.meets_get (by decide) ⟨(by decide : _ = Phase.callback), trivial,
    (by decide : _ < _)⟩ ?_
  exact Runs.meets_get (by decide) ⟨⟨by decide, by decide⟩, trivial,
    (by decide : _ < _)⟩ trivial

/-! ### The order of the calls -/

/-- The event `x` stands before `y`. -/
def Before (x y : Addr) (l : List Addr) : Prop := [x, y].Sublist l

theorem Before.erase {x y z : Addr} {l : List Addr} (h : Before x y l) (hx : x ≠ z) (hy : y ≠ z) :
    Before x y (l.erase z) := by
  have h' := List.Sublist.erase z h
  rwa [List.erase_of_not_mem (by simp [Ne.symm hx, Ne.symm hy])] at h'

theorem Before.tail {x y z : Addr} {l : List Addr} (h : Before x y (z :: l)) (hx : x ≠ z) :
    Before x y l := by
  cases h with
  | cons _ h => exact h
  | cons_cons _ _ => exact absurd rfl hx

theorem Before.mem {x y : Addr} {l : List Addr} (h : Before x y l) : y ∈ l :=
  h.subset (by simp)

theorem mem_line_iff {s : State} (hg : Good s) {a : Addr} :
    (s.mem a).flags.active = true ↔ ∃ p, a ∈ s.qs.line .active p :=
  ⟨fun h => ⟨_, mem_line (q := .active) hg.wf h⟩,
    fun ⟨_, h⟩ => (hg.wf.flag .active a).mpr (mem_of_line h)⟩

/-- While `x` stands before `y`, or once `x` has been taken, `y` was not taken first. -/
structure InOrder (x y : Addr) (p : Nat) (m : Machine) : Prop where
  sound : Sound m
  first : x ≠ m.s.ev_signal
  second : y ≠ m.s.ev_signal
  order : (Before x y (m.s.qs.line .active p) ∧ m.s.left y = 0) ∨
    (m.s.mem x).flags.active = false

/-- The step is one within `event_process_active`, and leaves both events to the loop. -/
def Within (x y : Addr) (m : Machine) (st : Step) : Prop :=
  Orderly m st ∧ ¬st.turns ∧ st.leaves x ∧ st.leaves y

theorem inOrder_step {m m' : Machine} {st : Step} {x y : Addr} {p : Nat} (hI : InOrder x y p m)
    (hC : Within x y m st) (h : step m st = some m') : InOrder x y p m' := by
  obtain ⟨ho, ht, hx, hy⟩ := hC
  have d := stepped hI.sound ho h
  refine ⟨d.sound, by rw [d.ev_signal]; exact hI.first, by rw [d.ev_signal]; exact hI.second, ?_⟩
  rcases hI.order with ⟨hb, hl⟩ | ha
  · -- where `x` still stands before `y`, the loop did not take `y` either
    have hkeep : Before x y (m'.s.qs.line .active p) → m'.s.left y = 0 := fun hb' =>
      (d.acted y hI.second).not_taken ht hl ((mem_line_iff d.sound.good).mpr ⟨p, hb'.mem⟩)
    rcases d.line ht p with e | ⟨z, hz, e | e⟩ | ⟨z, e, hz⟩
    · have hb' : Before x y (m'.s.qs.line .active p) := e ▸ hb
      exact .inl ⟨hb', hkeep hb'⟩
    · have hb' : Before x y (m'.s.qs.line .active p) :=
        e ▸ hb.erase (fun e' => hz (e' ▸ hx)) fun e' => hz (e' ▸ hy)
      exact .inl ⟨hb', hkeep hb'⟩
    · have hb' : Before x y (m'.s.qs.line .active p) :=
        e ▸ List.Sublist.trans hb (List.sublist_append_left _ _)
      exact .inl ⟨hb', hkeep hb'⟩
    · rcases eq_or_ne x z with rfl | hne
      · exact .inr hz
      · have hb' : Before x y (m'.s.qs.line .active p) := Before.tail (e ▸ hb) hne
        exact .inl ⟨hb', hkeep hb'⟩
  · exact .inr ((d.acted x hI.first).inactive hx ht ha)

/-- Within `event_process_active` the callbacks are called in the order in which their
events became active: of two events that wait in one queue the second is not called
while the first still waits, whatever callbacks do to other events. -/
theorem called_in_order {m : Machine} {x y : Addr} {p : Nat} {es : List Step} (hm : Reached m)
    (hx : x ≠ m.s.ev_signal) (hy : y ≠ m.s.ev_signal)
    (hb : Before x y (m.s.qs.line .active p)) (hl : m.s.left y = 0)
    (hC : Runs.Meets step (Within x y) m es) :
    Runs.Meets step (fun m st => calls y m st ≠ 0 → (m.s.mem x).flags.active = false) m es := by
  refine Runs.meets_of_invariant (fun m st m' => @inOrder_step m m' st x y p)
    (fun m st hI _ hcall => ?_) ⟨hm.sound, hx, hy, .inl ⟨hb, hl⟩⟩ hC
  rcases hI.order with ⟨-, hl⟩ | ha
  · refine absurd ?_ hcall
    cases st with
    | invoke => exact if_pos hl
    | _ => rfl
  · exact ha

/-- The calls of the event 1, and then that of the event 2. -/
def callSteps : List Step := [.invoke, .ret, .invoke, .ret, .next, .invoke]

theorem callSteps_orderly :
    Runs.Meets step (fun m st => Orderly m st ∧ ¬st.turns ∧ st.leaves 2 ∧ st.leaves 3) .busy
      callSteps := by
  have hinvoke : ∀ m : Machine, m.phase = .active → (∃ l ∈ m.s.locals, l.ncalls ≠ 0) →
      Orderly m .invoke ∧ ¬Step.invoke.turns ∧ Step.invoke.leaves 2 ∧ Step.invoke.leaves 3 :=
    fun m h h' => ⟨⟨h, h'⟩, id, trivial, trivial⟩
  refine Runs.meets_get (by decide) (hinvoke _ (by decide) (by decide)) ?_
  refine Runs.meets_get (by decide) ⟨(by decide : _ = Phase.callback), id, trivial,
    trivial⟩ ?_
  refine Runs.meets_get (by decide) (hinvoke _ (by decide) (by decide)) ?_
  refine Runs.meets_get (by decide) ⟨(by decide : _ = Phase.callback), id, trivial,
    trivial⟩ ?_
  refine Runs.meets_get (by decide) ⟨⟨by decide, by decide⟩, id, trivial,
    trivial⟩ ?_
  exact Runs.meets_get (by decide) (hinvoke _ (by decide) (by decide)) trivial

theorem called_in_order_busy :
    Runs.Meets step (fun m st => calls 3 m st ≠ 0 → (m.s.mem 2).flags.active = false) .busy
      callSteps :=
  called_in_order busy_reached (by decide) (by decide) (p := 0)
    (by rw [Before]; decide) (by decide) callSteps_orderly

/-! ### How long an event waits -/

/-- The loop runs the queue that the event `x` waits in, if it still waits. -/
structure Waits (x : Addr) (p : Nat) (m : Machine) : Prop where
  sound : Sound m
  other : x ≠ m.s.ev_signal
  activeq : ∀ l ∈ m.s.locals, l.activeq = p
  mem : (m.s.mem x).flags.active = true → x ∈ m.s.qs.line .active p

def Step.nexts : Step → Nat
  | .next => 1
  | _ => 0

theorem idxOf_erase_le {x z : Addr} {l : List Addr} (h : x ≠ z) :
    (l.erase z).idxOf x ≤ l.idxOf x := by
  induction l with
  | nil => exact Nat.le_refl _
  | cons y l ih =>
    rw [List.erase_cons]
    split
    next e =>
      have hne : (y == x) = false := by
        rw [beq_eq_false_iff_ne]
        exact fun e' => h (e'.symm.trans (eq_of_beq e))
      rw [List.idxOf_cons, hne]
      exact Nat.le_succ _
    next =>
      rw [List.idxOf_cons, List.idxOf_cons]
      cases y == x with
      | true => exact Nat.le_refl _
      | false => exact Nat.succ_le_succ ih

/-- The loop takes the first event of its queue, or leaves when there is none. -/
theorem next_spec {m m' : Machine} {p : Nat} (hm : Sound m) (hp : ∀ l ∈ m.s.locals, l.activeq = p)
    (ho : Orderly m .next) (h : step m .next = some m') :
    (∃ z, m.s.qs.line .active p = z :: m'.s.qs.line .active p) ∨ m'.s.qs.line .active p = [] := by
  have d := stepped hm ho h
  obtain ⟨hphase, l, hl, -⟩ := id ho
  have hne : m.phase ≠ .out := by rw [hphase]; nofun
  cases hl' : m'.s.locals with
  | some l' =>
    obtain ⟨l₁, hl₁, -, hz⟩ := d.activeq id l' hl'
    rw [hp l₁ hl₁] at hz
    exact .inl (hz rfl)
  | none =>
    refine .inr ?_
    rcases step_out hm ho h (d.sound.phase.mpr hl') with ⟨hout, -⟩ | ⟨ht, -⟩ | ⟨l₁, hl₁, hnil⟩ |
      ⟨hout, -⟩
    · exact absurd hout hne
    · exact ht.elim
    · rw [hp l₁ hl₁] at hnil
      rw [Queues.line, hnil]
      rfl
    · exact absurd hout hne

theorem waits_step {m m' : Machine} {st : Step} {x : Addr} {p : Nat} (hI : Waits x p m)
    (hC : Orderly m st ∧ ¬st.turns ∧ st.leaves x) (h : step m st = some m') :
    Waits x p m' ∧ ((m.s.mem x).flags.active = false → (m'.s.mem x).flags.active = false) ∧
      ((m'.s.mem x).flags.active = false ∨
        (m'.s.qs.line .active p).idxOf x + st.nexts ≤ (m.s.qs.line .active p).idxOf x) := by
  obtain ⟨ho, ht, hx⟩ := hC
  have d := stepped hI.sound ho h
  have hkeep : (m.s.mem x).flags.active = false → (m'.s.mem x).flags.active = false :=
    (d.acted x hI.other).inactive hx ht
  have hwait : (m'.s.mem x).flags.active = false ∨ x ∈ m'.s.qs.line .active p ∧
      (m'.s.qs.line .active p).idxOf x + st.nexts ≤ (m.s.qs.line .active p).idxOf x := by
    cases ha : (m.s.mem x).flags.active with
    | false => exact .inl (hkeep ha)
    | true =>
      have hmem := hI.mem ha
      rcases d.line ht p with e | ⟨z, hz, e⟩ | ⟨z, e, hz⟩
      · have hn : st.nexts = 0 := by
          cases st with
          | next =>
            rcases next_spec hI.sound hI.activeq ho h with ⟨z, hz⟩ | hnil
            · rw [e] at hz
              exact absurd (congrArg List.length hz) (by simp)
            · rw [← e, hnil] at hmem
              cases hmem
          | _ => rfl
        rw [e, hn]
        exact .inr ⟨hmem, Nat.le_refl _⟩
      · have hne : x ≠ z := fun e' => hz (e' ▸ hx)
        have hn : st.nexts = 0 := by
          cases st with
          | next => exact absurd trivial hz
          | _ => rfl
        rw [hn]
        rcases e with e | e
        · rw [e]
          exact .inr ⟨(List.mem_erase_of_ne hne).mpr hmem, idxOf_erase_le hne⟩
        · rw [e]
          exact .inr ⟨List.mem_append_left _ hmem, (List.idxOf_append_of_mem hmem).le⟩
      · rcases eq_or_ne x z with rfl | hne
        · exact .inl hz
        · rw [e] at hmem ⊢
          have hle : st.nexts ≤ 1 := by cases st <;> simp [Step.nexts]
          rw [List.idxOf_cons_ne _ hne.symm]
          exact .inr ⟨(List.mem_cons.mp hmem).resolve_left hne, by omega⟩
  refine ⟨⟨d.sound, by rw [d.ev_signal]; exact hI.other, fun l' hl' => ?_, fun ha => ?_⟩, hkeep,
    hwait.imp_right And.right⟩
  · obtain ⟨l, hl, e, -⟩ := d.activeq ht l' hl'
    rw [e, hI.activeq l hl]
  · rcases hwait with h₀ | ⟨hmem, -⟩
    · exact absurd (h₀.symm.trans ha) nofun
    · exact hmem

/-- Within `event_process_active` an active event waits for no more events than stand
before it when the loop runs its queue: whatever callbacks do to other events, the loop
takes it after at most that many. -/
theorem waits_its_turn {m m' : Machine} {l : Locals} {x : Addr} {es : List Step} (hm : Reached m)
    (hl : l ∈ m.s.locals) (hx : x ≠ m.s.ev_signal) (hmem : x ∈ m.s.qs.line .active l.activeq)
    (hC : Runs.Meets step (fun m st => Orderly m st ∧ ¬st.turns ∧ st.leaves x) m es)
    (hr : Runs.run step m es = some m') :
    (m'.s.mem x).flags.active = false ∨
      (m'.s.qs.line .active l.activeq).idxOf x + (es.map Step.nexts).sum ≤
        (m.s.qs.line .active l.activeq).idxOf x := by
  have hI : Waits x l.activeq m :=
    ⟨hm.sound, hx, fun l' hl' => by rw [Option.mem_unique hl' hl], fun _ => hmem⟩
  exact (Runs.run_rank (fun m st m' => @waits_step m m' st x l.activeq) hI hC hr).2.2

theorem waits_its_turn_busy :
    ∃ m', Runs.run step .busy callSteps = some m' ∧ ((m'.s.mem 3).flags.active = false ∨
      (m'.s.qs.line .active 0).idxOf 3 + 1 ≤ (Machine.busy.s.qs.line .active 0).idxOf 3) := by
  have hr : (Runs.run step .busy callSteps).isSome = true := by decide
  refine ⟨_, (Option.some_get hr).symm, waits_its_turn (l := ⟨0, 1, 2⟩) busy_reached
    (by decide) (by decide) (by decide) ?_ (Option.some_get hr).symm⟩
  exact Runs.meets_of_invariant (I := fun _ => True) (fun _ _ _ _ _ _ => trivial)
    (fun _ _ _ h => ⟨h.1, h.2.1, h.2.2.2⟩) trivial callSteps_orderly

end FilesEvent.Net
