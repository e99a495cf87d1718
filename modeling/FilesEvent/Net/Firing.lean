import FilesEvent.Net.Invariant

/-! What makes events active: signals that were caught, descriptors that are ready, and
times that have come. Each acts on every event by itself, so that a turn of the loop
is a function of the single events, whatever the order of the queues. -/

namespace FilesEvent.Net
open RedBlack What

/-- An event after `event_del`. -/
def Event.deleted (ev : Event) : Event := { ev with flags := ev.flags.off }

/-- An event that is deleted, unless it is kept, and then made active. -/
def Event.fired (ev : Event) (keep : Bool) (res : What) (ncalls : Nat) : Event :=
  (if keep then ev else ev.deleted).activated res ncalls

/-- One event in `evsignal_process`. -/
def Event.caught (evsigcaught : Nat → Nat) (ev : Event) : Event :=
  if ev.flags.signal && evsigcaught ev.fd.toNat != 0 then
    ev.fired ev.events.persist EV_SIGNAL (evsigcaught ev.fd.toNat % 65536)
  else ev

def Report.reads (r : Report) (ev : Event) : Bool :=
  (r.inp || r.hup || r.err) && ev.reads && decide (ev.fd = r.index)

def Report.writes (r : Report) (ev : Event) : Bool :=
  (r.out || r.hup || r.err) && ev.writes && decide (ev.fd = r.index)

/-- One event in the loop of `epoll_dispatch`. -/
def Event.dispatched (ev : Event) (r : Report) : Event :=
  if r.reads ev || r.writes ev then
    ev.fired ev.events.persist { What.zero with read := r.reads ev, write := r.writes ev } 1
  else ev

/-- One event in `timeout_process`. -/
def Event.expired (now : Timeval) (ev : Event) : Event :=
  if ev.flags.timeout && !now.lt ev.timeout then ev.fired false EV_TIMEOUT 1 else ev

def Event.moved (off : Timeval) (ev : Event) : Event :=
  { ev with timeout := ev.timeout.sub off }

/-- One event in `timeout_correct`. -/
def Event.corrected (off : Timeval) (ev : Event) : Event :=
  if ev.flags.timeout then ev.moved off else ev

/-- Between two callbacks no counter can be reached, and an event in a queue can be
deleted. -/
theorem Good.not_cut {s : State} (hg : Good s) {a : Addr} {q : Queue}
    (hq : (s.mem a).flags.get q = true) : ¬CutShort s a := fun h => by
  rw [hg.tidy a h q] at hq
  cases hq

theorem not_running {s : State} (h : s.locals = none) (a : Addr) : ¬Running s a := by
  rintro ⟨l, hl, -⟩
  rw [h] at hl
  cases hl

/-- The internal event is in no queue before it was added. -/
theorem Good.added_of_flag {s : State} (hg : Good s) {a : Addr} {q : Queue}
    (hq : (s.mem a).flags.get q = true) (ha : a = s.ev_signal) :
    s.sig.ev_signal_added = true := by
  cases h : s.sig.ev_signal_added with
  | true => rfl
  | false =>
    rw [ha, (hg.pipe.first h).2 q] at hq
    cases hq

/-- A step of the loop outside of the callbacks that acts on every event alone. -/
structure Acts (s : State) (f : Event → Event) (s' : State) : Prop where
  frame : Frame s s'
  mem : ∀ x, s'.mem x = f (s.mem x)
  locals : s'.locals = none
  good : Good s'

theorem Acts.trans {s t u : State} {f g : Event → Event} (h : Acts s f t) (h' : Acts t g u) :
    Acts s (fun ev => g (f ev)) u where
  frame := h.frame.trans h'.frame
  mem x := by rw [h'.mem, h.mem]
  locals := h'.locals
  good := h'.good

theorem Acts.refl {s : State} (hg : Good s) (hn : s.locals = none) : Acts s (fun ev => ev) s :=
  ⟨.refl s, fun _ => rfl, hn, hg⟩

theorem Acts.congr {s s' : State} {f g : Event → Event} (h : Acts s f s')
    (hfg : ∀ x, g (s.mem x) = f (s.mem x)) : Acts s g s' where
  frame := h.frame
  mem x := by rw [h.mem, hfg]
  locals := h.locals
  good := h.good

/-! ### Deletions and activations -/

theorem Deleted.apply {s s' : State} {a : Addr} (h : Deleted s a s') (x : Addr) :
    s'.mem x = if x = a then (s.mem a).deleted else s.mem x := by
  rw [h.mem]
  split
  next e => rw [e, set_self, Event.deleted]
  next e => exact set_ne e _

theorem Activated.apply {s s' : State} {a : Addr} {res : What} {n : Nat}
    (h : Activated s a res n s') (x : Addr) :
    s'.mem x = if x = a then (s.mem a).activated res n else s.mem x := by
  rw [h.mem]
  split
  next e => rw [e, set_self]
  next e => exact set_ne e _

/-- What a deletion and an activation of `a` do to the lines of the queues. -/
structure Fired (s : State) (a : Addr) (keep : Bool) (res : What) (n : Nat) (s' : State) :
    Prop where
  frame : Frame s s'
  mem : ∀ x, s'.mem x = if x = a then (s.mem a).fired keep res n else s.mem x
  locals : s'.locals = none
  line : keep = false → ∀ q p, s'.qs.line q p =
    if q = .active ∧ p = (s.mem a).pri then (s.qs.line q p).erase a ++ [a]
    else (s.qs.line q p).erase a
  good : Good s'

theorem fire_spec {s : State} {a : Addr} {q : Queue} (keep : Bool) (res : What) (n : Nat)
    (hg : Good s) (hn : s.locals = none) (hq : (s.mem a).flags.get q = true) :
    ∃ s₁ s', (if keep then some s else (eventDel s a).map (·.1)) = some s₁ ∧
      eventActive s₁ a res n = some s' ∧ Fired s a keep res n s' := by
  have hi := hg.eventOk q hq
  cases keep with
  | true =>
    obtain ⟨s', h, hd⟩ := eventActive_spec res n hg hi (not_running hn a) (hg.added_of_flag hq)
    exact ⟨s, s', rfl, h, hd.frame, hd.apply, hd.locals.trans hn, nofun, hd.good⟩
  | false =>
    obtain ⟨s₁, h₁, hd₁⟩ := eventDel_spec hg (hg.not_cut hq) hi (hg.added_of_flag hq)
    have hn₁ : s₁.locals = none := by rw [hd₁.locals, hn]; rfl
    have hself : s₁.mem a = (s.mem a).deleted := by rw [hd₁.apply, if_pos rfl]
    obtain ⟨s', h, hd⟩ := eventActive_spec (a := a) res n hd₁.good (by rw [hself]; exact hi)
      (not_running hn₁ a) (fun e => hd₁.frame.added.trans
        (hg.added_of_flag hq (e.trans hd₁.frame.ev_signal)))
    refine ⟨s₁, s', by rw [h₁]; rfl, h, hd₁.frame.trans hd.frame, fun x => ?_,
      hd.locals.trans hn₁, fun _ q p => ?_, hd.good⟩
    · rw [hd.apply, hself, hd₁.apply]
      split <;> rfl
    · rw [hd.line, hd₁.line, hself]
      simp [Event.deleted, Flags.off]

/-! ### Signals -/

theorem fired_other (ev : Event) (keep : Bool) (res : What) (n : Nat) :
    (ev.fired keep res n).fd = ev.fd ∧ (ev.fired keep res n).events = ev.events ∧
      (ev.fired keep res n).pri = ev.pri ∧ (ev.fired keep res n).timeout = ev.timeout := by
  rw [Event.fired]
  split
  · obtain ⟨h₁, h₂, h₃, h₄⟩ := ev.activated_other res n
    exact ⟨h₂, h₁, h₃, h₄⟩
  · obtain ⟨h₁, h₂, h₃, h₄⟩ := ev.deleted.activated_other res n
    exact ⟨h₂, h₁, h₃, h₄⟩

theorem processSignal_spec {s : State} {a : Addr} (hg : Good s) (hn : s.locals = none)
    (ha : (s.mem a).flags.signal = true) :
    ∃ s', processSignal s a = some s' ∧ Frame s s' ∧ s'.locals = none ∧ Good s' ∧
      ∀ x, s'.mem x = if x = a then (s.mem a).caught s.sig.evsigcaught else s.mem x := by
  have hr := (hg.ok a).number (hg.eventOk .signal ha) ((hg.ok a).signal ha)
  rw [processSignal]
  simp only
  rw [if_pos hr, Event.caught, ha, Bool.true_and]
  by_cases h0 : s.sig.evsigcaught (s.mem a).fd.toNat = 0
  · refine ⟨s, if_pos h0, .refl s, hn, hg, fun x => ?_⟩
    rw [h0]
    split
    next e => rw [e]; rfl
    next => rfl
  · obtain ⟨s₁, s', h₁, h₂, hf⟩ := fire_spec (q := .signal) (s.mem a).events.persist EV_SIGNAL
      (s.sig.evsigcaught (s.mem a).fd.toNat % 65536) hg hn ha
    refine ⟨s', ?_, hf.frame, hf.locals, hf.good, fun x => ?_⟩
    · rw [if_neg h0, h₁]
      exact h₂
    · rw [hf.mem, if_pos (bne_iff_ne.mpr h0)]

/-- The loop of `evsignal_process` over events that are all added. -/
theorem foldlM_processSignal {l : List Addr} {s : State} (hg : Good s) (hn : s.locals = none)
    (hl : l.Nodup) (ha : ∀ a ∈ l, (s.mem a).flags.signal = true) :
    ∃ s', l.foldlM processSignal s = some s' ∧ Frame s s' ∧ s'.locals = none ∧ Good s' ∧
      ∀ x, s'.mem x = if x ∈ l then (s.mem x).caught s.sig.evsigcaught else s.mem x := by
  induction l generalizing s with
  | nil => exact ⟨s, rfl, .refl s, hn, hg, fun x => rfl⟩
  | cons a l ih =>
    obtain ⟨hal, hl⟩ := List.nodup_cons.mp hl
    obtain ⟨s₁, h₁, hf₁, hn₁, hg₁, hm₁⟩ := processSignal_spec hg hn (ha a (.head _))
    have hne : ∀ b ∈ l, b ≠ a := fun b hb e => hal (e ▸ hb)
    obtain ⟨s', h, hf, hn', hg', hm⟩ := ih hg₁ hn₁ hl fun b hb => by
      rw [hm₁, if_neg (hne b hb)]
      exact ha b (.tail _ hb)
    refine ⟨s', by rw [List.foldlM_cons, h₁]; exact h, hf₁.trans hf, hn', hg', fun x => ?_⟩
    rw [hm, hm₁, hf₁.evsigcaught]
    by_cases e : x = a
    · subst e
      simp [hal]
    · simp [e]

/-- `evsignal_process` acts on every event alone, and starts the counts again. -/
theorem evsignalProcess_spec {s : State} (hg : Good s) (hn : s.locals = none) :
    ∃ s₁ s', evsignalProcess s = some s' ∧ Acts s (Event.caught s.sig.evsigcaught) s₁ ∧
      s' = { s₁ with sig := { s₁.sig with evsigcaught := fun _ => 0, evsignal_caught := false } } := by
  obtain ⟨s₁, h₁, hf, hn₁, hg₁, hm⟩ := foldlM_processSignal hg hn (hg.wf.nodup .signal)
    fun a ha => (hg.wf.flag .signal a).mpr ha
  have h₁ : s.qs.signalqueue.foldlM processSignal s = some s₁ := h₁
  refine ⟨s₁, _, by rw [evsignalProcess, h₁]; rfl, ⟨hf, fun x => ?_, hn₁, hg₁⟩, rfl⟩
  rw [hm]
  split
  next => rfl
  next hx =>
    have hs : (s.mem x).flags.signal = false := by
      cases h : (s.mem x).flags.signal with
      | false => rfl
      | true => exact absurd ((hg.wf.flag .signal x).mp h) hx
    rw [Event.caught, hs]
    rfl

/-! ### Descriptors -/

theorem delOnce_spec {s : State} {o : Option Addr} (hg : Good s) (hn : s.locals = none)
    (ho : ∀ a ∈ o, (s.mem a).flags.inserted = true) :
    ∃ s', delOnce s o = some s' ∧ Frame s s' ∧ s'.locals = none ∧ Good s' ∧
      ∀ x, s'.mem x = if o = some x ∧ (s.mem x).events.persist = false then (s.mem x).deleted
        else s.mem x := by
  cases o with
  | none => exact ⟨s, rfl, .refl s, hn, hg, fun x => rfl⟩
  | some a =>
    have ha : (s.mem a).flags.get .inserted = true := ho a rfl
    rw [delOnce]
    cases hp : (s.mem a).events.persist with
    | true =>
      refine ⟨s, rfl, .refl s, hn, hg, fun x => ?_⟩
      rw [if_neg]
      rintro ⟨e, h⟩
      rw [← Option.some.inj e, hp] at h
      cases h
    | false =>
      obtain ⟨s', h, hd⟩ := eventDel_spec hg (hg.not_cut ha) (hg.eventOk .inserted ha)
        (hg.added_of_flag ha)
      refine ⟨s', by simp [h], hd.frame, by rw [hd.locals, hn]; rfl, hd.good, fun x => ?_⟩
      rw [hd.apply]
      by_cases e : x = a
      · rw [if_pos e, if_pos ⟨congrArg some e.symm, e ▸ hp⟩, e]
      · rw [if_neg e, if_neg fun h => e (Option.some.inj h.1).symm]

theorem activate_spec {s : State} {o : Option Addr} (res : What) (hg : Good s)
    (hn : s.locals = none) (ho : ∀ a ∈ o, (s.mem a).flags.init = true)
    (hadd : ∀ a ∈ o, a = s.ev_signal → s.sig.ev_signal_added = true) :
    ∃ s', activate s o res = some s' ∧ Frame s s' ∧ s'.locals = none ∧ Good s' ∧
      ∀ x, s'.mem x = if o = some x then (s.mem x).activated res 1 else s.mem x := by
  cases o with
  | none => exact ⟨s, rfl, .refl s, hn, hg, fun x => rfl⟩
  | some a =>
    obtain ⟨s', h, hd⟩ := eventActive_spec res 1 hg (ho a rfl) (not_running hn a) (hadd a rfl)
    refine ⟨s', h, hd.frame, hd.locals.trans hn, hd.good, fun x => ?_⟩
    rw [hd.apply]
    by_cases e : x = a
    · rw [if_pos e, if_pos (congrArg some e.symm), e]
    · rw [if_neg e, if_neg fun h => e (Option.some.inj h).symm]

theorem activated_twice (ev : Event) (res res' : What) :
    (ev.activated res 1).activated res' 1 = ev.activated (res.or res') 1 := by
  have h' : (ev.activated res 1).flags.active = true := by
    rw [Event.activated_flags]
    rfl
  rw [Event.activated, if_pos h']
  cases h : ev.flags.active with
  | true => simp [Event.activated, h, What.or, Bool.or_assoc]
  | false => simp [Event.activated, h]

/-- A report that the kernel can make: for a descriptor that it watches. -/
def Reported (e : Epollop) (r : Report) : Prop :=
  ∃ fd i, e.interest fd = some i ∧ r.version = i.version ∧ r.index = i.index

/-- What the kernel reports of is an index in the present array. -/
theorem Table.reported {m : Mem} {e : Epollop} (h : Table m e) {r : Report} (hr : Reported e r) :
    r.version = e.version ∧ r.index < e.fds.length := by
  obtain ⟨fd, i, hi, hv, hx⟩ := hr
  rw [h.kernel] at hi
  obtain ⟨evep, he, hw⟩ := Option.bind_eq_some_iff.mp hi
  have := range_of_evep he
  rw [wanted] at hw
  split at hw
  · cases hw
    exact ⟨hv, by simp only at hx; omega⟩
  · cases hw

theorem Table.reads_slot {m : Mem} {e : Epollop} {r : Report} {evep : Evepoll} (h : Table m e)
    (he : e.evep r.index = some evep) (x : Addr) :
    (if r.inp || r.hup || r.err then evep.evread else none) = some x ↔ r.reads (m x) = true := by
  rw [Report.reads]
  split
  next hr => simp [hr, h.reader _ _ he]
  next hr => simp [hr]

theorem Table.writes_slot {m : Mem} {e : Epollop} {r : Report} {evep : Evepoll} (h : Table m e)
    (he : e.evep r.index = some evep) (x : Addr) :
    (if r.out || r.hup || r.err then evep.evwrite else none) = some x ↔ r.writes (m x) = true := by
  rw [Report.writes]
  split
  next hr => simp [hr, h.writer _ _ he]
  next hr => simp [hr]

theorem inserted_of_reads {r : Report} {ev : Event} (h : r.reads ev = true) :
    ev.flags.inserted = true := by
  rw [Report.reads, Event.reads] at h
  simp only [Bool.and_eq_true] at h
  exact h.1.2.1

theorem inserted_of_writes {r : Report} {ev : Event} (h : r.writes ev = true) :
    ev.flags.inserted = true := by
  rw [Report.writes, Event.writes] at h
  simp only [Bool.and_eq_true] at h
  exact h.1.2.1

/-- An event that stands in both slots is deleted once. -/
theorem delBoth_spec {s : State} {o o' : Option Addr} (hg : Good s) (hn : s.locals = none)
    (hin : ∀ x, o = some x ∨ o' = some x → (s.mem x).flags.inserted = true) :
    ∃ s₁ s₂, delOnce s o = some s₁ ∧ delOnce s₁ (if o' = o then none else o') = some s₂ ∧
      Frame s s₂ ∧ s₂.locals = none ∧ Good s₂ ∧
        ∀ x, s₂.mem x = if (o = some x ∨ o' = some x) ∧ (s.mem x).events.persist = false then
          (s.mem x).deleted else s.mem x := by
  obtain ⟨s₁, h₁, f₁, n₁, g₁, m₁⟩ := delOnce_spec hg hn fun a ha => hin a (.inl ha)
  have hother : ∀ x, (if o' = o then none else o') = some x ↔ o' = some x ∧ o ≠ some x := by
    intro x
    split
    next e => simp [e]
    next e => exact ⟨fun h => ⟨h, fun h' => e (h.trans h'.symm)⟩, fun h => h.1⟩
  obtain ⟨s₂, h₂, f₂, n₂, g₂, m₂⟩ := delOnce_spec (o := if o' = o then none else o') g₁ n₁
    fun a ha => by
      obtain ⟨h, h'⟩ := (hother a).mp ha
      rw [m₁, if_neg fun h => h' h.1]
      exact hin a (.inr h)
  refine ⟨s₁, s₂, h₁, h₂, f₁.trans f₂, n₂, g₂, fun x => ?_⟩
  rw [m₂, m₁]
  simp only [hother]
  by_cases e₁ : o = some x <;> by_cases e₂ : o' = some x <;> simp [e₁, e₂]

theorem dispatchOne_spec {s : State} {r : Report} (hg : Good s) (hn : s.locals = none)
    (hv : r.version = s.epoll.version) (hr : r.index < s.epoll.fds.length) :
    ∃ s', dispatchOne s r = some s' ∧ Acts s (fun ev => ev.dispatched r) s' := by
  obtain ⟨evep, he⟩ := evep_range (e := s.epoll)
    (by omega : 0 ≤ (r.index : Int) ∧ (r.index : Int) < s.epoll.fds.length)
  have hget : s.epoll.fds[r.index]? = some evep := by
    rw [Epollop.evep, if_pos (by omega)] at he
    exact he
  have hread := hg.table.reads_slot he
  have hwrite := hg.table.writes_slot he
  rw [dispatchOne, if_neg (by simpa using hv), hget, Option.bind_some]
  simp only
  generalize (if r.inp || r.hup || r.err then evep.evread else none) = evread at hread ⊢
  generalize (if r.out || r.hup || r.err then evep.evwrite else none) = evwrite at hwrite ⊢
  have hin : ∀ x, evread = some x ∨ evwrite = some x → (s.mem x).flags.inserted = true := by
    rintro x (h | h)
    · exact inserted_of_reads ((hread x).mp h)
    · exact inserted_of_writes ((hwrite x).mp h)
  have hinit : ∀ x, evread = some x ∨ evwrite = some x → (s.mem x).flags.init = true :=
    fun x hx => hg.eventOk .inserted (hin x hx)
  have hadd : ∀ x, evread = some x ∨ evwrite = some x → x = s.ev_signal →
      s.sig.ev_signal_added = true := fun x hx => hg.added_of_flag (q := .inserted) (hin x hx)
  obtain ⟨s₁, s₂, h₁, h₂, f₂, n₂, g₂, m₂⟩ := delBoth_spec hg hn hin
  have hsame : ∀ x, (s₂.mem x).flags.init = (s.mem x).flags.init := by
    intro x
    rw [m₂]
    split <;> rfl
  obtain ⟨s₃, h₃, f₃, n₃, g₃, m₃⟩ := activate_spec (o := evread) EV_READ g₂ n₂
    (fun a ha => (hsame a).trans (hinit a (.inl ha)))
    fun a ha e => by
      rw [f₂.added]
      exact hadd a (.inl ha) (by rw [e, f₂.ev_signal])
  obtain ⟨s₄, h₄, f₄, n₄, g₄, m₄⟩ := activate_spec (o := evwrite) EV_WRITE g₃ n₃
    (fun a ha => by
      rw [m₃]
      split
      · rw [Event.activated_flags, Flags.init_set, hsame]
        exact hinit a (.inr ha)
      · exact (hsame a).trans (hinit a (.inr ha)))
    fun a ha e => by
      rw [f₃.added, f₂.added]
      exact hadd a (.inr ha) (by rw [e, f₃.ev_signal, f₂.ev_signal])
  refine ⟨s₄, ?_, (f₂.trans f₃).trans f₄, fun x => ?_, n₄, g₄⟩
  · rw [h₁, Option.bind_some, h₂, Option.bind_some, h₃, Option.bind_some]
    exact h₄
  · rw [m₄, m₃, m₂, Event.dispatched, Event.fired]
    simp only [hread, hwrite]
    cases hp : (s.mem x).events.persist <;> cases r.reads (s.mem x) <;>
      cases r.writes (s.mem x) <;> simp [activated_twice] <;> rfl

theorem foldlM_dispatchOne {reports : List Report} {s : State} (hg : Good s) (hn : s.locals = none)
    (hr : ∀ r ∈ reports, r.version = s.epoll.version ∧ r.index < s.epoll.fds.length) :
    ∃ s', reports.foldlM dispatchOne s = some s' ∧
      Acts s (fun ev => reports.foldl Event.dispatched ev) s' := by
  induction reports generalizing s with
  | nil => exact ⟨s, rfl, .refl hg hn⟩
  | cons r reports ih =>
    obtain ⟨hv, hx⟩ := hr r (.head _)
    obtain ⟨s₁, h₁, a₁⟩ := dispatchOne_spec hg hn hv hx
    obtain ⟨s', h, a⟩ := ih a₁.good a₁.locals fun r' hr' => by
      rw [a₁.frame.version, a₁.frame.length]
      exact hr r' (.tail _ hr')
    exact ⟨s', by rw [List.foldlM_cons, h₁]; exact h, a₁.trans a⟩

/-! ### The internal event -/

/-- The queues do not depend on what `signal.c` keeps. -/
theorem Good.sig {s : State} (hg : Good s) (x : Signals)
    (hx : x.ev_signal_added = false → s.sig.ev_signal_added = false) :
    Good { s with sig := x } where
  wf := hg.wf
  ok := hg.ok
  table := hg.table
  running := hg.running
  tidy := hg.tidy
  clock := hg.clock
  pipe := ⟨hg.pipe.init, hg.pipe.events, hg.pipe.live, hg.pipe.alone,
    fun h => hg.pipe.first (hx h)⟩

/-- What `evsignal_recalc` does: the internal event is added, if that was still to be done. -/
structure Settled (s s' : State) : Prop where
  frame : Frame { s with sig := { s.sig with ev_signal_added := true } } s'
  mem : ∀ x, x ≠ s.ev_signal → s'.mem x = s.mem x
  line : ∀ p, s'.qs.line .active p = s.qs.line .active p
  locals : s'.locals = s.locals
  good : Good s'

/-- The descriptor of the internal event is its own. -/
theorem Good.free_ev_signal {s : State} (hg : Good s) : Free s s.ev_signal := by
  intro hio hni
  refine ⟨hg.pipe.live, fun b hb => ?_⟩
  have hno : (s.mem b).flags.inserted = false := by
    cases h : (s.mem b).flags.inserted with
    | false => rfl
    | true =>
      by_cases e : b = s.ev_signal
      · rw [← h, e, hni]
      · exact absurd hb (hg.pipe.alone b e (hg.eventOk .inserted h) ((hg.ok b).io h))
  rw [Event.reads, Event.writes, hno]
  exact ⟨fun _ => rfl, fun _ => rfl⟩

/-- A handler can be installed for every signal that was added. -/
def AllHandled (s : State) : Prop := ∀ a ∈ s.qs.signalqueue, handled (s.mem a).fd = true

instance (s : State) : Decidable (AllHandled s) :=
  inferInstanceAs (Decidable (∀ a ∈ s.qs.signalqueue, handled (s.mem a).fd = true))

/-- Only the events of signals matter for it. -/
theorem allHandled_congr {s s' : State} (hw : Wf s.mem s.qs) (hw' : Wf s'.mem s'.qs)
    (h : ∀ a, (s'.mem a).flags.signal = (s.mem a).flags.signal ∧
      ((s.mem a).flags.signal = true → (s'.mem a).fd = (s.mem a).fd)) :
    AllHandled s' ↔ AllHandled s := by
  have hflag : ∀ a, a ∈ s.qs.signalqueue ↔ (s.mem a).flags.signal = true := fun a =>
    (hw.flag .signal a).symm
  have hflag' : ∀ a, a ∈ s'.qs.signalqueue ↔ (s'.mem a).flags.signal = true := fun a =>
    (hw'.flag .signal a).symm
  refine forall_congr' fun a => ?_
  rw [hflag, hflag', (h a).1]
  exact imp_congr_right fun hs => by rw [(h a).2 hs]

theorem Good.added_after {s : State} (hg : Good s) :
    ∃ s₁, (if s.sig.ev_signal_added then some s
        else addEvSignal { s with sig := { s.sig with ev_signal_added := true } }) = some s₁ ∧
      Settled s s₁ := by
  let s₀ := { s with sig := { s.sig with ev_signal_added := true } }
  have hg₀ : Good s₀ := hg.sig _ nofun
  cases ha : s.sig.ev_signal_added with
  | true =>
    have he : s₀ = s := by
      simp only [s₀, ← ha]
    exact ⟨s, rfl, ⟨by rw [show Frame _ s ↔ Frame s₀ s from Iff.rfl, he]; exact .refl s,
      fun x _ => rfl, fun p => rfl, rfl, hg⟩⟩
  | false =>
    obtain ⟨hn, hq⟩ := hg.pipe.first ha
    obtain ⟨s₁, h₁, d₁⟩ := eventAdd_spec (evsignalRecalc some) (s := s₀)
      (a := s.ev_signal) hg₀ hg.pipe.init (fun h => h.1 hn)
      (by decide : Timeval.Valid ⟨0, 0⟩) (nofun : ∀ t ∈ none, Timeval.Delay t) hg₀.free_ev_signal
      fun _ => rfl
    refine ⟨s₁, ?_, d₁.frame, fun x hx => ?_, fun p => (d₁.line p).trans (if_neg (by simp)),
      d₁.locals, d₁.good⟩
    · rw [if_neg Bool.false_ne_true, addEvSignal]
      exact congrArg (Option.map (·.1)) h₁
    · rw [d₁.mem, set_ne hx]

/-- The internal event waits for no signal. -/
theorem Good.no_signal {s : State} (hg : Good s) : (s.mem s.ev_signal).flags.signal = false := by
  cases h : (s.mem s.ev_signal).flags.signal with
  | false => rfl
  | true =>
    have := (hg.ok s.ev_signal).signal h
    rw [hg.pipe.events] at this
    cases this

theorem Settled.allHandled {s s' : State} (hg : Good s) (d : Settled s s') :
    AllHandled s' ↔ AllHandled s := by
  refine allHandled_congr hg.wf d.good.wf fun a => ?_
  by_cases e : a = s.ev_signal
  · have h' : (s'.mem s.ev_signal).flags.signal = false :=
      d.frame.ev_signal ▸ d.good.no_signal
    rw [e, h', hg.no_signal]
    exact ⟨rfl, nofun⟩
  · rw [d.mem a e]
    exact ⟨rfl, fun _ => rfl⟩

/-- `evsignal_recalc` fails just where a signal was added that has no handler. -/
theorem evsignalRecalc_spec {s : State} (hg : Good s) :
    ∃ s' res, evsignalRecalc addEvSignal s = some (s', res) ∧ Settled s s' ∧
      (res = -1 ↔ ¬AllHandled s) := by
  obtain ⟨s₁, h₁, d₁⟩ := hg.added_after
  rw [evsignalRecalc, h₁, Option.map_some]
  split
  next hno =>
    refine ⟨s₁, 0, rfl, d₁, iff_of_false (by decide) (not_not.mpr ?_)⟩
    rw [Bool.and_eq_true, decide_eq_true_eq] at hno
    rw [← d₁.allHandled hg, AllHandled, hno.1]
    simp
  next =>
    refine ⟨_, _, rfl, ⟨d₁.frame.trans (by constructor <;> rfl), d₁.mem, d₁.line, d₁.locals,
      d₁.good.sig _ id⟩, ?_⟩
    rw [reinstall_refused_iff, ← d₁.allHandled hg]
    simp [AllHandled]

/-! ### `epoll_dispatch` -/

theorem foldl_evsignalHandler (signals : List Nat) (s : State) :
    signals.foldl evsignalHandler s = { s with sig := { s.sig with
      evsigcaught := fun sig => s.sig.evsigcaught sig + signals.count sig
      evsignal_caught := s.sig.evsignal_caught || !signals.isEmpty } } := by
  induction signals generalizing s with
  | nil => simp
  | cons sig signals ih =>
    rw [List.foldl_cons, ih, evsignalHandler]
    simp only [State.mk.injEq, Signals.mk.injEq, true_and, and_true]
    refine ⟨funext fun sig' => ?_, by simp⟩
    rw [Function.update_apply, List.count_cons]
    by_cases e : sig' = sig
    · subst e
      simp
      omega
    · simp [e, Ne.symm e]

end FilesEvent.Net
