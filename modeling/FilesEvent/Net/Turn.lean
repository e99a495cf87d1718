import FilesEvent.Net.Timers

/-! One turn of the loop: what it does to every event but the internal one, and that it
keeps the invariant. -/

namespace FilesEvent.Net
open RedBlack What

/-- What a whole turn of the loop leaves as it is. -/
structure Stays (s s' : State) : Prop where
  activation : s'.activation = s.activation
  ev_signal : s'.ev_signal = s.ev_signal
  live : s'.epoll.live = s.epoll.live
  length : s'.epoll.fds.length = s.epoll.fds.length
  version : s'.epoll.version = s.epoll.version
  queues : s'.qs.activequeues.length = s.qs.activequeues.length

theorem Stays.trans {s t u : State} (h : Stays s t) (h' : Stays t u) : Stays s u where
  activation := h'.activation.trans h.activation
  ev_signal := h'.ev_signal.trans h.ev_signal
  live := h'.live.trans h.live
  length := h'.length.trans h.length
  version := h'.version.trans h.version
  queues := h'.queues.trans h.queues

theorem Frame.stays {s s' : State} (h : Frame s s') : Stays s s' :=
  ⟨h.activation, h.ev_signal, h.live, h.length, h.version, h.queues⟩

/-- A part of a turn, which turns every event but the internal one into `f` of it. -/
structure Passes (s : State) (f : Event → Event) (s' : State) : Prop where
  stays : Stays s s'
  mem : ∀ x, x ≠ s.ev_signal → s'.mem x = f (s.mem x)
  locals : s'.locals = none
  good : Good s'

theorem Passes.trans {s t u : State} {f g : Event → Event} (h : Passes s f t)
    (h' : Passes t g u) : Passes s (fun ev => g (f ev)) u where
  stays := h.stays.trans h'.stays
  mem x hx := by rw [h'.mem x (by rw [h.stays.ev_signal]; exact hx), h.mem x hx]
  locals := h'.locals
  good := h'.good

theorem Acts.passes {s s' : State} {f : Event → Event} (h : Acts s f s') : Passes s f s' :=
  ⟨h.frame.stays, fun x _ => h.mem x, h.locals, h.good⟩

theorem Settled.passes {s s' : State} (h : Settled s s') (hn : s.locals = none) :
    Passes s (fun ev => ev) s' :=
  ⟨⟨h.frame.activation, h.frame.ev_signal, h.frame.live, h.frame.length, h.frame.version,
    h.frame.queues⟩, h.mem, h.locals.trans hn, h.good⟩

/-- What the signal handlers count. -/
theorem Passes.sig {s : State} (hg : Good s) (hn : s.locals = none) (x : Signals)
    (hx : x.ev_signal_added = false → s.sig.ev_signal_added = false) :
    Passes s (fun ev => ev) { s with sig := x } :=
  ⟨⟨rfl, rfl, rfl, rfl, rfl, rfl⟩, fun _ _ => rfl, hn, hg.sig x hx⟩

/-- How often each signal was caught, with those that arrive now. -/
def State.arrived (s : State) (signals : List Nat) (sig : Nat) : Nat :=
  s.sig.evsigcaught sig + signals.count sig

/-- The counts go to the events at once (`counts`), or they stay. -/
def Counted (s : State) (signals : List Nat) (counts : Option (Nat → Nat)) (s' : State) : Prop :=
  counts = none ∧ s'.sig.evsigcaught = s.arrived signals ∨
    counts = some (s.arrived signals) ∧ s'.sig.evsigcaught = fun _ => 0

theorem arrived_passes {s : State} (hg : Good s) (hn : s.locals = none) (signals : List Nat) :
    Passes s (fun ev => ev) (signals.foldl evsignalHandler s) ∧
      (signals.foldl evsignalHandler s).sig.evsigcaught = s.arrived signals := by
  rw [foldl_evsignalHandler]
  exact ⟨.sig hg hn _ id, rfl⟩

theorem process_passes {s : State} (hg : Good s) (hn : s.locals = none) (b : Bool) :
    ∃ s', (if b then evsignalProcess s else some s) = some s' ∧
      Passes s (fun ev => if b then ev.caught s.sig.evsigcaught else ev) s' ∧
      s'.sig.evsigcaught = if b then fun _ => 0 else s.sig.evsigcaught := by
  cases b with
  | true =>
    obtain ⟨s₁, s', h, ha, rfl⟩ := evsignalProcess_spec hg hn
    have p : Passes s₁ (fun ev => ev) { s₁ with sig := { s₁.sig with
        evsigcaught := fun _ => 0, evsignal_caught := false } } := .sig ha.good ha.locals _ id
    exact ⟨_, h, ha.passes.trans p, rfl⟩
  | false => exact ⟨s, rfl, (Acts.refl hg hn).passes, rfl⟩

def Wait.reports : Wait → List Report
  | .ready reports => reports
  | _ => []

/-- The reports count where `epoll_dispatch` does not fail. -/
theorem epollDispatch_spec {s : State} (hg : Good s) (hn : s.locals = none) (signals : List Nat)
    (w : Wait) (hw : ∀ r ∈ w.reports, r.version = s.epoll.version ∧ r.index < s.epoll.fds.length) :
    ∃ s' res counts reports, epollDispatch s signals w = some (s', res) ∧
      Counted s signals counts s' ∧
      (if res = -1 then counts = none ∧ reports = [] else reports = w.reports) ∧
      Passes s (fun ev =>
        reports.foldl Event.dispatched (counts.elim ev fun c => ev.caught c)) s' := by
  obtain ⟨p₀, c₀⟩ := arrived_passes hg hn signals
  obtain ⟨s₁, res, h₁, d₁, -⟩ := evsignalRecalc_spec p₀.good
  have p₁ := p₀.trans (d₁.passes p₀.locals)
  have c₁ : s₁.sig.evsigcaught = s.arrived signals := d₁.frame.evsigcaught.trans c₀
  rw [epollDispatch, h₁, Option.bind_some]
  simp only
  split
  next => exact ⟨s₁, -1, none, [], rfl, .inl ⟨rfl, c₁⟩, ⟨rfl, rfl⟩, p₁⟩
  next =>
    cases w with
    | failed => exact ⟨s₁, -1, none, [], rfl, .inl ⟨rfl, c₁⟩, ⟨rfl, rfl⟩, p₁⟩
    | interrupted =>
      obtain ⟨s₂, h₂, p₂, c₂⟩ := process_passes p₁.good p₁.locals true
      rw [if_pos rfl] at h₂
      refine ⟨s₂, 0, some (s.arrived signals), [], by rw [h₂]; rfl, .inr ⟨rfl, c₂⟩, rfl, ?_⟩
      rw [← c₁]
      exact p₁.trans p₂
    | ready reports =>
      obtain ⟨s₂, h₂, p₂, c₂⟩ := process_passes p₁.good p₁.locals s₁.sig.evsignal_caught
      have p₃ := p₁.trans p₂
      obtain ⟨s', h', a'⟩ := @foldlM_dispatchOne reports _ p₂.good p₂.locals fun r hr => by
        rw [p₃.stays.version, p₃.stays.length]
        exact hw r hr
      refine ⟨s', 0, if s₁.sig.evsignal_caught then some (s.arrived signals) else none, reports,
        by simp only [h₂, Option.bind_some, h', Option.map_some], ?_, rfl, ?_⟩
      · rw [Counted, a'.frame.evsigcaught, c₂, c₁]
        cases s₁.sig.evsignal_caught
        · exact .inl ⟨rfl, rfl⟩
        · exact .inr ⟨rfl, rfl⟩
      · have p₄ := p₃.trans a'.passes
        rw [c₁] at p₄
        cases hb : s₁.sig.evsignal_caught with
        | false => simpa [hb] using p₄
        | true => simpa [hb] using p₄

/-! ### `event_base_loop` -/

/-- What happens to the events in one turn: how far the clock went back, the signals
that are counted, the descriptors that are ready, and the time. -/
structure Pass where
  off : Option Timeval
  counts : Option (Nat → Nat)
  reports : List Report
  later : Option Timeval

def Pass.apply (p : Pass) (ev : Event) : Event :=
  let ev := p.off.elim ev fun off => ev.corrected off
  let ev := p.counts.elim ev fun counts => ev.caught counts
  let ev := p.reports.foldl Event.dispatched ev
  p.later.elim ev fun now => ev.expired now

/-- How far the clock went back. -/
def wentBack (s : State) (now : Timeval) : Option Timeval :=
  if now.lt s.event_tv then some (s.event_tv.sub now) else none

theorem Good.clock_set {s : State} (h : Good s) {now : Timeval} (hnow : now.Valid) :
    Good { s with event_tv := now } :=
  ⟨h.wf, h.ok, h.table, h.running, h.tidy, hnow,
    ⟨h.pipe.init, h.pipe.events, h.pipe.live, h.pipe.alone, h.pipe.first⟩⟩

theorem Good.gotterm {s : State} (h : Good s) (b : Bool) : Good { s with event_gotterm := b } :=
  ⟨h.wf, h.ok, h.table, h.running, h.tidy, h.clock,
    ⟨h.pipe.init, h.pipe.events, h.pipe.live, h.pipe.alone, h.pipe.first⟩⟩

theorem correct_passes {s : State} {now : Timeval} (hg : Good s) (hn : s.locals = none)
    (hnow : now.Valid) :
    ∃ s', (if now.lt s.event_tv then timeoutCorrect s (s.event_tv.sub now) else some s) = some s' ∧
      Passes s (fun ev => (wentBack s now).elim ev fun off => ev.corrected off)
        { s' with event_tv := now } ∧ s'.sig = s.sig ∧ s'.qs = s.qs := by
  rw [wentBack]
  split
  next hlt =>
    obtain ⟨m, h, hm, hgm⟩ := timeoutCorrect_spec hg (hg.clock.sub hnow)
    exact ⟨_, h, ⟨⟨rfl, rfl, rfl, rfl, rfl, rfl⟩, fun x _ => hm x, hn, hgm.clock_set hnow⟩,
      rfl, rfl⟩
  next => exact ⟨s, rfl, ⟨⟨rfl, rfl, rfl, rfl, rfl, rfl⟩, fun _ _ => rfl, hn, hg.clock_set hnow⟩, rfl, rfl⟩

/-- What a turn that comes to its end has done, and one that does not. -/
def Pass.Of (p : Pass) (s : State) (now later : Timeval) (w : Wait) (t : Turn) : Prop :=
  if t = .turned then p.off = wentBack s now ∧ p.reports = w.reports ∧ p.later = some later
  else p.counts = none ∧ p.reports = [] ∧ p.later = none

/-- A turn of the loop uses no dead pointer, and treats every event by itself. It ends at its top
where a signal was added that has no handler. -/
theorem turn_spec {s : State} {now : Timeval} (hg : Good s) (hn : s.locals = none)
    (hnow : now.Valid) (later : Timeval) (signals : List Nat) (w : Wait)
    (hw : ∀ r ∈ w.reports, r.version = s.epoll.version ∧ r.index < s.epoll.fds.length) :
    ∃ s' t, ∃ p : Pass, turn s now later signals w = some (s', t) ∧ p.Of s now later w t ∧
      Counted s signals p.counts s' ∧ Passes s p.apply s' ∧ (¬AllHandled s → t = .failed) := by
  obtain ⟨s₁, res, h₁, d₁, hres⟩ := evsignalRecalc_spec hg
  have p₁ := d₁.passes hn
  have c₁ : s₁.sig.evsigcaught = s.sig.evsigcaught := d₁.frame.evsigcaught
  have early : ∀ s₂ : State, Passes s (fun ev => ev) s₂ → s₂.sig.evsigcaught = s.sig.evsigcaught →
      Counted s signals none (signals.foldl evsignalHandler s₂) ∧
        Passes s (Pass.apply ⟨none, none, [], none⟩) (signals.foldl evsignalHandler s₂) := by
    intro s₂ p₂ c₂
    obtain ⟨p₃, c₃⟩ := arrived_passes p₂.good p₂.locals signals
    refine ⟨.inl ⟨rfl, c₃.trans (funext fun sig => ?_)⟩, p₂.trans p₃⟩
    simp only [State.arrived, c₂]
  rw [turn, h₁, Option.bind_some]
  simp only
  split
  next hfail =>
    obtain ⟨c₂, p₂⟩ := early s₁ p₁ c₁
    exact ⟨_, .failed, ⟨none, none, [], none⟩, rfl, ⟨rfl, rfl, rfl⟩, c₂, p₂, fun _ => rfl⟩
  next hok =>
  have hall : ¬AllHandled s → False := fun h => hok (hres.mpr h)
  cases hterm : s₁.event_gotterm with
  | true =>
    have p₀ : Passes s₁ (fun ev => ev) { s₁ with event_gotterm := false } :=
      ⟨⟨rfl, rfl, rfl, rfl, rfl, rfl⟩, fun _ _ => rfl, p₁.locals, p₁.good.gotterm false⟩
    obtain ⟨c₂, p₂⟩ := early _ (p₁.trans p₀) c₁
    exact ⟨_, .terminated, ⟨none, none, [], none⟩, if_pos rfl, ⟨rfl, rfl, rfl⟩, c₂, p₂,
      fun h => (hall h).elim⟩
  | false =>
    rw [if_neg Bool.false_ne_true]
    obtain ⟨s₂, h₂, p₂, e₂, -⟩ := correct_passes p₁.good p₁.locals hnow
    have p₃ := p₁.trans p₂
    have c₃ : State.arrived { s₂ with event_tv := now } signals = s.arrived signals := by
      funext sig
      simp only [State.arrived, e₂, c₁]
    rw [h₂, Option.bind_some]
    split
    next =>
      obtain ⟨p₄, c₄⟩ := arrived_passes p₂.good p₂.locals signals
      exact ⟨_, .noEvents, ⟨wentBack s₁ now, none, [], none⟩, rfl, ⟨rfl, rfl, rfl⟩,
        .inl ⟨rfl, c₄.trans c₃⟩, p₃.trans p₄, fun h => (hall h).elim⟩
    next =>
      obtain ⟨s₄, res, counts, reports, h₄, c₄, hf, p₄⟩ :=
        epollDispatch_spec p₂.good p₂.locals signals w fun r hr => by
          rw [p₃.stays.version, p₃.stays.length]
          exact hw r hr
      rw [Counted, c₃] at c₄
      rw [h₄, Option.bind_some]
      simp only
      split
      next hres =>
        rw [if_pos hres] at hf
        exact ⟨_, .failed, ⟨wentBack s₁ now, counts, reports, none⟩, rfl, ⟨hf.1, hf.2, rfl⟩, c₄,
          p₃.trans p₄, fun _ => rfl⟩
      next hres =>
        rw [if_neg hres] at hf
        obtain ⟨s₅, h₅, d₅⟩ := timeoutProcess_spec p₄.good p₄.locals later
        refine ⟨s₅, .turned, ⟨wentBack s₁ now, counts, reports, some later⟩, by rw [h₅]; rfl,
          ⟨?_, hf, rfl⟩, ?_, (p₃.trans p₄).trans d₅.acts.passes, fun h => (hall h).elim⟩
        · rw [wentBack, wentBack, d₁.frame.event_tv]
        · rw [Counted, d₅.acts.frame.evsigcaught]
          exact c₄

/-! ### What becomes active -/

/-- A signal was caught, a descriptor is ready, or the time has come. -/
def Pass.activates (p : Pass) (ev : Event) : Prop :=
  (ev.flags.signal = true ∧ ∃ c, p.counts = some c ∧ c ev.fd.toNat ≠ 0) ∨
    (∃ r ∈ p.reports, r.reads ev = true ∨ r.writes ev = true) ∨
    ev.flags.timeout = true ∧ ∃ now, p.later = some now ∧
      now.lt (p.off.elim ev fun off => ev.corrected off).timeout = false

theorem fired_active (ev : Event) (keep : Bool) (res : What) (n : Nat) :
    (ev.fired keep res n).flags.active = true := by
  rw [Event.fired, Event.activated_flags]
  rfl

theorem dispatched_active {ev : Event} (rs : List Report) (h : ev.flags.active = true) :
    (rs.foldl Event.dispatched ev).flags.active = true := by
  induction rs generalizing ev with
  | nil => exact h
  | cons r rs ih =>
    refine ih ?_
    rw [Event.dispatched]
    split
    · exact fired_active ..
    · exact h

/-- The first report that names the event makes it active, and none does so else. -/
theorem dispatched_cases (rs : List Report) (ev : Event) :
    if ∃ r ∈ rs, r.reads ev = true ∨ r.writes ev = true then
      (rs.foldl Event.dispatched ev).flags.active = true
    else rs.foldl Event.dispatched ev = ev := by
  induction rs with
  | nil => simp
  | cons r rs ih =>
    rw [List.foldl_cons]
    by_cases h : r.reads ev = true ∨ r.writes ev = true
    · rw [if_pos ⟨r, .head _, h⟩]
      refine dispatched_active rs ?_
      rw [Event.dispatched, if_pos (by simpa using h)]
      exact fired_active ..
    · rw [show ev.dispatched r = ev by rw [Event.dispatched, if_neg (by simpa using h)]]
      simp only [List.mem_cons, exists_eq_or_imp, h, false_or]
      exact ih

theorem expired_active {ev : Event} (now : Timeval) (h : ev.flags.active = true) :
    (ev.expired now).flags.active = true := by
  rw [Event.expired]
  split
  · exact fired_active ..
  · exact h

theorem corrected_alike (o : Option Timeval) (ev : Event) :
    (o.elim ev fun off => ev.corrected off).flags = ev.flags ∧
      (o.elim ev fun off => ev.corrected off).fd = ev.fd ∧
      (o.elim ev fun off => ev.corrected off).events = ev.events := by
  cases o with
  | none => exact ⟨rfl, rfl, rfl⟩
  | some off =>
    rw [Option.elim_some, Event.corrected]
    split <;> exact ⟨rfl, rfl, rfl⟩

/-- A turn makes an event active for just these reasons, and else leaves it as it is but for
the correction of its time. -/
theorem apply_cases (p : Pass) (ev : Event) :
    (p.activates ev ∧ (p.apply ev).flags.active = true) ∨
      ¬p.activates ev ∧ p.apply ev = p.off.elim ev fun off => ev.corrected off := by
  obtain ⟨hfl, hfd, hev⟩ := corrected_alike p.off ev
  rw [Pass.activates, Pass.apply]
  generalize (p.off.elim ev fun off => ev.corrected off) = ev₁ at hfl hfd hev ⊢
  have hreads : ∀ r : Report, r.reads ev = r.reads ev₁ ∧ r.writes ev = r.writes ev₁ := fun r => by
    simp [Report.reads, Report.writes, Event.reads, Event.writes, hfl, hfd, hev]
  have hlater : ∀ e : Event, e.flags.active = true →
      (p.later.elim e fun now => e.expired now).flags.active = true := fun e he => by
    cases p.later with
    | none => exact he
    | some now => exact expired_active now he
  rw [← hfl, ← hfd]
  simp only [hreads]
  by_cases h₁ : ev₁.flags.signal = true ∧ ∃ c, p.counts = some c ∧ c ev₁.fd.toNat ≠ 0
  · obtain ⟨hs, c, hc, h0⟩ := id h₁
    refine .inl ⟨.inl h₁, hlater _ (dispatched_active _ ?_)⟩
    rw [hc, Option.elim_some, Event.caught, if_pos (by simp [hs, h0])]
    exact fired_active ..
  · have hid : (p.counts.elim ev₁ fun c => ev₁.caught c) = ev₁ := by
      cases hc : p.counts with
      | none => rfl
      | some c =>
        rw [Option.elim_some, Event.caught, if_neg]
        intro h
        rw [Bool.and_eq_true, bne_iff_ne] at h
        exact h₁ ⟨h.1, c, hc, h.2⟩
    simp only [hid]
    have hd := dispatched_cases p.reports ev₁
    split at hd
    next h₂ => exact .inl ⟨.inr (.inl h₂), hlater _ hd⟩
    next h₂ =>
      rw [hd]
      cases hl : p.later with
      | none => exact .inr ⟨by simp [h₁, h₂], rfl⟩
      | some now =>
        rw [Option.elim_some, Event.expired]
        split
        next h₃ =>
          rw [Bool.and_eq_true, Bool.not_eq_true'] at h₃
          exact .inl ⟨.inr (.inr ⟨h₃.1, now, rfl, h₃.2⟩), fired_active ..⟩
        next h₃ =>
          refine .inr ⟨?_, rfl⟩
          rintro (h | h | ⟨ht, now', e, h⟩)
          · exact h₁ h
          · exact h₂ h
          · cases e
            exact h₃ (by simp [ht, h])

end FilesEvent.Net
