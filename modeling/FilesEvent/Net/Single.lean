import FilesEvent.Net.Turn

/-! One event by itself. Whatever the others do, the event follows a small automaton:
`Acted` tells what a step of the machine can do to it. -/

namespace FilesEvent.Net
open What

/-- An event, the calls of its callback that the running loop is still to make, and the
signals that were caught. -/
structure View where
  ev : Event
  left : Nat
  caught : Nat → Nat

def State.left (s : State) (a : Addr) : Nat :=
  s.locals.elim 0 fun l => if l.ev = a then l.ncalls else 0

def State.view (s : State) (a : Addr) : View := ⟨s.mem a, s.left a, s.sig.evsigcaught⟩

/-- The signals that arrive in a step. -/
def Step.signals : Step → List Nat
  | .signal sig => [sig]
  | .turn _ _ signals _ => signals
  | _ => []

/-- An event after `event_set`. -/
def Event.reset (ev : Event) (fd : Int) (events : What) (pri : Nat) : Event :=
  { ev with fd := fd, events := events, ncalls := 0, pncalls := none, pri := pri, flags := .fresh }

/-- An event that `event_process_active` took off its queue. -/
def Event.started (ev : Event) (activation : Nat) : Event :=
  { ev with flags := ev.flags.set .active false, pncalls := some activation }

/-- The signals that were caught go to the events with `counts`, or they stay. -/
def Gathered (signals : List Nat) (counts : Option (Nat → Nat)) (caught caught' : Nat → Nat) :
    Prop :=
  counts = none ∧ (∀ sig, caught' sig = caught sig + signals.count sig) ∨
    (∃ c, counts = some c ∧ ∀ sig, c sig = caught sig + signals.count sig) ∧ ∀ sig, caught' sig = 0

/-- What a step can do to the event `a`. -/
inductive Acted (a : Addr) : Step → View → View → Prop
  | same {st : Step} {v : View} (hl : st = .invoke → v.left = 0) (hs : st.signals = []) :
      Acted a st v v
  | set {fd : Int} {events : What} {pri : Nat} {v : View} (hq : ∀ q, v.ev.flags.get q = false)
      (hl : v.left = 0) :
      Acted a (.call (.set a fd events)) v { v with ev := v.ev.reset fd events pri }
  | priority {c : Call} {pri : Nat} {v : View} :
      Acted a (.call c) v { v with ev := { v.ev with pri := pri } }
  | add {now : Timeval} {tv : Option Timeval} {v : View} :
      Acted a (.call (.add a now tv)) v { v with ev := v.ev.added now tv }
  | del {v : View} : Acted a (.call (.del a)) v { v with ev := v.ev.deleted, left := 0 }
  | active {res : What} {n : Nat} {v : View} (hl : v.left = 0) :
      Acted a (.call (.active a res n)) v { v with ev := v.ev.activated res n }
  | signal {sig : Nat} {v : View} :
      Acted a (.signal sig) v
        { v with caught := Function.update v.caught sig (v.caught sig + 1) }
  | turn {now later : Timeval} {signals : List Nat} {w : Wait} {p : Pass} {v : View}
      {caught : Nat → Nat} (hl : v.left = 0) (hc : Gathered signals p.counts v.caught caught) :
      Acted a (.turn now later signals w) v ⟨p.apply v.ev, 0, caught⟩
  | turnStart {now later : Timeval} {signals : List Nat} {w : Wait} {p : Pass} {v : View}
      {caught : Nat → Nat} {k : Nat} (hl : v.left = 0)
      (hc : Gathered signals p.counts v.caught caught)
      (ha : (p.apply v.ev).flags.active = true) :
      Acted a (.turn now later signals w) v
        ⟨(p.apply v.ev).started k, (p.apply v.ev).ncalls, caught⟩
  | invoke {v : View} (hl : v.left ≠ 0) :
      Acted a .invoke v { v with ev := { v.ev with ncalls := v.left - 1 }, left := v.left - 1 }
  | next {v : View} {k : Nat} (hl : v.left = 0) (ha : v.ev.flags.active = true) :
      Acted a .next v { v with ev := v.ev.started k, left := v.ev.ncalls }

/-- The callback of the event is called. -/
def View.calls (v : View) : Step → Nat
  | .invoke => if v.left = 0 then 0 else 1
  | _ => 0

/-- How many calls of the callback the application asks for. -/
def Step.requests (a : Addr) : Step → Nat
  | .call (.add b _ _) => if b = a then 1 else 0
  | .call (.active b _ n) => if b = a then n else 0
  | _ => 0

/-- The application asks for the event. -/
def Step.asks (a : Addr) : Step → Prop
  | .call (.add b _ _) => b = a
  | .call (.active b _ _) => b = a
  | _ => False

/-- The descriptor, the kind and the priority of an event are the same. -/
structure Event.Alike (ev ev' : Event) : Prop where
  fd : ev'.fd = ev.fd
  events : ev'.events = ev.events
  pri : ev'.pri = ev.pri

theorem Event.Alike.trans {a b c : Event} (h : a.Alike b) (h' : b.Alike c) : a.Alike c :=
  ⟨h'.fd.trans h.fd, h'.events.trans h.events, h'.pri.trans h.pri⟩

theorem alike_fired (ev : Event) (keep : Bool) (res : What) (n : Nat) :
    ev.Alike (ev.fired keep res n) :=
  let ⟨h₁, h₂, h₃, _⟩ := fired_other ev keep res n
  ⟨h₁, h₂, h₃⟩

theorem alike_dispatched (rs : List Report) (ev : Event) :
    ev.Alike (rs.foldl Event.dispatched ev) := by
  induction rs generalizing ev with
  | nil => exact ⟨rfl, rfl, rfl⟩
  | cons r rs ih =>
    refine .trans ?_ (ih _)
    rw [Event.dispatched]
    split
    · exact alike_fired ..
    · exact ⟨rfl, rfl, rfl⟩

theorem alike_apply (p : Pass) (ev : Event) : ev.Alike (p.apply ev) := by
  have h₁ : ∀ ev : Event, ev.Alike (p.off.elim ev fun off => ev.corrected off) := fun ev => by
    cases p.off with
    | none => exact ⟨rfl, rfl, rfl⟩
    | some off =>
      rw [Option.elim_some, Event.corrected]
      split <;> exact ⟨rfl, rfl, rfl⟩
  have h₂ : ∀ ev : Event, ev.Alike (p.counts.elim ev fun c => ev.caught c) := fun ev => by
    cases p.counts with
    | none => exact ⟨rfl, rfl, rfl⟩
    | some c =>
      rw [Option.elim_some, Event.caught]
      split
      · exact alike_fired ..
      · exact ⟨rfl, rfl, rfl⟩
  have h₄ : ∀ ev : Event, ev.Alike (p.later.elim ev fun now => ev.expired now) := fun ev => by
    cases p.later with
    | none => exact ⟨rfl, rfl, rfl⟩
    | some now =>
      rw [Option.elim_some, Event.expired]
      split
      · exact alike_fired ..
      · exact ⟨rfl, rfl, rfl⟩
  exact (((h₁ _).trans (h₂ _)).trans (alike_dispatched _ _)).trans (h₄ _)

/-! ### An event that nothing is wanted of -/

/-- The event is in no queue, and no call of it is left. -/
structure Quiet (v : View) : Prop where
  flags : ∀ q, v.ev.flags.get q = false
  left : v.left = 0

theorem apply_quiet {ev : Event} (h : ∀ q, ev.flags.get q = false) (p : Pass) :
    p.apply ev = ev := by
  have hin : ev.flags.inserted = false := h .inserted
  have hsi : ev.flags.signal = false := h .signal
  have hto : ev.flags.timeout = false := h .timeout
  have h₁ : p.off.elim ev (fun off => ev.corrected off) = ev := by
    cases p.off <;> simp [Event.corrected, hto]
  have h₂ : p.counts.elim ev (fun c => ev.caught c) = ev := by
    cases p.counts <;> simp [Event.caught, hsi]
  have h₃ : ∀ rs : List Report, rs.foldl Event.dispatched ev = ev := fun rs => by
    induction rs with
    | nil => rfl
    | cons r rs ih =>
      rw [List.foldl_cons, Event.dispatched]
      simp [Report.reads, Report.writes, Event.reads, Event.writes, hin, ih]
  have h₄ : p.later.elim ev (fun now => ev.expired now) = ev := by
    cases p.later <;> simp [Event.expired, hto]
  simp only [Pass.apply, h₁, h₂, h₃, h₄]

theorem Acted.quiet {a : Addr} {st : Step} {v v' : View} (h : Acted a st v v') (hv : Quiet v)
    (hst : ¬st.asks a) : Quiet v' := by
  have hact : v.ev.flags.active = false := hv.flags .active
  cases h with
  | same _ _ => exact hv
  | set hq hl => exact ⟨fun q => by cases q <;> rfl, hl⟩
  | priority => exact ⟨hv.flags, hv.left⟩
  | add => exact absurd rfl hst
  | del => exact ⟨fun q => Flags.get_off _ q, rfl⟩
  | active => exact absurd rfl hst
  | signal => exact ⟨hv.flags, hv.left⟩
  | turn hl hc => exact ⟨by rw [apply_quiet hv.flags]; exact hv.flags, rfl⟩
  | turnStart hl hc ha =>
    rw [apply_quiet hv.flags, hact] at ha
    cases ha
  | invoke hl => exact absurd hv.left hl
  | next hl ha =>
    rw [hact] at ha
    cases ha

/-! ### An event that is not persistent -/

/-- The event stays in no queue when it becomes active. -/
structure OneShot (ev : Event) : Prop where
  persist : ev.events.persist = false
  signal : ev.flags.signal = false

/-- How often the callback can be called before it is asked for again. -/
def Event.due (ev : Event) : Nat :=
  (if ev.flags.active then ev.ncalls else 0) + (ev.flags.inserted || ev.flags.timeout).toNat

theorem fired_due {ev : Event} (res : What) (h : OneShot ev)
    (hw : (ev.flags.inserted || ev.flags.timeout) = true) :
    OneShot (ev.fired false res 1) ∧ (ev.fired false res 1).due ≤ ev.due := by
  have hfl : (ev.fired false res 1).flags = ev.flags.off.set .active true :=
    Event.activated_flags ev.deleted res 1
  have hnc : (ev.fired false res 1).ncalls = 1 := rfl
  refine ⟨⟨h.persist, by rw [hfl]; rfl⟩, ?_⟩
  rw [Event.due, Event.due, hfl, hnc, hw]
  simp [Flags.off, Flags.set]

theorem dispatched_due {ev : Event} (h : OneShot ev) (r : Report) :
    OneShot (ev.dispatched r) ∧ (ev.dispatched r).due ≤ ev.due := by
  rw [Event.dispatched]
  split
  next hr =>
    have hin : ev.flags.inserted = true := by
      rw [Bool.or_eq_true] at hr
      rcases hr with hr | hr
      · simp only [Report.reads, Event.reads, Bool.and_eq_true] at hr
        exact hr.1.2.1
      · simp only [Report.writes, Event.writes, Bool.and_eq_true] at hr
        exact hr.1.2.1
    rw [h.persist]
    exact fired_due _ h (by rw [hin]; rfl)
  next => exact ⟨h, Nat.le_refl _⟩

/-- No turn of the loop makes the callback be called more often. -/
theorem apply_due {ev : Event} (h : OneShot ev) (p : Pass) :
    OneShot (p.apply ev) ∧ (p.apply ev).due ≤ ev.due := by
  have h₁ : OneShot (p.off.elim ev fun off => ev.corrected off) ∧
      (p.off.elim ev fun off => ev.corrected off).due ≤ ev.due := by
    cases p.off with
    | none => exact ⟨h, Nat.le_refl _⟩
    | some off =>
      rw [Option.elim_some, Event.corrected]
      split
      · exact ⟨⟨h.persist, h.signal⟩, Nat.le_refl _⟩
      · exact ⟨h, Nat.le_refl _⟩
  rw [Pass.apply]
  generalize (p.off.elim ev fun off => ev.corrected off) = ev₁ at h₁ ⊢
  obtain ⟨o₁, d₁⟩ := h₁
  have h₂ : (p.counts.elim ev₁ fun c => ev₁.caught c) = ev₁ := by
    cases p.counts <;> simp [Event.caught, o₁.signal]
  have h₃ : ∀ rs : List Report, ∀ ev₁, OneShot ev₁ → OneShot (rs.foldl Event.dispatched ev₁) ∧
      (rs.foldl Event.dispatched ev₁).due ≤ ev₁.due := by
    intro rs
    induction rs with
    | nil => exact fun ev₁ h => ⟨h, Nat.le_refl _⟩
    | cons r rs ih =>
      intro ev₁ h
      obtain ⟨o, d⟩ := dispatched_due h r
      obtain ⟨o', d'⟩ := ih _ o
      exact ⟨o', d'.trans d⟩
  simp only [h₂]
  obtain ⟨o₃, d₃⟩ := h₃ p.reports ev₁ o₁
  generalize p.reports.foldl Event.dispatched ev₁ = ev₃ at o₃ d₃ ⊢
  cases p.later with
  | none => exact ⟨o₃, d₃.trans d₁⟩
  | some now =>
    rw [Option.elim_some, Event.expired]
    split
    next hto =>
      rw [Bool.and_eq_true] at hto
      obtain ⟨o₄, d₄⟩ := fired_due EV_TIMEOUT o₃ (by rw [hto.1]; simp)
      exact ⟨o₄, d₄.trans (d₃.trans d₁)⟩
    next => exact ⟨o₃, d₃.trans d₁⟩

/-- How often the callback can be called, with the calls that the loop is about to make. -/
def View.due (v : View) : Nat := v.ev.due + v.left

/-- The application does not set the event as a persistent one or for a signal. -/
def Step.oneShot (a : Addr) : Step → Prop
  | .call (.set b _ events) => b = a → events.persist = false ∧ events.signal = false
  | _ => True

theorem added_due (ev : Event) (now : Timeval) (tv : Option Timeval) :
    (ev.added now tv).due ≤ ev.due + 1 := by
  have hk := keeps_added ev now tv
  have hw := Bool.toNat_le ((ev.added now tv).flags.inserted || (ev.added now tv).flags.timeout)
  rw [Event.due, Event.due, hk.ncalls]
  cases h : (ev.added now tv).flags.active with
  | true =>
    rw [hk.active h]
    omega
  | false =>
    rw [if_neg Bool.false_ne_true]
    omega

theorem added_oneShot {ev : Event} (now : Timeval) (tv : Option Timeval) (h : OneShot ev)
    (hs : ev.events.signal = false) :
    OneShot (ev.added now tv) ∧ (ev.added now tv).events.signal = false := by
  have hk := keeps_added ev now tv
  refine ⟨⟨by rw [hk.events, h.persist], ?_⟩, by rw [hk.events, hs]⟩
  cases hsi : (ev.added now tv).flags.signal with
  | false => rfl
  | true =>
    rcases hk.signal hsi with h' | h'
    · exact h'.symm.trans h.signal
    · exact h'.symm.trans hs

theorem activated_due (ev : Event) (res : What) (n : Nat) :
    (ev.activated res n).due ≤ ev.due + n := by
  have hfl := ev.activated_flags res n
  have hin : (ev.activated res n).flags.inserted = ev.flags.inserted := by rw [hfl]; rfl
  have hto : (ev.activated res n).flags.timeout = ev.flags.timeout := by rw [hfl]; rfl
  have hact : (ev.activated res n).flags.active = true := by rw [hfl]; rfl
  rw [Event.due, Event.due, hin, hto, hact, if_pos rfl, Event.activated]
  cases ev.flags.active with
  | true =>
    rw [if_pos rfl, if_pos rfl]
    exact Nat.le_add_right _ _
  | false =>
    rw [if_neg Bool.false_ne_true, if_neg Bool.false_ne_true]
    simp only
    omega

theorem started_due {ev : Event} (h : OneShot ev) (ha : ev.flags.active = true) (k : Nat) :
    OneShot (ev.started k) ∧ (ev.started k).due + ev.ncalls = ev.due := by
  refine ⟨⟨h.persist, h.signal⟩, ?_⟩
  have hd : (ev.started k).due = (ev.flags.inserted || ev.flags.timeout).toNat := by
    rw [Event.due]
    simp [Event.started, Flags.set]
  rw [hd, Event.due, ha, if_pos rfl, Nat.add_comm]

structure Once (v : View) : Prop where
  ev : OneShot v.ev
  events : v.ev.events.signal = false
  once : v.left ≠ 0 → v.ev.flags.active = false

/-- No step calls the callback more often than it was due or asked for. -/
theorem Acted.due {a : Addr} {st : Step} {v v' : View} (h : Acted a st v v') (hv : Once v)
    (hst : st.oneShot a) : Once v' ∧ v'.due + v.calls st ≤ v.due + st.requests a := by
  have hevents : ∀ p : Pass, (p.apply v.ev).events = v.ev.events := fun p => (alike_apply p v.ev).events
  obtain ⟨ho, hs, honce⟩ := hv
  cases h with
  | same hl _ =>
    refine ⟨⟨ho, hs, honce⟩, ?_⟩
    have hc : v.calls st = 0 := by
      cases st with
      | invoke => exact if_pos (hl rfl)
      | _ => rfl
    omega
  | set hq hl =>
    obtain ⟨hp, hsi⟩ := hst rfl
    exact ⟨⟨⟨hp, rfl⟩, hsi, fun _ => rfl⟩,
      by simp [View.due, Event.due, Event.reset, Flags.fresh, hl, View.calls]⟩
  | priority =>
    exact ⟨⟨⟨ho.persist, ho.signal⟩, hs, honce⟩, Nat.le_add_right _ _⟩
  | @add now tv _ =>
    obtain ⟨ho', hs'⟩ := added_oneShot now tv ho hs
    have hd := added_due v.ev now tv
    refine ⟨⟨ho', hs', fun hl => ?_⟩, ?_⟩
    · exact Bool.eq_false_iff.mpr fun h' =>
        absurd ((honce hl).symm.trans ((keeps_added v.ev now tv).active h')) nofun
    · simp only [View.due, View.calls, Step.requests, if_pos]
      omega
  | del =>
    refine ⟨⟨⟨ho.persist, rfl⟩, hs, fun _ => rfl⟩, ?_⟩
    simp [View.due, Event.due, Event.deleted, Flags.off, View.calls]
  | @active res n _ hl =>
    have hd := activated_due v.ev res n
    have hev := (v.ev.activated_other res n).1
    refine ⟨⟨⟨by rw [hev, ho.persist], ?_⟩, by rw [hev, hs], fun h' => absurd hl h'⟩, ?_⟩
    · rw [Event.activated_flags]
      exact ho.signal
    · simp only [View.due, View.calls, Step.requests, if_pos]
      omega
  | signal => exact ⟨⟨ho, hs, honce⟩, Nat.le_add_right _ _⟩
  | @turn _ _ _ _ p _ _ hl hc =>
    obtain ⟨ho', hd⟩ := apply_due ho p
    refine ⟨⟨ho', by rw [hevents, hs], fun h' => absurd rfl h'⟩, ?_⟩
    simp only [View.due, View.calls, Step.requests]
    omega
  | @turnStart _ _ _ _ p _ _ k hl hc ha =>
    obtain ⟨ho', hd⟩ := apply_due ho p
    obtain ⟨ho₂, hd₂⟩ := started_due ho' ha k
    refine ⟨⟨ho₂, by rw [← hs, ← hevents p]; rfl, fun _ => rfl⟩, ?_⟩
    simp only [View.due, View.calls, Step.requests]
    omega
  | invoke hl =>
    have hact := honce hl
    refine ⟨⟨⟨ho.persist, ho.signal⟩, hs, fun _ => hact⟩, ?_⟩
    simp only [View.due, View.calls, if_neg hl, Step.requests, Event.due, hact, Bool.false_eq_true,
      if_false]
    omega
  | @next _ k hl ha =>
    obtain ⟨ho', hd⟩ := started_due ho ha k
    refine ⟨⟨ho', hs, fun _ => rfl⟩, ?_⟩
    simp only [View.due, View.calls, Step.requests]
    omega

/-! ### A signal that stays added -/

/-- How many calls are owed to the event: those that the loop is to make, those of its
activation, and those of the signals that no turn has handed on. -/
def View.owed (v : View) (sig : Nat) : Nat :=
  v.left + (if v.ev.flags.active then v.ev.ncalls else 0) + v.caught sig

/-- The event of a signal that was added for good, and for nothing else. -/
structure Watching (sig : Nat) (v : View) : Prop where
  fd : v.ev.fd = sig
  persist : v.ev.events.persist = true
  signal : v.ev.flags.signal = true
  inserted : v.ev.flags.inserted = false
  timeout : v.ev.flags.timeout = false
  internal : v.ev.flags.internal = false
  once : v.left ≠ 0 → v.ev.flags.active = false

/-- The step leaves the event to the loop. -/
def Step.leaves (a : Addr) : Step → Prop
  | .call (.set b _ _) | .call (.add b _ _) | .call (.del b) | .call (.active b _ _) => b ≠ a
  | _ => True

def Step.turns : Step → Prop
  | .turn .. => True
  | _ => False

/-- Fewer signals are counted in one turn than a `short` can tell apart. -/
def Step.few (sig : Nat) (v : View) (st : Step) : Prop :=
  v.caught sig + st.signals.count sig < 65536

theorem apply_watching {sig : Nat} {v : View} (h : Watching sig v) (p : Pass) :
    p.apply v.ev = p.counts.elim v.ev fun c => v.ev.caught c := by
  have h₁ : p.off.elim v.ev (fun off => v.ev.corrected off) = v.ev := by
    cases p.off <;> simp [Event.corrected, h.timeout]
  have hfl : (p.counts.elim v.ev fun c => v.ev.caught c).flags.inserted = false ∧
      (p.counts.elim v.ev fun c => v.ev.caught c).flags.timeout = false := by
    cases p.counts with
    | none => exact ⟨h.inserted, h.timeout⟩
    | some c =>
      rw [Option.elim_some, Event.caught]
      split
      · rw [Event.fired, Event.activated_flags, h.persist]
        exact ⟨h.inserted, h.timeout⟩
      · exact ⟨h.inserted, h.timeout⟩
  rw [Pass.apply]
  simp only [h₁]
  generalize (p.counts.elim v.ev fun c => v.ev.caught c) = ev at hfl ⊢
  have h₃ : ∀ rs : List Report, rs.foldl Event.dispatched ev = ev := fun rs => by
    induction rs with
    | nil => rfl
    | cons r rs ih =>
      rw [List.foldl_cons, Event.dispatched]
      simp [Report.reads, Report.writes, Event.reads, Event.writes, hfl.1, ih]
  rw [h₃]
  cases p.later <;> simp [Event.expired, hfl.2]

/-- A turn hands the signals that were caught on to the event, or keeps them. -/
theorem gathered_owed {sig : Nat} {v : View} {p : Pass} {signals : List Nat} {caught : Nat → Nat}
    (h : Watching sig v) (ha : v.ev.flags.active = false) (hl : v.left = 0)
    (hc : Gathered signals p.counts v.caught caught)
    (hn : v.caught sig + signals.count sig < 65536) :
    Watching sig ⟨p.apply v.ev, 0, caught⟩ ∧
      View.owed ⟨p.apply v.ev, 0, caught⟩ sig = v.owed sig + signals.count sig := by
  rw [apply_watching h]
  rcases hc with ⟨hc, hcaught⟩ | ⟨⟨c, hc, hcount⟩, hcaught⟩
  · rw [hc, Option.elim_none]
    refine ⟨⟨h.fd, h.persist, h.signal, h.inserted, h.timeout, h.internal, fun h' => absurd rfl h'⟩, ?_⟩
    simp only [View.owed, ha, hl, hcaught]
    simp
  · rw [hc, Option.elim_some]
    have hfd : v.ev.fd.toNat = sig := by rw [h.fd]; rfl
    rw [Event.caught, h.signal, hfd, Bool.true_and]
    by_cases h0 : c sig = 0
    · rw [h0]
      refine ⟨⟨h.fd, h.persist, h.signal, h.inserted, h.timeout, h.internal, fun h' => absurd rfl h'⟩, ?_⟩
      have := hcount sig
      simp [View.owed, ha, hl, hcaught]
      omega
    · rw [if_pos (bne_iff_ne.mpr h0)]
      have hfired : v.ev.fired v.ev.events.persist EV_SIGNAL (c sig % 65536) =
          { v.ev with res := EV_SIGNAL, ncalls := c sig % 65536, pncalls := none,
                      flags := v.ev.flags.set .active true } := by
        rw [Event.fired, h.persist, Event.activated]
        simp [ha]
      rw [hfired]
      refine ⟨⟨h.fd, h.persist, h.signal, h.inserted, h.timeout, h.internal, fun h' => absurd rfl h'⟩, ?_⟩
      rw [hcount, Nat.mod_eq_of_lt hn]
      simp [View.owed, Flags.set, ha, hl, hcaught]

theorem started_owed {sig : Nat} {v : View} (h : Watching sig v) (hl : v.left = 0)
    (ha : v.ev.flags.active = true) (k : Nat) :
    Watching sig { v with ev := v.ev.started k, left := v.ev.ncalls } ∧
      View.owed { v with ev := v.ev.started k, left := v.ev.ncalls } sig = v.owed sig := by
  refine ⟨⟨h.fd, h.persist, h.signal, h.inserted, h.timeout, h.internal, fun _ => rfl⟩, ?_⟩
  simp [View.owed, Event.started, Flags.set, ha, hl]

/-- No step loses a call that is owed to the event, or calls it once too often. -/
theorem Acted.owed {a : Addr} {sig : Nat} {st : Step} {v v' : View} (h : Acted a st v v')
    (hv : Watching sig v) (hst : st.leaves a) (hf : st.few sig v)
    (hout : st.turns → v.ev.flags.active = false) :
    Watching sig v' ∧ v'.owed sig + v.calls st = v.owed sig + st.signals.count sig := by
  cases h with
  | same hl hs =>
    refine ⟨hv, ?_⟩
    have hc : v.calls st = 0 := by
      cases st with
      | invoke => exact if_pos (hl rfl)
      | _ => rfl
    rw [hc, hs]
    rfl
  | set => exact absurd rfl hst
  | priority =>
    exact ⟨⟨hv.fd, hv.persist, hv.signal, hv.inserted, hv.timeout, hv.internal, hv.once⟩, rfl⟩
  | add => exact absurd rfl hst
  | del => exact absurd rfl hst
  | active => exact absurd rfl hst
  | @signal sig' _ =>
    refine ⟨⟨hv.fd, hv.persist, hv.signal, hv.inserted, hv.timeout, hv.internal, hv.once⟩, ?_⟩
    by_cases e : sig = sig'
    · subst e
      simp [View.owed, View.calls, Step.signals]
      omega
    · simp [View.owed, View.calls, Step.signals, e, Ne.symm e]
  | turn hl hc =>
    exact gathered_owed hv (hout trivial) hl hc hf
  | turnStart hl hc ha =>
    obtain ⟨hw, ho⟩ := gathered_owed hv (hout trivial) hl hc hf
    obtain ⟨hw', ho'⟩ := started_owed hw rfl ha _
    exact ⟨hw', ho'.trans ho⟩
  | invoke hl =>
    have hact := hv.once hl
    refine ⟨⟨hv.fd, hv.persist, hv.signal, hv.inserted, hv.timeout, hv.internal, fun _ => hact⟩, ?_⟩
    simp [View.owed, hact, View.calls, hl, Step.signals]
    omega
  | next hl ha => exact started_owed hv hl ha _

end FilesEvent.Net
