import FilesEvent.Net.Calls

/-! The loop of the event library: timers, signals, `epoll_dispatch`, and the calls
of the callbacks. -/

namespace FilesEvent.Net
open RedBlack What

/-! ### Timers -/

/-- `timeout_next`. -/
def timeoutNext (s : State) (now : Timeval) : Timeval :=
  match RB.minmax (-1) none s.qs.timetree with
  | none => ⟨5, 0⟩
  | some a => if !now.lt (s.mem a).timeout then ⟨0, 0⟩ else (s.mem a).timeout.sub now

/-- The loop of `timeout_correct` from the element `a` on. -/
def correctLoop (off : Timeval) : Nat → State → Option Addr → Option State
  | _, s, none => some s
  | 0, _, some _ => none
  | fuel + 1, s, some a =>
    let s := { s with mem := s.mem.set a { s.mem a with timeout := (s.mem a).timeout.sub off } }
    (RB.next a s.qs.timetree).bind fun next => correctLoop off fuel s next

/-- `timeout_correct`. -/
def timeoutCorrect (s : State) (off : Timeval) : Option State :=
  correctLoop off s.qs.timetree.size s (RB.minmax (-1) none s.qs.timetree)

/-- The loop of `timeout_process` from the element `a` on. -/
def processLoop (now : Timeval) : Nat → State → Option Addr → Option State
  | _, s, none => some s
  | 0, _, some _ => none
  | fuel + 1, s, some a =>
    if now.lt (s.mem a).timeout then some s
    else
      (RB.next a s.qs.timetree).bind fun next =>
      (eventQueueRemove s a .timeout).bind fun s =>
      (eventDel s a).bind fun s =>
      (eventActive s.1 a EV_TIMEOUT 1).bind fun s => processLoop now fuel s next

/-- `timeout_process`. -/
def timeoutProcess (s : State) (now : Timeval) : Option State :=
  processLoop now s.qs.timetree.size s (RB.minmax (-1) none s.qs.timetree)

/-! ### Signals -/

/-- `evsignal_handler`. -/
def evsignalHandler (s : State) (sig : Nat) : State :=
  { s with sig := { s.sig with
      evsigcaught := Function.update s.sig.evsigcaught sig (s.sig.evsigcaught sig + 1)
      evsignal_caught := true } }

/-- The body of the loop in `evsignal_process`. The count becomes a `short`. -/
def processSignal (s : State) (a : Addr) : Option State :=
  let ev := s.mem a
  if 0 ≤ ev.fd ∧ ev.fd < NSIG then
    let ncalls := s.sig.evsigcaught ev.fd.toNat
    if ncalls = 0 then some s
    else (if ev.events.persist then some s else (eventDel s a).map (·.1)).bind fun s =>
      eventActive s a EV_SIGNAL (ncalls % 65536)
  else none

/-- `evsignal_process`. The loop reads the next link of an event after the event may
have been unlinked, which leaves the link as it was. -/
def evsignalProcess (s : State) : Option State :=
  (s.qs.signalqueue.foldlM processSignal s).map fun s =>
    { s with sig := { s.sig with evsigcaught := fun _ => 0, evsignal_caught := false } }

/-! ### Dispatch -/

/-- One element of `events`: `data.ptr`, and the bits that `epoll_wait` reports. -/
structure Report where
  version : Nat
  index : Nat
  inp : Bool
  out : Bool
  err : Bool
  hup : Bool
  deriving DecidableEq, Repr

/-- `event_del` of an event that is not persistent. -/
def delOnce (s : State) (a : Option Addr) : Option State :=
  match a with
  | none => some s
  | some a => if (s.mem a).events.persist then some s else (eventDel s a).map (·.1)

def activate (s : State) (a : Option Addr) (res : What) : Option State :=
  match a with
  | none => some s
  | some a => eventActive s a res 1

/-- The body of the loop in `epoll_dispatch`. A pointer into an array that was
reallocated is dead. -/
def dispatchOne (s : State) (r : Report) : Option State :=
  if r.version ≠ s.epoll.version then none
  else (s.epoll.fds[r.index]?).bind fun evep =>
    let inp := r.inp || r.hup || r.err
    let out := r.out || r.hup || r.err
    let evread := if inp then evep.evread else none
    let evwrite := if out then evep.evwrite else none
    (delOnce s evread).bind fun s =>
    (delOnce s (if evwrite = evread then none else evwrite)).bind fun s =>
    (activate s evread EV_READ).bind fun s => activate s evwrite EV_WRITE

/-- The time that `epoll_dispatch` gives to `epoll_wait`, in milliseconds and in an `int`. -/
def epollTimeout (tv : Timeval) : Int := (tv.sec * 1000 + (tv.usec + 999) / 1000).bmod (2 ^ 32)

/-- What `epoll_wait` returns. -/
inductive Wait
  | failed
  | interrupted
  | ready (reports : List Report)
  deriving Repr

/-- `epoll_dispatch`. `signals` are those that arrive while it waits. -/
def epollDispatch (s : State) (signals : List Nat) (w : Wait) : Option (State × Int) :=
  (evsignalRecalc addEvSignal (signals.foldl evsignalHandler s)).bind fun (s, res) =>
  if res = -1 then some (s, -1)
  else match w with
  | .failed => some (s, -1)
  | .interrupted => (evsignalProcess s).map fun s => (s, 0)
  | .ready reports =>
    (if s.sig.evsignal_caught then evsignalProcess s else some s).bind fun s =>
      (reports.foldlM dispatchOne s).map fun s => (s, 0)

/-! ### The loop -/

/-- How one turn of `event_base_loop` goes on after `timeout_process`. -/
inductive Turn
  | terminated
  | noEvents
  | failed
  | turned
  deriving DecidableEq, Repr

/-- One turn of `event_base_loop`, from its top until callbacks are called. `now` and
`later` are what the clock shows at the top and in `timeout_process`. `signals` arrive
while it waits, or when it does not wait at its end. -/
def turn (s : State) (now later : Timeval) (signals : List Nat) (w : Wait) :
    Option (State × Turn) :=
  (evsignalRecalc addEvSignal s).bind fun (s, res) =>
  if res = -1 then some (signals.foldl evsignalHandler s, .failed)
  else if s.event_gotterm then
    some (signals.foldl evsignalHandler { s with event_gotterm := false }, .terminated)
  else
    (if now.lt s.event_tv then timeoutCorrect s (s.event_tv.sub now) else some s).bind fun s =>
    let s := { s with event_tv := now }
    if s.qs.event_count ≤ 0 then some (signals.foldl evsignalHandler s, .noEvents)
    else (epollDispatch s signals w).bind fun (s, res) =>
      if res = -1 then some (s, .failed)
      else (timeoutProcess s later).map fun s => (s, .turned)

/-- The first queue of `event_process_active` that is not empty. -/
def firstActive : Nat → List (List Addr) → Option (Nat × Addr)
  | _, [] => none
  | i, [] :: qs => firstActive (i + 1) qs
  | i, (a :: _) :: _ => some (i, a)

/-- `event_process_active` takes the event `a` off its queue. -/
def enter (s : State) (i : Nat) (a : Addr) : Option State :=
  (eventQueueRemove s a .active).map fun s => { s with
    mem := s.mem.set a { s.mem a with pncalls := some s.activation }
    locals := some ⟨i, a, (s.mem a).ncalls⟩ }

/-- The start of `event_process_active`. -/
def startActive (s : State) : Option State :=
  if s.qs.event_count_active = 0 then some s
  else (firstActive 0 s.qs.activequeues).bind fun (i, a) =>
    enter { s with activation := s.activation + 1 } i a

/-! ### The machine -/

/-- Where the only thread is: outside of the loop or at its top, in
`event_process_active` between two calls, or in a callback. -/
inductive Phase
  | out
  | active
  | callback
  deriving DecidableEq, Repr

structure Machine where
  s : State
  phase : Phase

/-- A call that the application makes, outside of the loop or in a callback. -/
inductive Call
  | set (a : Addr) (fd : Int) (events : What)
  | baseSet (a : Addr)
  | prioritySet (a : Addr) (pri : Int)
  | add (a : Addr) (now : Timeval) (tv : Option Timeval)
  | del (a : Addr)
  | active (a : Addr) (res : What) (ncalls : Nat)
  | exit
  deriving Repr

def Call.apply (s : State) : Call → Option State
  | .set a fd events => some (eventSet s a fd events)
  | .baseSet a => (eventBaseSet s a).map (·.1)
  | .prioritySet a pri => (eventPrioritySet s a pri).map (·.1)
  | .add a now tv => (eventAdd s a now tv).map (·.1)
  | .del a => (eventDel s a).map (·.1)
  | .active a res ncalls => eventActive s a res ncalls
  | .exit => some { s with event_gotterm := true }

def Epollop.openFd (e : Epollop) (fd : Int) : Epollop :=
  { e with live := Function.update e.live fd true }

/-- The kernel forgets a descriptor that is closed. -/
def Epollop.close (e : Epollop) (fd : Int) : Epollop :=
  { e with live := Function.update e.live fd false, interest := Function.update e.interest fd none }

/-- The state after the `evsignal_recalc` at the top of a turn. -/
def State.recalced (s : State) : State := ((evsignalRecalc addEvSignal s).map (·.1)).getD s

/-- What can happen next. `openFd`, `closeFd` and `signal` are the kernel's. -/
inductive Step
  | call (c : Call)
  | openFd (fd : Int)
  | closeFd (fd : Int)
  | signal (sig : Nat)
  | turn (now later : Timeval) (signals : List Nat) (w : Wait)
  | invoke
  | ret
  | next
  deriving Repr

/-- `while (ncalls) { ncalls--; ev->ev_ncalls = ncalls; ... }` up to the callback. -/
def invoke (s : State) (l : Locals) : State :=
  { s with
    mem := s.mem.set l.ev { s.mem l.ev with ncalls := l.ncalls - 1 }
    locals := some { l with ncalls := l.ncalls - 1 } }

def step (m : Machine) : Step → Option Machine
  | .call c => if m.phase = .active then none else (c.apply m.s).map fun s => ⟨s, m.phase⟩
  | .openFd fd => some ⟨{ m.s with epoll := m.s.epoll.openFd fd }, m.phase⟩
  | .closeFd fd => some ⟨{ m.s with epoll := m.s.epoll.close fd }, m.phase⟩
  | .signal sig =>
    if m.s.sig.handler sig then some ⟨evsignalHandler m.s sig, m.phase⟩ else none
  | .turn now later signals w =>
    if m.phase = .out ∧ ∀ sig ∈ signals, m.s.recalced.sig.handler sig then
      (turn m.s now later signals w).bind fun (s, t) =>
        if t = .turned then
          (startActive s).map fun s => ⟨s, if s.locals.isSome then .active else .out⟩
        else some ⟨s, .out⟩
    else none
  | .invoke =>
    match m.phase, m.s.locals with
    | .active, some l =>
      if l.ncalls = 0 then none
      -- the callback of the internal event is `evsignal_cb`
      else if l.ev = m.s.ev_signal then
        (eventAdd (invoke m.s l) l.ev ⟨0, 0⟩ none).map fun (s, _) => ⟨s, .active⟩
      else some ⟨invoke m.s l, .callback⟩
    | _, _ => none
  | .ret => if m.phase = .callback then some ⟨m.s, .active⟩ else none
  | .next =>
    match m.phase, m.s.locals with
    | .active, some l =>
      if l.ncalls = 0 then
        match m.s.qs.activequeues[l.activeq]? with
        | some (a :: _) => (enter m.s l.activeq a).map fun s => ⟨s, .active⟩
        | some [] => some ⟨{ m.s with locals := none }, .out⟩
        | none => none
      else none
    | _, _ => none

/-- After `event_init` and `event_priority_init` with `n` queues of active events. `pipe` is
the descriptor of the socket pair that `ev_signal` reads. The internal event is set before
there is any queue, so that its priority is 0. -/
def Machine.init (n nfds : Nat) (ev_signal : Addr) (pipe : Int) (now : Timeval)
    (zeroed : Addr → Bool) : Machine where
  s :=
    { mem := Mem.set (fun _ => .zero) ev_signal { Event.zero with
        fd := pipe, events := EV_READ, pri := 0, flags := { Flags.fresh with internal := true } }
      zeroed := zeroed
      qs := ⟨[], [], List.replicate n [], .nil, 0, 0⟩
      event_tv := now
      event_gotterm := false
      locals := none
      activation := 0
      epoll := ⟨List.replicate nfds ⟨none, none⟩, 0, fun _ => none, fun fd => fd = pipe⟩
      sig := ⟨fun _ => 0, false, false, false, fun _ => false⟩
      ev_signal := ev_signal }
  phase := .out

end FilesEvent.Net
