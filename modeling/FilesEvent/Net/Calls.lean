import FilesEvent.Net.Event

/-! The calls of the event library: the queues of `event.c`, `epoll_add` and `epoll_del`,
and on them `event_set`, `event_add`, `event_del` and `event_active`. -/

namespace FilesEvent.Net
open RedBlack

def Mem.set (m : Mem) (a : Addr) (ev : Event) : Mem := Function.update m a ev

def Mem.flag (m : Mem) (a : Addr) (q : Queue) (b : Bool) : Mem :=
  m.set a { m a with flags := (m a).flags.set q b }

/-! ### The queues -/

/-- Internal events do not count. -/
def docount (m : Mem) (a : Addr) : Int := if (m a).flags.internal then 0 else 1

/-- The links and the counters in `event_queue_insert`. -/
def Queues.insert (m : Mem) (qs : Queues) (a : Addr) (q : Queue) : Option Queues :=
  let qs := { qs with event_count := qs.event_count + docount m a }
  match q with
  | .active => (qs.activequeues[(m a).pri]?).bind fun l =>
    if a ∈ l then none
    else some { qs with
      activequeues := qs.activequeues.set (m a).pri (l ++ [a])
      event_count_active := qs.event_count_active + docount m a }
  | .signal =>
    if a ∈ qs.signalqueue then none else some { qs with signalqueue := qs.signalqueue ++ [a] }
  | .timeout =>
    match RB.insert (compare m) a qs.timetree with
    | some (none, t) => some { qs with timetree := t }
    | _ => none
  | .inserted =>
    if a ∈ qs.eventqueue then none else some { qs with eventqueue := qs.eventqueue ++ [a] }

/-- The links and the counters in `event_queue_remove`. -/
def Queues.remove (m : Mem) (qs : Queues) (a : Addr) (q : Queue) : Option Queues :=
  let qs := { qs with event_count := qs.event_count - docount m a }
  match q with
  | .active => (qs.activequeues[(m a).pri]?).bind fun l =>
    if a ∈ l then some { qs with
      activequeues := qs.activequeues.set (m a).pri (l.erase a)
      event_count_active := qs.event_count_active - docount m a }
    else none
  | .signal =>
    if a ∈ qs.signalqueue then some { qs with signalqueue := qs.signalqueue.erase a } else none
  | .timeout => (RB.remove a qs.timetree).map fun t => { qs with timetree := t }
  | .inserted =>
    if a ∈ qs.eventqueue then some { qs with eventqueue := qs.eventqueue.erase a } else none

/-- `event_queue_insert`. An active event may be inserted again, to no effect. -/
def eventQueueInsert (s : State) (a : Addr) (q : Queue) : Option State :=
  if q = .active && (s.mem a).flags.active then some s
  else (s.qs.insert s.mem a q).map fun qs => { s with mem := s.mem.flag a q true, qs := qs }

/-- `event_queue_remove`. -/
def eventQueueRemove (s : State) (a : Addr) (q : Queue) : Option State :=
  (s.qs.remove s.mem a q).map fun qs => { s with mem := s.mem.flag a q false, qs := qs }

/-- `if (ev->ev_flags & queue) event_queue_remove(base, ev, queue)`. -/
def removeIf (s : State) (a : Addr) (q : Queue) : Option State :=
  if (s.mem a).flags.get q then eventQueueRemove s a q else some s

/-! ### The back end -/

inductive CtlOp
  | add
  | mod
  | del
  deriving DecidableEq, Repr

def Epollop.watch (e : Epollop) (fd : Int) (i : Option Interest) : Epollop :=
  { e with interest := Function.update e.interest fd i }

/-- `epoll_ctl`, where it succeeds. -/
def Epollop.ctl (e : Epollop) (op : CtlOp) (fd : Int) (m : Mask) : Option Epollop :=
  if e.live fd then
    match op, e.interest fd with
    | .add, none | .mod, some _ =>
      some (e.watch fd (some ⟨m, e.version, fd.toNat⟩))
    | .del, some _ => some (e.watch fd none)
    | _, _ => none
  else none

/-- `while (nfds < max) nfds <<= 1`. -/
def doubled : Nat → Nat → Nat → Nat
  | 0, nfds, _ => nfds
  | fuel + 1, nfds, max => if nfds < max then doubled fuel (2 * nfds) max else nfds

/-- The array after `epoll_recalc` with `max`. -/
def Epollop.extend (e : Epollop) (max : Nat) : Epollop :=
  if max > e.fds.length then
    let nfds := doubled max e.fds.length max
    { e with
      fds := e.fds ++ List.replicate (nfds - e.fds.length) ⟨none, none⟩
      version := e.version + 1 }
  else e

/-- `&epollop->fds[fd]`. -/
def Epollop.evep (e : Epollop) (fd : Int) : Option Evepoll :=
  if 0 ≤ fd then e.fds[fd.toNat]? else none

def Epollop.setEvep (e : Epollop) (fd : Int) (evep : Evepoll) : Epollop :=
  { e with fds := e.fds.set fd.toNat evep }

/-- `epoll_add`. `evsignal_add` changes the signal mask alone. `recalc` is
`evsignal_recalc`, which ends `epoll_recalc`. -/
def epollAdd (recalc : State → Option (State × Int)) (s : State) (a : Addr) :
    Option (State × Int) :=
  let ev := s.mem a
  if ev.events.signal then some (s, 0)
  else
    (if ev.fd ≥ s.epoll.fds.length then recalc { s with epoll := s.epoll.extend ev.fd.toNat }
      else some (s, 0)).bind fun (s, res) =>
    if res = -1 then some (s, -1)
    else (s.epoll.evep ev.fd).bind fun evep =>
      let op := if evep.evread.isSome || evep.evwrite.isSome then CtlOp.mod else .add
      let mask := ⟨evep.evread.isSome || ev.events.read, evep.evwrite.isSome || ev.events.write⟩
      match s.epoll.ctl op ev.fd mask with
      | none => some (s, -1)
      | some e =>
        let evep : Evepoll := ⟨if ev.events.read then some a else evep.evread,
          if ev.events.write then some a else evep.evwrite⟩
        some ({ s with epoll := e.setEvep ev.fd evep }, 0)

/-- `needwritedelete == 0`. -/
def keepsWriter (events : What) (evep : Evepoll) : Bool :=
  events.read && !events.write && evep.evwrite.isSome

/-- `needreaddelete == 0`. -/
def keepsReader (events : What) (evep : Evepoll) : Bool :=
  events.write && !events.read && evep.evread.isSome

def NSIG : Nat := 65

/-- The signals that `sigaction` knows: two are the thread library's own. -/
def known (sig : Int) : Bool := decide (0 < sig ∧ sig < NSIG ∧ sig ≠ 32 ∧ sig ≠ 33)

/-- The signals that `sigaction` installs a handler for: not `SIGKILL` and `SIGSTOP`. -/
def handled (sig : Int) : Bool := known sig && decide (sig ≠ 9 ∧ sig ≠ 19)

/-- `evsignal_del`. It passes no action to `sigaction`, so that the handler stays, and
returns what that returns. -/
def evsignalDel (s : State) (a : Addr) : State × Int :=
  ({ s with sig := { s.sig with needrecalc := true } }, if known (s.mem a).fd then 0 else -1)

/-- `epoll_del`. A reader that goes leaves the writer of its descriptor, and a writer
the reader. -/
def epollDel (s : State) (a : Addr) : Option (State × Int) :=
  let ev := s.mem a
  if ev.events.signal then some (evsignalDel s a)
  else if ev.fd ≥ s.epoll.fds.length then some (s, 0)
  else (s.epoll.evep ev.fd).bind fun evep =>
    let keepWrite := keepsWriter ev.events evep
    let keepRead := keepsReader ev.events evep
    let op := if keepWrite || keepRead then CtlOp.mod else .del
    let mask := if keepWrite then ⟨false, true⟩ else if keepRead then ⟨true, false⟩
      else ⟨ev.events.read, ev.events.write⟩
    let e := s.epoll.setEvep ev.fd
      ⟨if keepRead then evep.evread else none, if keepWrite then evep.evwrite else none⟩
    match e.ctl op ev.fd mask with
    | none => some ({ s with epoll := e }, -1)
    | some e => some ({ s with epoll := e }, 0)

/-! ### The calls -/

/-- `event_set`. The time, the result and the links stay as they are. -/
def eventSet (s : State) (a : Addr) (fd : Int) (events : What) : State :=
  { s with mem := s.mem.set a { s.mem a with
      fd := fd, events := events, ncalls := 0, pncalls := none
      pri := s.qs.activequeues.length / 2, flags := .fresh } }

/-- `event_base_set` with the only base. -/
def eventBaseSet (s : State) (a : Addr) : Option (State × Int) :=
  if !s.readable a then none
  else if (s.mem a).flags ≠ .fresh then some (s, -1)
  else some ({ s with
    mem := s.mem.set a { s.mem a with pri := s.qs.activequeues.length / 2 } }, 0)

/-- `event_priority_set`. -/
def eventPrioritySet (s : State) (a : Addr) (pri : Int) : Option (State × Int) :=
  if !s.readable a then none
  else if (s.mem a).flags.active then some (s, -1)
  else if pri < 0 then some (s, -1)
  -- the number of queues is read through the base
  else if !(s.mem a).flags.init then none
  else if pri ≥ s.qs.activequeues.length then some (s, -1)
  else some ({ s with mem := s.mem.set a { s.mem a with pri := pri.toNat } }, 0)

/-- `event_pending`, less the time that it reports. -/
def eventPending (s : State) (a : Addr) : Option What :=
  if !s.readable a then none
  else
    let ev := s.mem a
    let res := if ev.flags.active then ev.res else .zero
    some {
      timeout := res.timeout || ev.flags.timeout
      read := res.read || ev.flags.inserted && ev.events.read
      write := res.write || ev.flags.inserted && ev.events.write
      signal := res.signal || ev.flags.signal
      persist := false }

/-- `if (ev->ev_ncalls && ev->ev_pncalls) *ev->ev_pncalls = 0`. The variable lives as long
as its call of `event_process_active` runs. -/
def abortLoop (s : State) (a : Addr) : Option State :=
  if (s.mem a).ncalls = 0 then some s
  else
    match (s.mem a).pncalls, s.locals with
    | none, _ => some s
    | some k, some l =>
      if k = s.activation then some { s with locals := some { l with ncalls := 0 } } else none
    | some _, none => none

/-- Rescheduling a timeout before the callback can be executed removes the event from
the active list. -/
def unschedule (s : State) (a : Addr) : Option State :=
  if (s.mem a).flags.active && (s.mem a).res.timeout then
    (abortLoop s a).bind fun s => eventQueueRemove s a .active
  else some s

/-- The part of `event_add` that sets a time, `if (tv != NULL)`. -/
def addTimeout (s : State) (a : Addr) (now : Timeval) : Option Timeval → Option State
  | none => some s
  | some tv =>
    (removeIf s a .timeout).bind fun s =>
    (unschedule s a).bind fun s =>
    let ev := { s.mem a with timeout := now.add tv }
    eventQueueInsert { s with mem := s.mem.set a ev } a .timeout

/-- `event_add`. `now` is what the clock shows. -/
def eventAddWith (recalc : State → Option (State × Int)) (s : State) (a : Addr) (now : Timeval)
    (tv : Option Timeval) : Option (State × Int) :=
  if !(s.mem a).flags.init then none
  else
    (addTimeout s a now tv).bind fun s =>
    if (s.mem a).events.io && !((s.mem a).flags.inserted || (s.mem a).flags.active) then
      (eventQueueInsert s a .inserted).bind fun s => epollAdd recalc s a
    else if (s.mem a).events.signal && !(s.mem a).flags.signal then
      (eventQueueInsert s a .signal).bind fun s => epollAdd recalc s a
    else some (s, 0)

/-- `event_del`. The base is null in memory that holds zeros. -/
def eventDel (s : State) (a : Addr) : Option (State × Int) :=
  if !s.readable a then none
  else if !(s.mem a).flags.init then some (s, -1)
  else
    (abortLoop s a).bind fun s =>
    (removeIf s a .timeout).bind fun s =>
    (removeIf s a .active).bind fun s =>
    if (s.mem a).flags.inserted then
      (eventQueueRemove s a .inserted).bind fun s => epollDel s a
    else if (s.mem a).flags.signal then
      (eventQueueRemove s a .signal).bind fun s => epollDel s a
    else some (s, 0)

/-- `event_active`, for an event that has a base. -/
def eventActive (s : State) (a : Addr) (res : What) (ncalls : Nat) : Option State :=
  let ev := s.mem a
  if !ev.flags.init then none
  else if ev.flags.active then some { s with mem := s.mem.set a { ev with res := ev.res.or res } }
  else eventQueueInsert
    { s with mem := s.mem.set a { ev with res := res, ncalls := ncalls, pncalls := none } } a .active

/-- The loop of `evsignal_recalc`: a handler for each event of the queue in turn, up to the
first that `sigaction` refuses. -/
def reinstall (m : Mem) : List Addr → (Nat → Bool) → (Nat → Bool) × Int
  | [], handler => (handler, 0)
  | a :: l, handler =>
    if handled (m a).fd then reinstall m l (Function.update handler (m a).fd.toNat true)
    else (handler, -1)

/-- `evsignal_recalc`. The first call adds the event of the socket pair. -/
def evsignalRecalc (add : State → Option State) (s : State) : Option (State × Int) :=
  (if s.sig.ev_signal_added then some s
    else add { s with sig := { s.sig with ev_signal_added := true } }).map fun s =>
  if s.qs.signalqueue = [] && !s.sig.needrecalc then (s, 0)
  else
    let (handler, res) := reinstall s.mem s.qs.signalqueue s.sig.handler
    ({ s with sig := { s.sig with needrecalc := false, handler := handler } }, res)

/-- `event_add(&ev_signal, NULL)` within the first `evsignal_recalc`, which does not look at
the result. A further `evsignal_recalc` in it adds nothing. -/
def addEvSignal (s : State) : Option State :=
  (eventAddWith (evsignalRecalc some) s s.ev_signal ⟨0, 0⟩ none).map (·.1)

def eventAdd : State → Addr → Timeval → Option Timeval → Option (State × Int) :=
  eventAddWith (evsignalRecalc addEvSignal)

end FilesEvent.Net
