import FilesEvent.Net.Timeval
import FilesEvent.Net.TreeOrder

/-! The data of the event library: `struct event`, the queues of `struct event_base`,
and what the back end and the signal handler keep. `none` stands for what C leaves
undefined: a null or dead pointer that is used, a list element that is linked
twice or unlinked when it is in no list, and an assertion that fails. -/

namespace FilesEvent.Net
open RedBlack

abbrev Addr := Nat

/-- The bits of `ev_events` and of `ev_res`. -/
structure What where
  timeout : Bool
  read : Bool
  write : Bool
  signal : Bool
  persist : Bool
  deriving DecidableEq, Repr

namespace What

def zero : What := ⟨false, false, false, false, false⟩

def or (a b : What) : What :=
  ⟨a.timeout || b.timeout, a.read || b.read, a.write || b.write, a.signal || b.signal,
    a.persist || b.persist⟩

def EV_TIMEOUT : What := { zero with timeout := true }
def EV_READ : What := { zero with read := true }
def EV_WRITE : What := { zero with write := true }
def EV_SIGNAL : What := { zero with signal := true }

def io (w : What) : Bool := w.read || w.write

end What

/-- The bits of `ev_flags` that name a queue. -/
inductive Queue
  | timeout
  | inserted
  | signal
  | active
  deriving DecidableEq, Repr

/-- `ev_flags`. -/
structure Flags where
  timeout : Bool
  inserted : Bool
  signal : Bool
  active : Bool
  internal : Bool
  init : Bool
  deriving DecidableEq, Repr

namespace Flags

def get (f : Flags) : Queue → Bool
  | .timeout => f.timeout
  | .inserted => f.inserted
  | .signal => f.signal
  | .active => f.active

def set (f : Flags) (q : Queue) (b : Bool) : Flags :=
  match q with
  | .timeout => { f with timeout := b }
  | .inserted => { f with inserted := b }
  | .signal => { f with signal := b }
  | .active => { f with active := b }

@[simp] theorem get_set (f : Flags) (q q' : Queue) (b : Bool) :
    (f.set q b).get q' = if q' = q then b else f.get q' := by
  cases q <;> cases q' <;> rfl

/-- The flags of an event that is in no queue. -/
def off (f : Flags) : Flags :=
  { f with timeout := false, inserted := false, signal := false, active := false }

@[simp] theorem get_off (f : Flags) (q : Queue) : f.off.get q = false := by
  cases q <;> rfl

theorem set_get {f : Flags} {q : Queue} {b : Bool} (h : f.get q = b) : f.set q b = f := by
  subst h
  cases q <;> rfl

@[simp] theorem internal_set (f : Flags) (q : Queue) (b : Bool) :
    (f.set q b).internal = f.internal := by
  cases q <;> rfl

@[simp] theorem init_set (f : Flags) (q : Queue) (b : Bool) : (f.set q b).init = f.init := by
  cases q <;> rfl

/-- `EVLIST_INIT` alone. -/
def fresh : Flags := ⟨false, false, false, false, false, true⟩

end Flags

/-- `struct event`, less its links. `pncalls` names the call of `event_process_active`
whose local variable it points to. The flag `init` tells whether `event_set` was called,
which gives the event its base. -/
structure Event where
  fd : Int
  events : What
  ncalls : Nat
  pncalls : Option Nat
  timeout : Timeval
  pri : Nat
  res : What
  flags : Flags
  deriving DecidableEq, Repr

/-- An event before `event_set`. Its memory holds zeros where it comes from `calloc`, and
anything where it comes from `malloc`: no call reads it there. -/
def Event.zero : Event :=
  ⟨0, .zero, 0, none, ⟨0, 0⟩, 0, .zero, ⟨false, false, false, false, false, false⟩⟩

abbrev Mem := Addr → Event

/-- `compare`: by the time, then by the address. -/
def compare (m : Mem) (a b : Nat) : Int :=
  if (m a).timeout.lt (m b).timeout then -1
  else if (m b).timeout.lt (m a).timeout then 1
  else if a < b then -1
  else if a > b then 1
  else 0

/-- What `compare` compares. -/
def key (m : Mem) (a : Addr) : Int ×ₗ Int ×ₗ Nat :=
  toLex ((m a).timeout.sec, toLex ((m a).timeout.usec, a))

theorem key_lt {m : Mem} {a b : Nat} : key m a < key m b ↔
    (m a).timeout.sec < (m b).timeout.sec ∨ (m a).timeout.sec = (m b).timeout.sec ∧
      ((m a).timeout.usec < (m b).timeout.usec ∨ (m a).timeout.usec = (m b).timeout.usec ∧ a < b) := by
  rw [key, key, Prod.Lex.toLex_lt_toLex, Prod.Lex.toLex_lt_toLex]

theorem key_inj {m : Mem} {a b : Addr} (h : key m a = key m b) : a = b :=
  (Prod.mk.inj (Prod.mk.inj h).2).2

theorem orders_compare (m : Mem) : RB.Orders (compare m) (key m) := by
  have hcases : ∀ a b : Nat,
      compare m a b = -1 ∧ key m a < key m b ∨ compare m a b = 1 ∧ key m b < key m a ∨
        compare m a b = 0 ∧ ¬key m a < key m b ∧ ¬key m b < key m a := by
    intro a b
    simp only [compare, key_lt, Timeval.lt_iff]
    generalize (m a).timeout = x
    generalize (m b).timeout = y
    split
    next h => exact .inl ⟨rfl, by omega⟩
    next h =>
      split
      next h' => exact .inr (.inl ⟨rfl, by omega⟩)
      next h' =>
        split
        next h'' => exact .inl ⟨rfl, by omega⟩
        next h'' =>
          split
          next h₃ => exact .inr (.inl ⟨rfl, by omega⟩)
          next h₃ => exact .inr (.inr ⟨rfl, by omega, by omega⟩)
  constructor <;> intro a b
  · rcases hcases a b with ⟨e, h⟩ | ⟨e, h⟩ | ⟨e, h, -⟩
    · simp [e, h]
    · simp [e, h.not_gt]
    · simp [e, h]
  · rcases hcases a b with ⟨e, h⟩ | ⟨e, h⟩ | ⟨e, -, h⟩
    · simp [e, h.not_gt]
    · simp [e, h]
    · simp [e, h]

/-- The queues of `struct event_base`, and `signalqueue`. -/
structure Queues where
  eventqueue : List Addr
  signalqueue : List Addr
  activequeues : List (List Addr)
  timetree : ColorTree Addr
  event_count : Int
  event_count_active : Int
  deriving DecidableEq, Repr

/-- The events of a queue, each of `activequeues` in turn for the active ones. -/
def Queues.members (qs : Queues) : Queue → List Addr
  | .timeout => qs.timetree.toList
  | .inserted => qs.eventqueue
  | .signal => qs.signalqueue
  | .active => qs.activequeues.flatten

/-- A queue in its order, the active events of the priority `p` alone. -/
def Queues.line (qs : Queues) : Queue → Nat → List Addr
  | .timeout, _ => qs.timetree.toList
  | .inserted, _ => qs.eventqueue
  | .signal, _ => qs.signalqueue
  | .active, p => (qs.activequeues[p]?).getD []

/-- `struct evepoll`. -/
structure Evepoll where
  evread : Option Addr
  evwrite : Option Addr
  deriving DecidableEq, Repr

/-- `EPOLLIN` and `EPOLLOUT`. -/
structure Mask where
  inp : Bool
  out : Bool
  deriving DecidableEq, Repr

/-- What the kernel keeps for a descriptor: the mask, and `data.ptr`, which names a
version of the array and an index in it. -/
structure Interest where
  mask : Mask
  version : Nat
  index : Nat
  deriving DecidableEq, Repr

/-- `struct epollop`, and the kernel's side of it. `version` counts the reallocations
of `fds`. `live` are the descriptors that are open and can be polled. -/
structure Epollop where
  fds : List Evepoll
  version : Nat
  interest : Int → Option Interest
  live : Int → Bool

/-- The static variables of `signal.c`. `handler` tells which signals
`evsignal_handler` is installed for. -/
structure Signals where
  evsigcaught : Nat → Nat
  evsignal_caught : Bool
  needrecalc : Bool
  ev_signal_added : Bool
  handler : Nat → Bool

/-- The local variables of the running `event_process_active`: the queue by its
priority, the event, and the calls that are left. -/
structure Locals where
  activeq : Nat
  ev : Addr
  ncalls : Nat
  deriving DecidableEq, Repr

/-- Everything. `zeroed` tells where the memory of an event held zeros before it was set.
`activation` is the number of calls of `event_process_active` so far. -/
structure State where
  mem : Mem
  zeroed : Addr → Bool
  qs : Queues
  event_tv : Timeval
  event_gotterm : Bool
  locals : Option Locals
  activation : Nat
  epoll : Epollop
  sig : Signals
  ev_signal : Addr

/-- The fields of the event can be read: it was set, or its memory holds zeros. -/
def State.readable (s : State) (a : Addr) : Bool := (s.mem a).flags.init || s.zeroed a

end FilesEvent.Net
