import FilesEvent.Lib.Mutex
import FilesEvent.Lib.Runs

/-! The `ReactorStation` with its two threads: the application calls `startup` and
later `shutdown`, the loop thread runs `eventLoop`, and a signal calls `shutdown`
from a turn of the event loop. A step is one statement of a thread that touches
`mExitMutex`, the `EventGlobal` or `mIsStartup`. -/

namespace FilesEvent.Reactor
open Runs

inductive Thread
  | app
  | loop
  deriving DecidableEq, Repr

/-- What a pointer to the `EventGlobal` finds. It is `bare` while it has no event
base and no `SessionManager`: before `Create` and after `Destroy`. -/
inductive EventGlobal
  | null
  | bare
  | live
  | deleted
  deriving DecidableEq, Repr

inductive Signal
  | SIGINT
  | SIGTERM
  deriving DecidableEq, Repr

/-- Calls on the mutex and uses of the `EventGlobal`, with the thread and what it
finds at that moment. -/
inductive Op
  | lock (t : Thread) (m : Mutex Thread)
  | unlock (t : Thread) (m : Mutex Thread)
  | use (t : Thread) (g : EventGlobal)
  deriving DecidableEq, Repr

/-- The next statement of `shutdown`. -/
inductive ShutdownPc
  | test
  | clear
  | loopexit
  | lock
  | destroy
  | delete
  | null
  | unlock
  | mutexDestroy
  deriving DecidableEq, Repr

/-- The next statement of the application: in `startup`, between the two calls
(`running`), or in `shutdown`. -/
inductive AppPc
  | startup
  | create
  | mutexInit
  | setStartup
  | run
  | running
  | shutdown (pc : ShutdownPc)
  | done
  deriving DecidableEq, Repr

/-- The next statement of the loop thread, in `eventLoop` and `startThread`. In
`turn` it is inside `event_base_loop`, and in `handler` inside a `sigHandler`
that a turn has called. -/
inductive LoopPc
  | unborn
  | lock
  | getEventGlobal
  | addSigInt
  | addSigTerm
  | test
  | enter
  | turn
  | handler (pc : ShutdownPc)
  | delSigTerm
  | delSigInt
  | unlock
  | ended
  deriving DecidableEq, Repr

/-- `mEveGlobal` and `eveGlobal`, the copy that `startThread` keeps, tell whether the
pointer is not NULL; `global` is the object, of which there is only one. -/
structure ReactorStation where
  mEveGlobal : Bool
  global : EventGlobal
  mIsStartup : Int
  mExitMutex : Mutex Thread
  eveGlobal : Bool
  app : AppPc
  loop : LoopPc
  log : List Op
  deriving DecidableEq, Repr

/-- `run` is `run()` with the result of `pthread_create`. `signal` is the callback of a
signal event and `accept` that of a `TcpServer`, both in a turn. -/
inductive Event
  | app
  | run (ret : Int)
  | loop
  | signal (sig : Signal)
  | accept
  deriving DecidableEq, Repr

namespace ReactorStation

/-- The constructor, before `startup`. -/
def new : ReactorStation where
  mEveGlobal := false
  global := .null
  mIsStartup := 0
  mExitMutex := .raw
  eveGlobal := false
  app := .startup
  loop := .unborn
  log := []

def note (s : ReactorStation) (op : Op) : ReactorStation := { s with log := s.log ++ [op] }

/-- A thread follows the pointer `p`. -/
def use (s : ReactorStation) (t : Thread) (p : Bool) : ReactorStation :=
  s.note (.use t (if p then s.global else .null))

def lock (s : ReactorStation) (t : Thread) : Option (Bool × ReactorStation) :=
  (s.mExitMutex.lock t).map fun (returns, m) =>
    (returns, { s.note (.lock t s.mExitMutex) with mExitMutex := m })

def unlock (s : ReactorStation) (t : Thread) : ReactorStation :=
  { s.note (.unlock t s.mExitMutex) with mExitMutex := s.mExitMutex.unlock t }

/-- One statement of `shutdown`, on the thread `t`, with the next one; `none` is the
return from it. A `lock` that does not return is the next one again. -/
def shutdown (s : ReactorStation) (t : Thread) :
    ShutdownPc → Option (Option ShutdownPc × ReactorStation)
  | .test => some (if s.mEveGlobal then some .clear else none, s)
  | .clear => some (some .loopexit, { s with mIsStartup := 0 })
  | .loopexit => some (some .lock, s.use t s.mEveGlobal)
  | .lock => (s.lock t).map fun (returns, s') => (some (if returns then .destroy else .lock), s')
  | .destroy => some (some .delete, { s.use t s.mEveGlobal with global := .bare })
  | .delete => some (some .null, { s with global := .deleted })
  | .null => some (some .unlock, { s with mEveGlobal := false })
  | .unlock => some (some .mutexDestroy, s.unlock t)
  | .mutexDestroy => some (none, { s with mExitMutex := .destroyed })

/-- The application thread. `startup` returns at once when there is an `EventGlobal`. -/
def appStep (s : ReactorStation) : Option ReactorStation :=
  match s.app with
  | .startup => some (if s.mEveGlobal then { s with app := .running }
      else { s with mEveGlobal := true, global := .bare, app := .create })
  | .create => some { s.use .app s.mEveGlobal with global := .live, app := .mutexInit }
  | .mutexInit => some { s with mExitMutex := .free, app := .setStartup }
  | .setStartup => some { s with mIsStartup := 1, app := .run }
  | .run => none
  | .running => some { s with app := .shutdown .test }
  | .shutdown pc => (s.shutdown .app pc).map fun (next, s') =>
      { s' with app := next.elim .done .shutdown }
  | .done => none

/-- The loop thread. `event_base_loop` reads the event base when a turn begins and
until it ends; `signal_del` reads the one of the event. -/
def loopStep (s : ReactorStation) : Option ReactorStation :=
  match s.loop with
  | .unborn => none
  | .lock => (s.lock .loop).map fun (returns, s') =>
      { s' with loop := if returns then .getEventGlobal else .lock }
  | .getEventGlobal => some { s with eveGlobal := s.mEveGlobal, loop := .addSigInt }
  | .addSigInt => some { s.use .loop s.eveGlobal with loop := .addSigTerm }
  | .addSigTerm => some { s.use .loop s.eveGlobal with loop := .test }
  | .test => some { s with loop := if s.mIsStartup = 1 then .enter else .delSigTerm }
  | .enter => some { s.use .loop s.eveGlobal with loop := .turn }
  | .turn => some { s.use .loop s.eveGlobal with loop := .test }
  | .handler pc => (s.shutdown .loop pc).map fun (next, s') =>
      { s' with loop := next.elim .turn .handler }
  | .delSigTerm => some { s.use .loop s.eveGlobal with loop := .delSigInt }
  | .delSigInt => some { s.use .loop s.eveGlobal with loop := .unlock }
  | .unlock => some { s.unlock .loop with loop := .ended }
  | .ended => none

def step (s : ReactorStation) : Event → Option ReactorStation
  | .app => s.appStep
  | .run ret =>
      if s.app = .run then
        some { s with app := .running, loop := if ret = 0 then .lock else s.loop }
      else none
  | .loop => s.loopStep
  | .signal _ => if s.loop = .turn then some { s with loop := .handler .test } else none
  | .accept => if s.loop = .turn then some (s.use .loop s.eveGlobal) else none

end ReactorStation

/-- No lock of a mutex that the thread holds, no use of the `EventGlobal` by the
loop thread unless it is live, none of the mutex once it is destroyed. -/
def Op.Harmless : Op → Prop
  | .lock t m => m ≠ .held t ∧ (t = .loop → m ≠ .destroyed)
  | .unlock t m => t = .loop → m ≠ .destroyed
  | .use t g => t = .loop → g = .live

instance : (op : Op) → Decidable op.Harmless
  | .lock _ _ => inferInstanceAs (Decidable (_ ∧ _))
  | .unlock _ _ => inferInstanceAs (Decidable (_ → _))
  | .use _ _ => inferInstanceAs (Decidable (_ → _))

def Safe (s : ReactorStation) : Prop := ∀ op ∈ s.log, op.Harmless

instance (s : ReactorStation) : Decidable (Safe s) :=
  inferInstanceAs (Decidable (∀ op ∈ s.log, op.Harmless))

/-- No signal is delivered in a turn, and `shutdown` of the application does not lock
the mutex while the loop thread has still to do so. -/
def Orderly (s : ReactorStation) : Event → Prop
  | .app => s.app = .shutdown .lock → s.loop ≠ .lock
  | .signal _ => False
  | .run _ | .loop | .accept => True

/-! ## What the application's place says -/

namespace AppPc

/-- `mEveGlobal` is not NULL. -/
def pointer : AppPc → Bool
  | startup | shutdown .unlock | shutdown .mutexDestroy | done => false
  | _ => true

def object : AppPc → EventGlobal
  | startup => .null
  | create | shutdown .delete => .bare
  | shutdown .null | shutdown .unlock | shutdown .mutexDestroy | done => .deleted
  | _ => .live

/-- The loop thread does not exist yet. -/
def early : AppPc → Bool
  | startup | create | mutexInit | setStartup | run => true
  | _ => false

/-- The application has locked the mutex in `shutdown`. -/
def late : AppPc → Bool
  | shutdown .destroy | shutdown .delete | shutdown .null | shutdown .unlock
  | shutdown .mutexDestroy | done => true
  | _ => false

end AppPc

/-- The loop thread is between its `lock` and its `unlock`. -/
def LoopPc.inside : LoopPc → Bool
  | unborn | lock | ended => false
  | _ => true

theorem LoopPc.outside {l : LoopPc} (h : l.inside = false) :
    l = .unborn ∨ l = .lock ∨ l = .ended := by
  cases l <;> simp_all [inside]

def mutexAt : AppPc → LoopPc → Mutex Thread
  | .startup, _ | .create, _ | .mutexInit, _ => .raw
  | .shutdown .destroy, _ | .shutdown .delete, _ | .shutdown .null, _ | .shutdown .unlock, _ =>
      .held .app
  | .done, _ => .destroyed
  | _, l => if l.inside then .held .loop else .free

/-- The places of the two threads fit together, and the shared data are what they say. -/
structure Inv (s : ReactorStation) : Prop where
  pointer : s.mEveGlobal = s.app.pointer
  object : s.global = s.app.object
  mutex : s.mExitMutex = mutexAt s.app s.loop
  copied : s.loop.inside → s.loop ≠ .getEventGlobal → s.eveGlobal = true
  early : s.app.early → s.loop = .unborn
  late : s.app.late → s.loop = .unborn ∨ s.loop = .ended
  handler : ∀ pc, s.loop ≠ .handler pc
  safe : Safe s

open ReactorStation

theorem inv_new : Inv ReactorStation.new where
  pointer := rfl
  object := rfl
  mutex := rfl
  copied := by decide
  early := by decide
  late := by decide
  handler := by simp [new]
  safe := by simp [Safe, new]

theorem Safe.note {s : ReactorStation} (h : Safe s) {op : Op} (hop : op.Harmless) :
    Safe (s.note op) := by
  intro o ho
  rcases List.mem_append.mp ho with ho | ho
  · exact h o ho
  · rwa [List.mem_singleton.mp ho]

/-- A step of the application leaves the loop thread where it is; the shared data have
to follow it to its new place. -/
theorem Inv.app_moves {s s' : ReactorStation} (hI : Inv s) (hloop : s'.loop = s.loop)
    (hcopy : s'.eveGlobal = s.eveGlobal) (hpointer : s'.mEveGlobal = s'.app.pointer)
    (hobject : s'.global = s'.app.object) (hmutex : s'.mExitMutex = mutexAt s'.app s.loop)
    (hearly : s'.app.early → s.app.early)
    (hlate : s'.app.late → s.app.late ∨ s.loop = .unborn ∨ s.loop = .ended) (hsafe : Safe s') :
    Inv s' where
  pointer := hpointer
  object := hobject
  mutex := by rw [hmutex, hloop]
  copied := by
    rw [hloop, hcopy]
    exact hI.copied
  early := by
    rw [hloop]
    exact fun h => hI.early (hearly h)
  late := by
    rw [hloop]
    exact fun h => (hlate h).elim hI.late id
  handler := by
    rw [hloop]
    exact hI.handler
  safe := hsafe

/-- A statement of `shutdown` on the application thread. The lock finds the mutex
free and the loop thread gone. -/
theorem shutdown_inv {s t : ReactorStation} {pc : ShutdownPc} {next : Option ShutdownPc}
    (hI : Inv s) (happ : s.app = .shutdown pc) (hc : Orderly s .app)
    (h : s.shutdown .app pc = some (next, t)) :
    Inv { t with app := next.elim .done .shutdown } := by
  have hp := hI.pointer
  have ho := hI.object
  have hm := hI.mutex
  rw [happ] at hp ho hm
  cases pc with
  | test =>
    simp only [shutdown, hp, AppPc.pointer, if_true, Option.some.injEq, Prod.mk.injEq] at h
    obtain ⟨rfl, rfl⟩ := h
    exact hI.app_moves rfl rfl hp ho hm nofun nofun hI.safe
  | clear =>
    obtain ⟨rfl, rfl⟩ := Prod.mk.inj (Option.some.inj h)
    exact hI.app_moves rfl rfl hp ho hm nofun nofun hI.safe
  | loopexit =>
    obtain ⟨rfl, rfl⟩ := Prod.mk.inj (Option.some.inj h)
    exact hI.app_moves rfl rfl hp ho hm nofun nofun (hI.safe.note nofun)
  | lock =>
    simp only [shutdown, lock, Option.map_map, Option.map_eq_some_iff] at h
    obtain ⟨⟨returns, m⟩, hlock, h⟩ := h
    obtain ⟨rfl, rfl⟩ := Prod.mk.inj h
    simp only [mutexAt] at hm
    split at hm
    · rw [hm, Mutex.lock_other (by decide)] at hlock
      cases hlock
    · rename_i hout
      rw [hm, Mutex.lock_free] at hlock
      obtain ⟨rfl, rfl⟩ := Prod.mk.inj (Option.some.inj hlock)
      refine hI.app_moves rfl rfl hp ho rfl nofun (fun _ => .inr ?_) (hI.safe.note ?_)
      · rcases LoopPc.outside (Bool.not_eq_true _ ▸ hout) with hloop | hloop | hloop
        · exact .inl hloop
        · exact absurd hloop (hc happ)
        · exact .inr hloop
      · rw [hm]
        exact ⟨nofun, nofun⟩
  | destroy =>
    obtain ⟨rfl, rfl⟩ := Prod.mk.inj (Option.some.inj h)
    refine hI.app_moves rfl rfl hp rfl hm nofun (fun _ => ?_) (hI.safe.note nofun)
    exact .inl (by rw [happ]; rfl)
  | delete =>
    obtain ⟨rfl, rfl⟩ := Prod.mk.inj (Option.some.inj h)
    refine hI.app_moves rfl rfl hp rfl hm nofun (fun _ => ?_) hI.safe
    exact .inl (by rw [happ]; rfl)
  | null =>
    obtain ⟨rfl, rfl⟩ := Prod.mk.inj (Option.some.inj h)
    refine hI.app_moves rfl rfl rfl ho hm nofun (fun _ => ?_) hI.safe
    exact .inl (by rw [happ]; rfl)
  | unlock =>
    obtain ⟨rfl, rfl⟩ := Prod.mk.inj (Option.some.inj h)
    refine hI.app_moves rfl rfl hp ho ?_ nofun (fun _ => ?_) (hI.safe.note nofun)
    · have hmutex : (s.unlock .app).mExitMutex = .free := by rw [ReactorStation.unlock, hm]; rfl
      rcases hI.late (by rw [happ]; rfl) with hloop | hloop
      · rw [hloop]
        exact hmutex
      · rw [hloop]
        exact hmutex
    · exact .inl (by rw [happ]; rfl)
  | mutexDestroy =>
    obtain ⟨rfl, rfl⟩ := Prod.mk.inj (Option.some.inj h)
    refine hI.app_moves rfl rfl hp ho rfl nofun (fun _ => ?_) hI.safe
    exact .inl (by rw [happ]; rfl)

theorem app_inv {s s' : ReactorStation} (hI : Inv s) (hc : Orderly s .app)
    (h : s.appStep = some s') : Inv s' := by
  have hp := hI.pointer
  have ho := hI.object
  have hm := hI.mutex
  have he := hI.early
  unfold appStep at h
  cases happ : s.app with
  | startup =>
    simp only [happ, AppPc.pointer] at h hp
    simp only [hp, Bool.false_eq_true, if_false, Option.some.injEq] at h
    subst h
    refine hI.app_moves rfl rfl rfl rfl ?_ (fun _ => by rw [happ]; rfl) nofun hI.safe
    rw [hm, happ]
    rfl
  | create =>
    simp only [happ, Option.some.injEq] at h hp hm
    subst h
    refine hI.app_moves rfl rfl hp rfl hm (fun _ => by rw [happ]; rfl) nofun ?_
    exact hI.safe.note (by simp [Op.Harmless])
  | mutexInit =>
    simp only [happ, Option.some.injEq] at h hp ho
    subst h
    refine hI.app_moves rfl rfl hp ho ?_ (fun _ => by rw [happ]; rfl) nofun hI.safe
    rw [he (by rw [happ]; rfl)]
    rfl
  | setStartup =>
    simp only [happ, Option.some.injEq] at h hp ho hm
    subst h
    exact hI.app_moves rfl rfl hp ho hm (fun _ => by rw [happ]; rfl) nofun hI.safe
  | run =>
    simp [happ] at h
  | running =>
    simp only [happ, Option.some.injEq] at h hp ho hm
    subst h
    exact hI.app_moves rfl rfl hp ho hm nofun nofun hI.safe
  | shutdown pc =>
    simp only [happ, Option.map_eq_some_iff] at h
    obtain ⟨⟨next, t⟩, hnext, rfl⟩ := h
    exact shutdown_inv hI happ hc hnext
  | done =>
    simp [happ] at h

/-! ## The loop thread -/

/-- While the loop thread runs, the application waits for the mutex at most. -/
theorem Inv.running {s : ReactorStation} (hI : Inv s) (hborn : s.loop ≠ .unborn)
    (hend : s.loop ≠ .ended) : s.app.early = false ∧ s.app.late = false := by
  constructor
  · cases he : s.app.early with
    | false => rfl
    | true => exact absurd (hI.early he) hborn
  · cases hl : s.app.late with
    | false => rfl
    | true => exact ((hI.late hl).elim hborn hend).elim

/-- Between `startup` and the lock in `shutdown` the `EventGlobal` is live, and who has
the mutex depends on the loop thread alone. -/
theorem AppPc.between {a : AppPc} (h : a.early = false ∧ a.late = false) :
    a.pointer = true ∧ a.object = .live ∧
      ∀ l, mutexAt a l = if l.inside then .held .loop else .free := by
  obtain ⟨he, hl⟩ := h
  cases a with
  | shutdown pc => cases pc <;> simp_all [late, pointer, object, mutexAt]
  | _ => simp_all [early, late, pointer, object, mutexAt]

/-- Inside, the loop thread holds the mutex and the `EventGlobal` is live. -/
theorem Inv.inside {s : ReactorStation} (hI : Inv s) (hin : s.loop.inside) :
    (s.app.early = false ∧ s.app.late = false) ∧ s.mEveGlobal = true ∧ s.global = .live ∧
      s.mExitMutex = .held .loop := by
  have hbetween := hI.running (by intro h; simp [h, LoopPc.inside] at hin)
    (by intro h; simp [h, LoopPc.inside] at hin)
  obtain ⟨hpointer, hobject, hmutex⟩ := AppPc.between hbetween
  refine ⟨hbetween, hI.pointer.trans hpointer, hI.object.trans hobject, ?_⟩
  rw [hI.mutex, hmutex, if_pos hin]

/-- A step of the loop thread leaves the application where it is. -/
theorem Inv.loop_moves {s s' : ReactorStation} (hI : Inv s)
    (hbetween : s.app.early = false ∧ s.app.late = false) (happ : s'.app = s.app)
    (hpointer : s'.mEveGlobal = s.mEveGlobal) (hobject : s'.global = s.global)
    (hmutex : s'.mExitMutex = if s'.loop.inside then .held .loop else .free)
    (hcopied : s'.loop.inside → s'.loop ≠ .getEventGlobal → s'.eveGlobal = true)
    (hhandler : ∀ pc, s'.loop ≠ .handler pc) (hsafe : Safe s') : Inv s' where
  pointer := by rw [hpointer, happ, hI.pointer]
  object := by rw [hobject, happ, hI.object]
  mutex := by rw [hmutex, happ, (AppPc.between hbetween).2.2]
  copied := hcopied
  early := by simp [happ, hbetween.1]
  late := by simp [happ, hbetween.2]
  handler := hhandler
  safe := hsafe

/-- Inside, the loop thread may use its `EventGlobal` and go on to another place inside. -/
theorem Inv.loop_uses {s : ReactorStation} (hI : Inv s) {l : LoopPc} (hin : s.loop.inside)
    (hget : s.loop ≠ .getEventGlobal) (hl : l.inside) (hlh : ∀ pc, l ≠ .handler pc) :
    Inv { s.use .loop s.eveGlobal with loop := l } := by
  obtain ⟨hbetween, -, hlive, hheld⟩ := hI.inside hin
  have htrue := hI.copied hin hget
  refine hI.loop_moves hbetween rfl rfl rfl ?_ (fun _ _ => htrue) hlh (hI.safe.note ?_)
  · rw [if_pos hl]
    exact hheld
  · rw [if_pos htrue, hlive]
    exact fun _ => rfl

theorem loop_inv {s s' : ReactorStation} (hI : Inv s) (h : s.loopStep = some s') : Inv s' := by
  unfold loopStep at h
  cases hloop : s.loop with
  | unborn => simp [hloop] at h
  | lock =>
    have hbetween := hI.running (by simp [hloop]) (by simp [hloop])
    have hfree : s.mExitMutex = .free := by
      rw [hI.mutex, (AppPc.between hbetween).2.2, hloop]
      rfl
    simp only [hloop, ReactorStation.lock, hfree, Mutex.lock_free, Option.map_some] at h
    cases h
    exact hI.loop_moves hbetween rfl rfl rfl rfl (fun _ hne => absurd rfl hne) nofun
      (hI.safe.note ⟨nofun, nofun⟩)
  | getEventGlobal =>
    obtain ⟨hbetween, hpointer, -, hheld⟩ := hI.inside (by rw [hloop]; rfl)
    simp only [hloop, Option.some.injEq] at h
    subst h
    exact hI.loop_moves hbetween rfl rfl rfl hheld (fun _ _ => hpointer) nofun hI.safe
  | test =>
    obtain ⟨hbetween, -, -, hheld⟩ := hI.inside (by rw [hloop]; rfl)
    have hcopied := hI.copied (by rw [hloop]; rfl) (by simp [hloop])
    simp only [hloop, Option.some.injEq] at h
    subst h
    split
    · exact hI.loop_moves hbetween rfl rfl rfl hheld (fun _ _ => hcopied) nofun hI.safe
    · exact hI.loop_moves hbetween rfl rfl rfl hheld (fun _ _ => hcopied) nofun hI.safe
  | handler pc => exact absurd hloop (hI.handler pc)
  | unlock =>
    obtain ⟨hbetween, -, -, hheld⟩ := hI.inside (by rw [hloop]; rfl)
    simp only [hloop, Option.some.injEq, ReactorStation.unlock, hheld, Mutex.unlock_held] at h
    subst h
    exact hI.loop_moves hbetween rfl rfl rfl rfl nofun nofun (hI.safe.note nofun)
  | ended => simp [hloop] at h
  | _ =>
    simp only [hloop, Option.some.injEq] at h
    subst h
    exact hI.loop_uses (by rw [hloop]; rfl) (by simp [hloop]) rfl nofun

/-- `pthread_create` starts the loop thread in front of its lock, if it does. -/
theorem run_inv {s : ReactorStation} (hI : Inv s) (happ : s.app = .run) {l : LoopPc}
    (hl : l = .lock ∨ l = .unborn) : Inv { s with app := .running, loop := l } := by
  obtain ⟨hpointer, hobject, hmutex, -, hearly, -, -, hsafe⟩ := hI
  rw [happ] at hpointer hobject hmutex
  rw [hearly (by rw [happ]; rfl)] at hmutex
  rcases hl with rfl | rfl
  · exact ⟨hpointer, hobject, hmutex, nofun, nofun, nofun, nofun, hsafe⟩
  · exact ⟨hpointer, hobject, hmutex, nofun, nofun, nofun, nofun, hsafe⟩

theorem step_inv {s s' : ReactorStation} {e : Event} (hI : Inv s) (hc : Orderly s e)
    (h : step s e = some s') : Inv s' := by
  cases e with
  | app => exact app_inv hI hc h
  | run ret =>
    simp only [step] at h
    split at h
    · rename_i happ
      cases h
      refine run_inv hI happ ?_
      split
      · exact .inl rfl
      · exact .inr (hI.early (by rw [happ]; rfl))
    · cases h
  | loop => exact loop_inv hI h
  | signal sig => exact hc.elim
  | accept =>
    simp only [step] at h
    split at h
    · rename_i hloop
      cases h
      exact hI.loop_uses (l := s.loop) (by rw [hloop]; rfl) (by simp [hloop]) (by rw [hloop]; rfl)
        hI.handler
    · cases h

theorem inv_of_orderly {es : List Event} {t : ReactorStation} (hC : Meets step Orderly .new es)
    (h : Runs.run step .new es = some t) : Inv t :=
  run_meets (fun _ _ _ => step_inv) inv_new hC h

/-- In a run without a signal in which `shutdown` of the application does not lock the
mutex before the loop thread has, every state is safe: each is the last one of such a run. -/
theorem safe_of_orderly {es : List Event} {t : ReactorStation} (hC : Meets step Orderly .new es)
    (h : Runs.run step .new es = some t) : Safe t :=
  (inv_of_orderly hC h).safe

/-! ## After a step that is not orderly -/

/-- In a callback of a signal the loop thread comes to the lock of the mutex it holds. -/
theorem unsafe_of_signal {s : ReactorStation} (hI : Inv s) (hloop : s.loop = .turn) :
    ∃ t, Runs.run step { s with loop := .handler .test } (List.replicate 4 .loop) = some t ∧
      ¬ Safe t := by
  obtain ⟨-, hpointer, -, hheld⟩ := hI.inside (by rw [hloop]; rfl)
  obtain ⟨_, _, _, _, _, _, _, log⟩ := s
  cases hloop
  cases hpointer
  cases hheld
  refine ⟨_, rfl, fun hs => ?_⟩
  exact (hs (.lock .loop (.held .loop)) (List.mem_append_right _ (List.mem_singleton.mpr rfl))).1 rfl

/-- Where the application locks the mutex first, it can destroy it before the loop thread
locks it. -/
theorem unsafe_of_first {s s' : ReactorStation} (hI : Inv s) (happ : s.app = .shutdown .lock)
    (hloop : s.loop = .lock) (h : step s .app = some s') :
    ∃ t, Runs.run step s' (List.replicate 5 .app ++ [.loop]) = some t ∧ ¬ Safe t := by
  have hfree := hI.mutex
  rw [happ, hloop] at hfree
  obtain ⟨_, _, _, _, _, _, _, log⟩ := s
  cases hloop
  cases happ
  cases hfree
  cases h
  refine ⟨_, rfl, fun hs => ?_⟩
  exact (hs (.lock .loop .destroyed) (List.mem_append_right _ (List.mem_singleton.mpr rfl))).2 rfl rfl

/-- The condition cannot be dropped for any step: after one that is not orderly the two
threads by themselves can come to a fault. -/
theorem unsafe_of_not_orderly {s s' : ReactorStation} {e : Event} (hI : Inv s)
    (hc : ¬ Orderly s e) (h : step s e = some s') :
    ∃ es, (∀ e ∈ es, e = .app ∨ e = .loop) ∧
      ∃ t, Runs.run step s' es = some t ∧ ¬ Safe t := by
  cases e with
  | app =>
    simp only [Orderly, Classical.not_imp, not_not] at hc
    exact ⟨_, by simp, unsafe_of_first hI hc.1 hc.2 h⟩
  | signal sig =>
    simp only [step] at h
    split at h
    · rename_i hloop
      cases h
      exact ⟨_, by simp, unsafe_of_signal hI hloop⟩
    · cases h
  | run ret => exact absurd trivial hc
  | loop => exact absurd trivial hc
  | accept => exact absurd trivial hc

instance (s : ReactorStation) : (e : Event) → Decidable (Orderly s e)
  | .app => inferInstanceAs (Decidable (_ → _))
  | .signal _ => isFalse id
  | .run _ | .loop | .accept => isTrue trivial

/-- `startup`, with a loop thread. -/
def startup : List Event := [.app, .app, .app, .app, .run 0]

/-- The loop thread, from its lock into a turn. -/
def firstTurn : List Event := List.replicate 6 .loop

/-- `shutdown` during a turn: the application waits until the loop thread has left. -/
def shutdownInTurn : List Event :=
  startup ++ firstTurn ++ [.accept] ++ List.replicate 4 .app ++ List.replicate 5 .loop ++
    List.replicate 6 .app

theorem safe_of_orderly_turn :
    ∃ t, Runs.run step .new shutdownInTurn = some t ∧ t.app = .done ∧ t.loop = .ended ∧ Safe t :=
  ⟨_, rfl, rfl, rfl, safe_of_orderly (show Meets step Orderly .new shutdownInTurn by decide) rfl⟩

/-- A signal in the first turn: `shutdown` locks the mutex that its thread holds. And a
`shutdown` before the loop thread has run: it locks the mutex when it is destroyed. -/
theorem shutdown_unsafe :
    (∃ t, Runs.run step .new (startup ++ firstTurn ++ .signal .SIGINT :: List.replicate 4 .loop) =
        some t ∧ ¬ Safe t) ∧
    ∃ t, Runs.run step .new (startup ++ List.replicate 10 .app ++ [.loop]) = some t ∧ ¬ Safe t :=
  ⟨⟨_, rfl, by decide⟩, ⟨_, rfl, by decide⟩⟩

end FilesEvent.Reactor
