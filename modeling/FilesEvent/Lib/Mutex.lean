/-! A mutex that does not count its locks, from its initialisation to its
destruction. `τ` names the threads. -/

namespace FilesEvent

/-- `raw` is a mutex that was not initialised. -/
inductive Mutex (τ : Type)
  | raw
  | free
  | held (t : τ)
  | destroyed
  deriving DecidableEq, Repr

namespace Mutex

variable {τ : Type} [DecidableEq τ]

/-- A call of `lock` by `t`: whether it returns, and the mutex after it. There is no
result while another thread holds the mutex. A thread that holds it itself
stays in the call. A mutex that is not in use returns an error and stays as it is. -/
def lock (t : τ) : Mutex τ → Option (Bool × Mutex τ)
  | raw => some (true, raw)
  | free => some (true, held t)
  | held u => if u = t then some (false, held u) else none
  | destroyed => some (true, destroyed)

def unlock (t : τ) (m : Mutex τ) : Mutex τ := if m = held t then free else m

@[simp] theorem lock_free (t : τ) : lock t free = some (true, held t) := rfl

@[simp] theorem unlock_held (t : τ) : unlock t (held t) = free := if_pos rfl

theorem lock_other {t u : τ} (h : u ≠ t) : lock t (held u) = none := if_neg h

end Mutex

end FilesEvent
