import FilesEvent.Net.Queues

/-! The table of descriptors in `epoll.c` and the kernel's copy of it against the
events that are inserted. -/

namespace FilesEvent.Net

/-- The event waits for the descriptor to be readable. -/
def Event.reads (ev : Event) : Bool := ev.flags.inserted && ev.events.read

def Event.writes (ev : Event) : Bool := ev.flags.inserted && ev.events.write

/-- What the kernel is to know of a descriptor. -/
def wanted (version : Nat) (fd : Int) (evep : Evepoll) : Option Interest :=
  if evep.evread.isSome || evep.evwrite.isSome then
    some ⟨⟨evep.evread.isSome, evep.evwrite.isSome⟩, version, fd.toNat⟩
  else none

/-- The table names the reader and the writer of every descriptor, and the kernel
watches the descriptors for just these. -/
structure Table (m : Mem) (e : Epollop) : Prop where
  reader : ∀ fd evep, e.evep fd = some evep →
    ∀ a, evep.evread = some a ↔ (m a).reads = true ∧ (m a).fd = fd
  writer : ∀ fd evep, e.evep fd = some evep →
    ∀ a, evep.evwrite = some a ↔ (m a).writes = true ∧ (m a).fd = fd
  range : ∀ a, (m a).flags.inserted = true → 0 ≤ (m a).fd ∧ (m a).fd < e.fds.length
  live : ∀ a, (m a).flags.inserted = true → e.live (m a).fd = true
  kernel : ∀ fd, e.interest fd = (e.evep fd).bind (wanted e.version fd)

theorem evep_range {e : Epollop} {fd : Int} (h : 0 ≤ fd ∧ fd < e.fds.length) :
    ∃ evep, e.evep fd = some evep := by
  have hlt : fd.toNat < e.fds.length := by omega
  exact ⟨e.fds.get ⟨fd.toNat, hlt⟩, by rw [Epollop.evep, if_pos h.1, List.getElem?_eq_getElem hlt]; rfl⟩

theorem range_of_evep {e : Epollop} {fd : Int} {evep : Evepoll} (h : e.evep fd = some evep) :
    0 ≤ fd ∧ fd < e.fds.length := by
  rw [Epollop.evep] at h
  split at h
  next h0 =>
    have := (List.getElem?_eq_some_iff.mp h).1
    omega
  next => cases h

theorem evep_setEvep {e : Epollop} {fd : Int} (h : 0 ≤ fd ∧ fd < e.fds.length) (evep : Evepoll)
    (fd' : Int) : (e.setEvep fd evep).evep fd' = if fd' = fd then some evep else e.evep fd' := by
  simp only [Epollop.evep, Epollop.setEvep, List.getElem?_set]
  split
  next h0 =>
    split
    next hn =>
      rw [if_pos (by omega), if_pos (by omega : fd' = fd)]
    next hn => rw [if_neg (by omega : ¬fd' = fd)]
  next h0 => rw [if_neg (by omega : ¬fd' = fd)]

/-- The table looks at the inserted events alone. -/
theorem Table.congr {m m' : Mem} {e : Epollop} (h : Table m e)
    (hm : ∀ a, (m' a).flags.inserted = (m a).flags.inserted ∧
      ((m a).flags.inserted = true → (m' a).fd = (m a).fd ∧ (m' a).events = (m a).events)) :
    Table m' e := by
  have hr : ∀ a fd, ((m' a).reads = true ∧ (m' a).fd = fd) ↔ (m a).reads = true ∧ (m a).fd = fd := by
    intro a fd
    obtain ⟨h₁, h₂⟩ := hm a
    cases hi : (m a).flags.inserted with
    | false => simp [Event.reads, h₁, hi]
    | true => simp [Event.reads, h₁, hi, h₂ hi]
  have hw : ∀ a fd, ((m' a).writes = true ∧ (m' a).fd = fd) ↔
      (m a).writes = true ∧ (m a).fd = fd := by
    intro a fd
    obtain ⟨h₁, h₂⟩ := hm a
    cases hi : (m a).flags.inserted with
    | false => simp [Event.writes, h₁, hi]
    | true => simp [Event.writes, h₁, hi, h₂ hi]
  refine ⟨fun fd evep he a => ?_, fun fd evep he a => ?_, fun a ha => ?_, fun a ha => ?_, h.kernel⟩
  · rw [hr, h.reader fd evep he]
  · rw [hw, h.writer fd evep he]
  · rw [(hm a).1] at ha
    rw [((hm a).2 ha).1]
    exact h.range a ha
  · rw [(hm a).1] at ha
    rw [((hm a).2 ha).1]
    exact h.live a ha

/-- The kernel watches no descriptor that no inserted event waits for. -/
theorem Table.unwatched {m : Mem} {e : Epollop} {fd : Int} (h : Table m e)
    (hno : ∀ a, (m a).flags.inserted = true → (m a).fd ≠ fd) : e.interest fd = none := by
  rw [h.kernel]
  cases he : e.evep fd with
  | none => rfl
  | some evep =>
    have hr : evep.evread = none := by
      cases hr : evep.evread with
      | none => rfl
      | some a =>
        obtain ⟨h₁, h₂⟩ := (h.reader fd evep he a).mp hr
        rw [Event.reads, Bool.and_eq_true] at h₁
        exact absurd h₂ (hno a h₁.1)
    have hw : evep.evwrite = none := by
      cases hw : evep.evwrite with
      | none => rfl
      | some a =>
        obtain ⟨h₁, h₂⟩ := (h.writer fd evep he a).mp hw
        rw [Event.writes, Bool.and_eq_true] at h₁
        exact absurd h₂ (hno a h₁.1)
    rw [Option.bind_some, wanted, hr, hw]
    rfl

/-- A new entry for one descriptor, in the table and in the kernel, that names the
readers and writers in the changed memory. -/
theorem Table.update {m m' : Mem} {e e' : Epollop} {fd : Int} (h : Table m e) (evep : Evepoll)
    (hfd : 0 ≤ fd ∧ fd < e.fds.length) (hfds : e'.fds = (e.setEvep fd evep).fds)
    (hv : e'.version = e.version) (hl : e'.live = e.live)
    (hk : e'.interest = Function.update e.interest fd (wanted e.version fd evep))
    (hother : ∀ a, (m a).fd = (m' a).fd ∧ ((m a).fd ≠ fd →
      (m' a).flags.inserted = (m a).flags.inserted ∧ (m' a).events = (m a).events))
    (hr : ∀ a, evep.evread = some a ↔ (m' a).reads = true ∧ (m' a).fd = fd)
    (hw : ∀ a, evep.evwrite = some a ↔ (m' a).writes = true ∧ (m' a).fd = fd)
    (hlive : ∀ a, (m' a).flags.inserted = true → (m a).fd = fd → e.live fd = true) :
    Table m' e' := by
  have hevep : ∀ fd', e'.evep fd' = if fd' = fd then some evep else e.evep fd' := fun fd' => by
    rw [← evep_setEvep hfd, Epollop.evep, Epollop.evep, hfds]
  have hlen : e'.fds.length = e.fds.length := by rw [hfds]; exact List.length_set
  have hreads : ∀ a, (m a).fd ≠ fd → (m' a).reads = (m a).reads ∧ (m' a).writes = (m a).writes := by
    intro a ha
    obtain ⟨h₁, h₂⟩ := (hother a).2 ha
    simp [Event.reads, Event.writes, h₁, h₂]
  refine ⟨fun fd' evep' he a => ?_, fun fd' evep' he a => ?_, fun a ha => ?_, fun a ha => ?_,
    fun fd' => ?_⟩
  · rw [hevep] at he
    split at he
    next e₁ =>
      cases he
      rw [e₁]
      exact hr a
    next e₁ =>
      rw [h.reader fd' evep' he a]
      by_cases ha : (m a).fd = fd
      · have := (hother a).1 ▸ ha
        simp [ha, this, Ne.symm e₁]
      · rw [(hreads a ha).1, (hother a).1]
  · rw [hevep] at he
    split at he
    next e₁ =>
      cases he
      rw [e₁]
      exact hw a
    next e₁ =>
      rw [h.writer fd' evep' he a]
      by_cases ha : (m a).fd = fd
      · have := (hother a).1 ▸ ha
        simp [ha, this, Ne.symm e₁]
      · rw [(hreads a ha).2, (hother a).1]
  · rw [hlen, ← (hother a).1]
    by_cases hfa : (m a).fd = fd
    · rw [hfa]
      exact hfd
    · exact h.range a (((hother a).2 hfa).1 ▸ ha)
  · rw [hl, ← (hother a).1]
    by_cases hfa : (m a).fd = fd
    · rw [hfa]
      exact hlive a ha hfa
    · exact h.live a (((hother a).2 hfa).1 ▸ ha)
  · rw [hk, hv, hevep, Function.update_apply]
    split
    next e₁ => rw [e₁, Option.bind_some]
    next => exact h.kernel fd'

/-- `epoll_ctl` with the operation that the table calls for. -/
theorem ctl_spec {m : Mem} {e : Epollop} {fd : Int} {evep : Evepoll} (h : Table m e)
    (he : e.evep fd = some evep) (hlive : e.live fd = true) (e₁ : Epollop)
    (hi : e₁.interest = e.interest) (hl : e₁.live = e.live) (op : CtlOp) (mask : Mask)
    (hop : if evep.evread.isSome || evep.evwrite.isSome then op ≠ .add else op = .add) :
    e₁.ctl op fd mask = some (e₁.watch fd
      (if op = .del then none else some ⟨mask, e₁.version, fd.toNat⟩)) := by
  have hk := h.kernel fd
  rw [he, Option.bind_some, wanted, ← hi] at hk
  split at hop
  next hs =>
    rw [if_pos hs] at hk
    cases op with
    | add => exact absurd rfl hop
    | mod => simp [Epollop.ctl, hl, hlive, hk]
    | del => simp [Epollop.ctl, hl, hlive, hk]
  next hs =>
    rw [if_neg hs] at hk
    subst hop
    simp [Epollop.ctl, hl, hlive, hk]

theorem reads_flag (m : Mem) (a x : Addr) (b : Bool) :
    (m.flag a .inserted b x).reads = if x = a then b && (m a).events.read else (m x).reads := by
  rw [flag_apply]
  split <;> rfl

theorem writes_flag (m : Mem) (a x : Addr) (b : Bool) :
    (m.flag a .inserted b x).writes = if x = a then b && (m a).events.write else (m x).writes := by
  rw [flag_apply]
  split <;> rfl

theorem fd_flag (m : Mem) (a x : Addr) (q : Queue) (b : Bool) :
    (m.flag a q b x).fd = (m x).fd := by
  rw [flag_apply]
  split
  next e => rw [e]
  next => rfl

theorem flag_other {m : Mem} {a x : Addr} {q : Queue} {b : Bool} (h : x ≠ a) :
    m.flag a q b x = m x := by
  rw [flag_apply, if_neg h]

/-- One direction of a descriptor after the event `a` was entered for it, or not. -/
theorem entered_iff {o : Option Addr} {r : Addr → Prop} {a : Addr} {b : Bool}
    (h : ∀ x, o = some x ↔ r x) (ha : ¬r a) (hfree : b = true → ∀ x, ¬r x) (x : Addr) :
    (if b then some a else o) = some x ↔ if x = a then b = true else r x := by
  cases b with
  | true =>
    have hx := hfree rfl x
    by_cases e : x = a
    · simp [e]
    · simp [e, hx, Ne.symm e]
  | false =>
    by_cases e : x = a
    · simpa [e, h] using ha
    · simp [e, h]

/-- `epoll_ctl` refuses what `epoll_add` asks for just where the descriptor is not open. -/
theorem epollAdd_result (recalc : State → Option (State × Int)) {m : Mem} {s : State} {a : Addr}
    (ht : Table m s.epoll) (hs : (s.mem a).events.signal = false)
    (hr : 0 ≤ (s.mem a).fd ∧ (s.mem a).fd < s.epoll.fds.length) :
    ∃ s', epollAdd recalc s a = some (s', if s.epoll.live (s.mem a).fd then 0 else -1) := by
  obtain ⟨evep, he⟩ := evep_range hr
  have hlt : ¬(s.mem a).fd ≥ s.epoll.fds.length := by omega
  rw [epollAdd, if_neg (by simp [hs]), if_neg hlt, Option.bind_some]
  simp only [he, Option.bind_some]
  rw [if_neg (by decide)]
  cases hl : s.epoll.live (s.mem a).fd with
  | true =>
    rw [ctl_spec ht he hl s.epoll rfl rfl _ _ (by split <;> simp)]
    exact ⟨_, rfl⟩
  | false =>
    have hc : ∀ op mask, s.epoll.ctl op (s.mem a).fd mask = none := fun op mask => by
      unfold Epollop.ctl
      rw [hl, if_neg Bool.false_ne_true]
    rw [hc]
    exact ⟨_, rfl⟩

/-- `epoll_add` of an event whose directions are free succeeds. -/
theorem epollAdd_spec (recalc : State → Option (State × Int)) {m : Mem} {s : State} {a : Addr}
    (ht : Table m s.epoll) (hm : s.mem = m.flag a .inserted true)
    (hi : (m a).flags.inserted = false) (hs : (m a).events.signal = false)
    (hr : 0 ≤ (m a).fd ∧ (m a).fd < s.epoll.fds.length) (hl : s.epoll.live (m a).fd = true)
    (hfree : ∀ b, (m b).fd = (m a).fd → ((m a).events.read = true → (m b).reads = false) ∧
      ((m a).events.write = true → (m b).writes = false)) (hio : (m a).events.io = true) :
    ∃ e, epollAdd recalc s a = some ({ s with epoll := e }, 0) ∧ Table s.mem e ∧
      e.fds.length = s.epoll.fds.length ∧ e.version = s.epoll.version ∧ e.live = s.epoll.live := by
  obtain ⟨evep, he⟩ := evep_range hr
  have hev : (s.mem a).fd = (m a).fd ∧ (s.mem a).events = (m a).events := by
    rw [hm, flag_apply, if_pos rfl]
    exact ⟨rfl, rfl⟩
  have hlt : ¬(m a).fd ≥ s.epoll.fds.length := by omega
  let evep' : Evepoll := ⟨if (m a).events.read then some a else evep.evread,
    if (m a).events.write then some a else evep.evwrite⟩
  have hc := ctl_spec ht he hl s.epoll rfl rfl
    (if evep.evread.isSome || evep.evwrite.isSome then .mod else .add)
    ⟨evep.evread.isSome || (m a).events.read, evep.evwrite.isSome || (m a).events.write⟩
    (by split <;> simp)
  refine ⟨_, by
    rw [epollAdd]
    simp only [hev, hs, hlt, Bool.false_eq_true, if_false, Option.bind_some]
    rw [if_neg (by decide)]
    simp only [he, hc, Option.bind_some]
    rfl, ?_, ?_⟩
  · have hself : (m a).reads = false ∧ (m a).writes = false := by
      simp [Event.reads, Event.writes, hi]
    refine ht.update evep' hr rfl rfl rfl ?_ (fun x => ⟨?_, fun hx => ?_⟩)
      (fun x => ?_) (fun x => ?_) fun _ _ _ => hl
    · refine congrArg (Function.update s.epoll.interest (m a).fd) ?_
      rw [if_neg (by split <;> simp), wanted, if_pos]
      · simp only [evep']
        cases (m a).events.read <;> cases (m a).events.write <;> simp
      · rw [What.io, Bool.or_eq_true] at hio
        rcases hio with h | h <;> simp [evep', h]
    · rw [hm, fd_flag]
    · have hxa : x ≠ a := fun e => hx (e ▸ rfl)
      rw [hm, flag_other hxa]
      exact ⟨rfl, rfl⟩
    · rw [hm, reads_flag, fd_flag, entered_iff (ht.reader _ _ he) (by simp [hself])
        fun h x hx => by simp [((hfree x hx.2).1 h)] at hx]
      by_cases e : x = a <;> simp [e]
    · rw [hm, writes_flag, fd_flag, entered_iff (ht.writer _ _ he) (by simp [hself])
        fun h x hx => by simp [((hfree x hx.2).2 h)] at hx]
      by_cases e : x = a <;> simp [e]
  · exact ⟨by simp [Epollop.setEvep, Epollop.watch], rfl, rfl⟩

/-- One direction of a descriptor after the event `a` left it. `k` tells whether another
event stays there. -/
theorem left_iff {o : Option Addr} {r : Addr → Prop} {a : Addr} {b k : Bool}
    (h : ∀ x, o = some x ↔ r x) (ha : r a ↔ b = true)
    (hk : k = true ↔ b = false ∧ o.isSome = true) (x : Addr) :
    (if k then o else none) = some x ↔ x ≠ a ∧ r x := by
  cases k with
  | true =>
    obtain ⟨rfl, -⟩ := hk.mp rfl
    rw [if_pos rfl, h]
    exact ⟨fun hx => ⟨fun e => by simpa using ha.mp (e ▸ hx), hx⟩, fun hx => hx.2⟩
  | false =>
    rw [if_neg Bool.false_ne_true]
    refine iff_of_false nofun fun ⟨hxa, hx⟩ => ?_
    have ho := (h x).mpr hx
    cases b with
    | true =>
      rw [(h a).mpr (ha.mpr rfl)] at ho
      exact hxa (Option.some.inj ho).symm
    | false => exact Bool.false_ne_true (hk.mpr ⟨rfl, by rw [ho]; rfl⟩)

/-- `epoll_del` of an event that was inserted succeeds. -/
theorem epollDel_spec {m : Mem} {s : State} {a : Addr} (ht : Table m s.epoll)
    (hm : s.mem = m.flag a .inserted false) (hi : (m a).flags.inserted = true)
    (hs : (m a).events.signal = false) (hio : (m a).events.io = true) :
    ∃ e, epollDel s a = some ({ s with epoll := e }, 0) ∧ Table s.mem e ∧
      e.fds.length = s.epoll.fds.length ∧ e.version = s.epoll.version ∧ e.live = s.epoll.live := by
  have hr := ht.range a hi
  obtain ⟨evep, he⟩ := evep_range hr
  have hev : (s.mem a).fd = (m a).fd ∧ (s.mem a).events = (m a).events := by
    rw [hm, flag_apply, if_pos rfl]
    exact ⟨rfl, rfl⟩
  have hlt : ¬(m a).fd ≥ s.epoll.fds.length := by omega
  have hra : (m a).reads = true ∧ (m a).fd = (m a).fd ↔ (m a).events.read = true := by
    simp [Event.reads, hi]
  have hwa : (m a).writes = true ∧ (m a).fd = (m a).fd ↔ (m a).events.write = true := by
    simp [Event.writes, hi]
  have hsome : (evep.evread.isSome || evep.evwrite.isSome) = true := by
    rw [What.io, Bool.or_eq_true] at hio
    rcases hio with h | h
    · rw [(ht.reader _ _ he a).mpr (hra.mpr h)]
      rfl
    · rw [(ht.writer _ _ he a).mpr (hwa.mpr h)]
      simp
  have hkr : keepsReader (m a).events evep = true ↔
      (m a).events.read = false ∧ evep.evread.isSome = true := by
    rw [What.io, Bool.or_eq_true] at hio
    simp only [keepsReader]
    cases hr' : (m a).events.read <;> simp_all
  have hkw : keepsWriter (m a).events evep = true ↔
      (m a).events.write = false ∧ evep.evwrite.isSome = true := by
    rw [What.io, Bool.or_eq_true] at hio
    simp only [keepsWriter]
    cases hw' : (m a).events.write <;> simp_all
  let evep' : Evepoll := ⟨if keepsReader (m a).events evep then evep.evread else none,
    if keepsWriter (m a).events evep then evep.evwrite else none⟩
  have hc := ctl_spec ht he (ht.live a hi) (s.epoll.setEvep (m a).fd evep') rfl rfl
    (if keepsWriter (m a).events evep || keepsReader (m a).events evep then .mod else .del)
    (if keepsWriter (m a).events evep then ⟨false, true⟩
      else if keepsReader (m a).events evep then ⟨true, false⟩
      else ⟨(m a).events.read, (m a).events.write⟩)
    (by rw [if_pos hsome]; split <;> nofun)
  refine ⟨_, by
    simp only [epollDel, hev, hs, hlt, he, Bool.false_eq_true, if_false, Option.bind_some]
    simp only [hc, evep']
    rfl, ?_, ?_⟩
  · refine ht.update evep' hr rfl rfl rfl ?_ (fun x => ⟨?_, fun hx => ?_⟩)
      (fun x => ?_) (fun x => ?_) fun _ _ _ => ht.live a hi
    · refine congrArg (Function.update s.epoll.interest (m a).fd) ?_
      have hboth : ¬(keepsWriter (m a).events evep = true ∧ keepsReader (m a).events evep = true) := by
        rintro ⟨h₁, h₂⟩
        rw [What.io, (hkr.mp h₂).1, (hkw.mp h₁).1] at hio
        cases hio
      cases h₁ : keepsWriter (m a).events evep with
      | true =>
        cases h₂ : keepsReader (m a).events evep with
        | true => exact absurd ⟨h₁, h₂⟩ hboth
        | false => simp [evep', h₁, h₂, wanted, (hkw.mp h₁).2, Epollop.setEvep]
      | false =>
        cases h₂ : keepsReader (m a).events evep with
        | true => simp [evep', h₁, h₂, wanted, (hkr.mp h₂).2, Epollop.setEvep]
        | false => simp [evep', h₁, h₂, wanted]
    · rw [hm, fd_flag]
    · have hxa : x ≠ a := fun e => hx (e ▸ rfl)
      rw [hm, flag_other hxa]
      exact ⟨rfl, rfl⟩
    · rw [hm, reads_flag, fd_flag, left_iff (ht.reader _ _ he) hra hkr]
      by_cases e : x = a <;> simp [e]
    · rw [hm, writes_flag, fd_flag, left_iff (ht.writer _ _ he) hwa hkw]
      by_cases e : x = a <;> simp [e]
  · exact ⟨by simp [Epollop.setEvep, Epollop.watch], rfl, rfl⟩

/-! ### `epoll_recalc` -/

/-- Doubling stops at the first power that reaches `max`. -/
theorem doubled_spec (fuel max : Nat) {n : Nat} (hn : 0 < n) (hf : max ≤ n + fuel) :
    ∃ k, doubled fuel n max = n * 2 ^ k ∧ max ≤ n * 2 ^ k ∧ ∀ j < k, n * 2 ^ j < max := by
  induction fuel generalizing n with
  | zero => exact ⟨0, (Nat.mul_one n).symm, by omega, fun j hj => absurd hj (Nat.not_lt_zero j)⟩
  | succ fuel ih =>
    rw [doubled]
    split
    next hlt =>
      obtain ⟨k, h₁, h₂, h₃⟩ := ih (n := 2 * n) (by omega) (by omega)
      have hpow : ∀ j, 2 * n * 2 ^ j = n * 2 ^ (j + 1) := fun j => by
        rw [Nat.pow_succ, Nat.mul_comm 2 n, Nat.mul_assoc, Nat.mul_comm 2]
      rw [hpow] at h₁ h₂
      refine ⟨k + 1, h₁, h₂, fun j hj => ?_⟩
      cases j with
      | zero => simpa using hlt
      | succ j => rw [← hpow]; exact h₃ j (by omega)
    next hlt =>
      exact ⟨0, (Nat.mul_one n).symm, by omega, fun j hj => absurd hj (Nat.not_lt_zero j)⟩

theorem length_extend (e : Epollop) (fd : Nat) : (e.extend fd).fds.length =
    if fd > e.fds.length then max e.fds.length (doubled fd e.fds.length fd) else e.fds.length := by
  rw [Epollop.extend]
  split
  · simp only [List.length_append, List.length_replicate]
    omega
  · rfl

theorem interest_extend (e : Epollop) (fd : Nat) : (e.extend fd).interest = e.interest := by
  rw [Epollop.extend]
  split <;> rfl

/-- `epoll_recalc` with the descriptor itself leaves no room for it just where the doubling
ends at the descriptor. -/
theorem extend_short_iff {e : Epollop} {fd : Nat} (hn : 0 < e.fds.length)
    (hfd : e.fds.length ≤ fd) :
    (e.extend fd).fds.length ≤ fd ↔ ∃ k, fd = e.fds.length * 2 ^ k := by
  rw [length_extend]
  split
  next hlt =>
    obtain ⟨k, h₁, h₂, h₃⟩ := doubled_spec fd fd hn (by omega)
    rw [h₁]
    constructor
    · exact fun h => ⟨k, by omega⟩
    · rintro ⟨j, hj⟩
      have hjk : k ≤ j := by
        by_contra h
        have := h₃ j (by omega)
        omega
      have := Nat.mul_le_mul_left e.fds.length (Nat.pow_le_pow_right (by decide : 0 < 2) hjk)
      omega
  next hlt => exact iff_of_true (by omega) ⟨0, by omega⟩

theorem bind_eq_none {α β : Type} {o : Option α} {f : α → Option β} (hf : ∀ x, f x ≠ none) :
    o.bind f = none ↔ o = none := by
  cases o with
  | none => exact iff_of_true rfl rfl
  | some x => exact iff_of_false (hf x) nofun

theorem evep_eq_none {e : Epollop} {fd : Nat} : e.evep fd = none ↔ e.fds.length ≤ fd := by
  rw [Epollop.evep, if_pos (by omega), List.getElem?_eq_none_iff, Int.toNat_natCast]

/-- `epoll_add` uses an element beyond the end of the table just for the descriptors that are
the size of the table times a power of two, unless `evsignal_recalc` fails before. -/
theorem epollAdd_out_of_range_iff {recalc : State → Option (State × Int)} {s s' : State} {a : Addr}
    {res : Int} (hs : (s.mem a).events.signal = false) (h0 : 0 ≤ (s.mem a).fd)
    (hn : 0 < s.epoll.fds.length)
    (hrec : recalc { s with epoll := s.epoll.extend (s.mem a).fd.toNat } = some (s', res))
    (hlen : s'.epoll.fds.length = (s.epoll.extend (s.mem a).fd.toNat).fds.length) :
    epollAdd recalc s a = none ↔
      res ≠ -1 ∧ ∃ k, (s.mem a).fd = s.epoll.fds.length * 2 ^ k := by
  obtain ⟨fd, hfd⟩ := Int.eq_ofNat_of_zero_le h0
  have hsize : ∀ k, (fd : Int) = (s.epoll.fds.length : Int) * 2 ^ k ↔
      fd = s.epoll.fds.length * 2 ^ k := fun k => by exact_mod_cast Iff.rfl
  rw [hfd, Int.toNat_natCast] at hrec hlen
  rw [epollAdd, if_neg (by simp [hs])]
  simp only [hfd, hsize]
  split
  next hge =>
    rw [Int.toNat_natCast, hrec, Option.bind_some]
    simp only
    split
    next hres => exact iff_of_false nofun fun h => h.1 hres
    next hres =>
      rw [bind_eq_none (fun _ => by split <;> nofun), evep_eq_none, hlen,
        extend_short_iff hn (by omega), and_iff_right hres]
  next hge =>
    rw [Option.bind_some]
    simp only
    rw [if_neg (by decide), bind_eq_none (fun _ => by split <;> nofun), evep_eq_none]
    refine iff_of_false (by omega) ?_
    rintro ⟨-, k, hk⟩
    have := Nat.le_mul_of_pos_right s.epoll.fds.length (Nat.two_pow_pos k)
    omega

/-- `epoll_ctl` changes the entry of its descriptor alone. -/
theorem ctl_changes {e e' : Epollop} {op : CtlOp} {fd : Int} {m : Mask}
    (h : e.ctl op fd m = some e') :
    e'.fds.length = e.fds.length ∧ e'.version = e.version ∧
      ∀ x, x ≠ fd → e'.interest x = e.interest x := by
  have hwatch : ∀ i, e' = e.watch fd i → e'.fds.length = e.fds.length ∧ e'.version = e.version ∧
      ∀ x, x ≠ fd → e'.interest x = e.interest x := by
    rintro i rfl
    exact ⟨rfl, rfl, fun x hx => Function.update_of_ne hx _ _⟩
  unfold Epollop.ctl at h
  split at h
  · split at h
    all_goals first | (cases h; exact hwatch _ rfl) | cases h
  · cases h

/-- `epoll_add` of a descriptor beyond the table moves the table, and tells the kernel of its
own entry alone. -/
theorem epollAdd_growth {recalc : State → Option (State × Int)} {s s₁ s' : State} {a : Addr}
    {res r : Int} (hs : (s.mem a).events.signal = false)
    (hgt : s.epoll.fds.length < (s.mem a).fd)
    (hrec : recalc { s with epoll := s.epoll.extend (s.mem a).fd.toNat } = some (s₁, res))
    (hv : s₁.epoll.version = (s.epoll.extend (s.mem a).fd.toNat).version)
    (h : epollAdd recalc s a = some (s', r)) :
    s'.epoll.version = s.epoll.version + 1 ∧
      ∀ fd, fd ≠ (s.mem a).fd → s'.epoll.interest fd = s₁.epoll.interest fd := by
  have hver : s₁.epoll.version = s.epoll.version + 1 := by
    rw [hv, Epollop.extend, if_pos (by omega)]
  rw [epollAdd, if_neg (by simp [hs]), if_pos (by omega), hrec, Option.bind_some] at h
  simp only at h
  split at h
  next =>
    cases h
    exact ⟨hver, fun fd _ => rfl⟩
  next =>
    obtain ⟨evep, -, h⟩ := Option.bind_eq_some_iff.mp h
    generalize hc : s₁.epoll.ctl _ _ _ = o at h
    cases o with
    | none =>
      cases h
      exact ⟨hver, fun fd _ => rfl⟩
    | some e =>
      cases h
      obtain ⟨-, hv', hi⟩ := ctl_changes hc
      exact ⟨hv'.trans hver, hi⟩

/-! ### `evsignal_recalc` -/

/-- The loop of `evsignal_recalc` stops at an event whose signal has no handler. -/
theorem reinstall_refused_iff {m : Mem} {l : List Addr} {handler : Nat → Bool} :
    (reinstall m l handler).2 = -1 ↔ ∃ a ∈ l, handled (m a).fd = false := by
  induction l generalizing handler with
  | nil => simp [reinstall]
  | cons a l ih =>
    rw [reinstall]
    cases h : handled (m a).fd with
    | true => simp [ih, h]
    | false => simp [h]

/-- All but the entry of one descriptor is the same in the table. -/
structure Entry (fd : Int) (e e' : Epollop) : Prop where
  length : e'.fds.length = e.fds.length
  version : e'.version = e.version
  interest : ∀ x, x ≠ fd → e'.interest x = e.interest x

/-- The event of the socket pair can be added: what `event_set` made of it, and its descriptor
in the range of the table if it is still to be inserted. -/
structure Addable (s : State) : Prop where
  wf : Wf s.mem s.qs
  init : (s.mem s.ev_signal).flags.init = true
  signal : (s.mem s.ev_signal).events.signal = false
  range : (s.mem s.ev_signal).flags.inserted = false →
    0 ≤ (s.mem s.ev_signal).fd ∧ (s.mem s.ev_signal).fd < s.epoll.fds.length

/-- `event_add(&ev_signal)` changes the entry of the socket pair alone. -/
theorem addEvSignal_entry {s : State} (h : Addable s) :
    ∃ s', addEvSignal s = some s' ∧ Entry (s.mem s.ev_signal).fd s.epoll s'.epoll ∧
      s'.qs.signalqueue = s.qs.signalqueue ∧ ∀ x, (s'.mem x).fd = (s.mem x).fd := by
  have hsame : Entry (s.mem s.ev_signal).fd s.epoll s.epoll := ⟨rfl, rfl, fun _ _ => rfl⟩
  simp only [addEvSignal, eventAddWith, h.init, addTimeout, Option.bind_some, Bool.not_true,
    Bool.false_eq_true, if_false, h.signal, Bool.false_and]
  split
  next hcond =>
    rw [Bool.and_eq_true, Bool.not_eq_true', Bool.or_eq_false_iff] at hcond
    have hr := h.range hcond.2.1
    obtain ⟨s₁, h₁, l₁⟩ := eventQueueInsert_spec s.ev_signal .inserted h.wf hcond.2.1 h.init
      fun e => by cases e
    have hep : s₁.epoll = s.epoll := by rw [l₁.only]
    have hself : (s₁.mem s.ev_signal).fd = (s.mem s.ev_signal).fd ∧
        (s₁.mem s.ev_signal).events = (s.mem s.ev_signal).events := by
      rw [l₁.mem, flag_apply, if_pos rfl]
      exact ⟨rfl, rfl⟩
    have hfd : ∀ x, (s₁.mem x).fd = (s.mem x).fd := fun x => by rw [l₁.mem, fd_flag]
    have hq : s₁.qs.signalqueue = s.qs.signalqueue := (l₁.line .signal 0).trans (if_neg (by simp))
    obtain ⟨evep, he⟩ := evep_range hr
    rw [h₁, Option.bind_some, epollAdd]
    simp only [hself, h.signal, hep, Bool.false_eq_true, if_false]
    rw [if_neg (by omega), Option.bind_some]
    simp only [hep, he, Option.bind_some]
    rw [if_neg (by decide)]
    generalize hc : s.epoll.ctl _ _ _ = o
    cases o with
    | none => exact ⟨s₁, rfl, hep ▸ hsame, hq, hfd⟩
    | some e =>
      obtain ⟨hl, hv, hi⟩ := ctl_changes hc
      exact ⟨_, rfl, ⟨List.length_set.trans hl, hv, hi⟩, hq, hfd⟩
  next => exact ⟨s, rfl, hsame, rfl, fun _ => rfl⟩

/-- `evsignal_recalc` changes the entry of the socket pair at most, when it adds the event of
the pair, and fails just where an added signal has no handler. -/
theorem evsignalRecalc_entry {s : State} (h : s.sig.ev_signal_added = false → Addable s) :
    ∃ s' res, evsignalRecalc addEvSignal s = some (s', res) ∧
      s'.epoll.fds.length = s.epoll.fds.length ∧ s'.epoll.version = s.epoll.version ∧
      (∀ x, (s.sig.ev_signal_added = false → x ≠ (s.mem s.ev_signal).fd) →
        s'.epoll.interest x = s.epoll.interest x) ∧
      (res = -1 ↔ ∃ a ∈ s.qs.signalqueue, handled (s.mem a).fd = false) := by
  have hadd : ∃ s₁, (if s.sig.ev_signal_added then some s
      else addEvSignal { s with sig := { s.sig with ev_signal_added := true } }) = some s₁ ∧
      s₁.epoll.fds.length = s.epoll.fds.length ∧ s₁.epoll.version = s.epoll.version ∧
      (∀ x, (s.sig.ev_signal_added = false → x ≠ (s.mem s.ev_signal).fd) →
        s₁.epoll.interest x = s.epoll.interest x) ∧
      s₁.qs.signalqueue = s.qs.signalqueue ∧ ∀ x, (s₁.mem x).fd = (s.mem x).fd := by
    cases ha : s.sig.ev_signal_added with
    | true => exact ⟨s, rfl, rfl, rfl, fun _ _ => rfl, rfl, fun _ => rfl⟩
    | false =>
      obtain ⟨s₁, h₁, e, hq, hfd⟩ := addEvSignal_entry
        (s := { s with sig := { s.sig with ev_signal_added := true } })
        ⟨(h ha).wf, (h ha).init, (h ha).signal, (h ha).range⟩
      exact ⟨s₁, h₁, e.length, e.version, fun x hx => e.interest x (hx rfl), hq, hfd⟩
  obtain ⟨s₁, h₁, hl, hv, hi, hq, hfd⟩ := hadd
  rw [evsignalRecalc, h₁, Option.map_some]
  split
  next hno =>
    refine ⟨s₁, 0, rfl, hl, hv, hi, iff_of_false (by decide) ?_⟩
    rw [Bool.and_eq_true, decide_eq_true_eq, hq] at hno
    rw [hno.1]
    simp
  next =>
    refine ⟨_, _, rfl, hl, hv, hi, ?_⟩
    rw [reinstall_refused_iff, hq]
    simp only [hfd]

end FilesEvent.Net
