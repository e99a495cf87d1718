import FilesEvent.Net.Firing

/-! Timers: `timeout_correct` keeps the order of the tree, `timeout_process` takes the
events that are due and no others, and `timeout_next` tells when there will be one. -/

namespace FilesEvent.Net
open RedBlack What

/-- `RB_NEXT` in the list of the elements. -/
theorem next_split {m : Mem} {t : ColorTree Addr} (pre : List Addr) {post : List Addr} {a : Addr}
    (hs : RB.Sorted (key m) t.toList) (ht : t.toList = pre ++ a :: post) :
    RB.next a t = some post.head? := by
  rw [RB.next_spec hs (by rw [ht]; simp), ht]
  rw [ht] at hs
  obtain ⟨-, hpost, hpre⟩ := List.pairwise_append.mp hs
  have h₀ : pre.find? (fun y => decide (key m a < key m y)) = none :=
    List.find?_eq_none.mpr fun y hy => by simpa using (hpre y hy a (.head _)).le
  rw [List.find?_append, h₀, Option.none_or, List.find?_cons]
  simp only [lt_irrefl, decide_false]
  cases post with
  | nil => rfl
  | cons b post => simp [(List.pairwise_cons.mp hpost).1 b (.head _)]

theorem key_lt_iff {m : Mem} {a b : Nat} : key m a < key m b ↔
    (m a).timeout.lt (m b).timeout = true ∨ (m a).timeout = (m b).timeout ∧ a < b := by
  rw [key_lt, Timeval.lt_iff]
  generalize (m a).timeout = x
  generalize (m b).timeout = y
  cases x
  cases y
  simp only [Timeval.mk.injEq]
  omega

theorem first_timer (qs : Queues) : RB.minmax (-1) none qs.timetree = qs.timetree.toList.head? := by
  rw [RB.minmax_spec, if_pos (by decide), Option.or_none]

theorem Good.timer {s : State} (hg : Good s) {a : Addr} :
    (s.mem a).flags.timeout = true ↔ a ∈ s.qs.timetree.toList :=
  hg.wf.flag .timeout a

theorem Good.nodup_timers {s : State} (hg : Good s) : s.qs.timetree.toList.Nodup :=
  hg.wf.nodup .timeout

/-! ### `timeout_correct` -/

theorem correctLoop_eq {m : Mem} {off : Timeval} (pre : List Addr) {post : List Addr} {s : State}
    {n : Nat}
    (hs : RB.Sorted (key m) s.qs.timetree.toList) (ht : s.qs.timetree.toList = pre ++ post)
    (hn : post.length ≤ n) :
    correctLoop off n s post.head? = some { s with
      mem := fun x => if x ∈ post then (s.mem x).moved off else s.mem x } := by
  induction post generalizing pre s n with
  | nil => cases n <;> rfl
  | cons a post ih =>
    cases n with
    | zero => simp at hn
    | succ n =>
      have hnd : (a :: post).Nodup := (List.nodup_append.mp (ht ▸ hs.nodup)).2.1
      have ha := (List.nodup_cons.mp hnd).1
      rw [List.head?_cons, correctLoop]
      simp only [next_split _ hs ht, Option.bind_some]
      change correctLoop off n { s with mem := s.mem.set a ((s.mem a).moved off) } post.head? = _
      rw [ih (pre ++ [a]) (s := { s with mem := s.mem.set a ((s.mem a).moved off) }) hs
        (by simp [ht]) (by simpa using hn)]
      simp only [Option.some.injEq, State.mk.injEq, and_true, and_self]
      funext x
      by_cases e : x = a
      · subst e
        simp [ha]
      · simp [e, set_ne e]

/-- New times for the events in the tree, in the same order. -/
theorem Good.retimed {s : State} {m : Mem} (hg : Good s)
    (hm : ∀ x, m x = { s.mem x with timeout := (m x).timeout })
    (hs : RB.Sorted (key m) s.qs.timetree.toList)
    (hv : ∀ a ∈ s.qs.timetree.toList, (m a).timeout.Valid) : Good { s with mem := m } := by
  have hfl : ∀ x, (m x).flags = (s.mem x).flags := fun x => by rw [hm]
  have hev : ∀ x, (m x).events = (s.mem x).events := fun x => by rw [hm]
  have hfd : ∀ x, (m x).fd = (s.mem x).fd := fun x => by rw [hm]
  have hpri : ∀ x, (m x).pri = (s.mem x).pri := fun x => by rw [hm]
  have hnc : ∀ x, (m x).ncalls = (s.mem x).ncalls := fun x => by rw [hm]
  have hpn : ∀ x, (m x).pncalls = (s.mem x).pncalls := fun x => by rw [hm]
  have hc : ∀ q, counted m s.qs q = counted s.mem s.qs q := fun q => by
    simp only [counted, hfl]
  have hw := hg.wf
  constructor
  · constructor <;> simp only [hfl, hpri, hc]
    · exact hw.flag
    · exact hw.nodup
    · exact hw.inited
    · exact hw.priority
    · exact hw.queue
    · exact hw.queues
    · exact hw.legal
    · exact hs
    · exact hv
    · exact hw.count
    · exact hw.count_active
  · intro a
    have ok := hg.ok a
    constructor <;> simp only [hfl, hev, hfd, hpn]
    · exact ok.io
    · exact ok.signal
    · exact ok.one
    · exact ok.range
    · exact ok.number
    · exact ok.pncalls
  · exact hg.table.congr fun a => ⟨by simp only [hfl], fun _ => ⟨hfd a, hev a⟩⟩
  · intro l hl hn
    simp only [hnc, hpn]
    exact hg.running l hl hn
  · intro a ha q
    simp only [CutShort, hnc, hpn] at ha
    simp only [hfl]
    exact hg.tidy a ha q
  · exact hg.clock
  · constructor <;> simp only [hfl, hev, hfd, hnc]
    · exact hg.pipe.init
    · exact hg.pipe.events
    · exact hg.pipe.live
    · exact hg.pipe.alone
    · exact hg.pipe.first

theorem Event.corrected_timeout (off : Timeval) (ev : Event) :
    ev.corrected off = { ev with timeout := (ev.corrected off).timeout } := by
  rw [corrected]
  split <;> rfl

/-- `timeout_correct` moves every time by the same offset, and the tree stays sorted. -/
theorem timeoutCorrect_spec {s : State} {off : Timeval} (hg : Good s) (ho : off.Valid) :
    ∃ m, timeoutCorrect s off = some { s with mem := m } ∧
      (∀ x, m x = (s.mem x).corrected off) ∧ Good { s with mem := m } := by
  have hm : ∀ x, (if x ∈ s.qs.timetree.toList then (s.mem x).moved off else s.mem x) =
      (s.mem x).corrected off := by
    intro x
    rw [Event.corrected]
    simp only [hg.timer]
  have htime : ∀ x ∈ s.qs.timetree.toList,
      ((s.mem x).corrected off).timeout = (s.mem x).timeout.sub off := fun x hx => by
    rw [Event.corrected, if_pos (hg.timer.mpr hx)]
    rfl
  refine ⟨_, ?_, hm, hg.retimed (fun x => ?_) ?_ fun a ha => ?_⟩
  · rw [timeoutCorrect, first_timer, correctLoop_eq [] hg.wf.sorted rfl
      (by rw [ColorTree.length_toList])]
  · simp only [hm]
    exact Event.corrected_timeout off _
  · refine hg.wf.sorted.imp_of_mem fun {a b} ha hb hab => ?_
    have hva := hg.wf.valid a ha
    have hvb := hg.wf.valid b hb
    rw [key_lt_iff] at hab ⊢
    simp only [hm, htime a ha, htime b hb]
    exact hab.imp (Timeval.lt_sub hva hvb ho).mpr fun h => ⟨by rw [h.1], h.2⟩
  · simp only [hm, htime a ha]
    exact (hg.wf.valid a ha).sub ho

/-! ### `timeout_process` -/

theorem abortLoop_idle {s : State} {a : Addr}
    (h : (s.mem a).ncalls = 0 ∨ (s.mem a).pncalls = none) : abortLoop s a = some s := by
  rw [abortLoop]
  split
  next => rfl
  next h0 =>
    rw [h.resolve_left h0]

/-- `timeout_process` takes the event out of the tree before `event_del` would. -/
theorem eventDel_unlinked {s s₁ : State} {a : Addr}
    (hi : (s.mem a).flags.init = true) (hc : (s.mem a).ncalls = 0 ∨ (s.mem a).pncalls = none)
    (ht : (s.mem a).flags.timeout = true) (h : eventQueueRemove s a .timeout = some s₁) :
    eventDel s₁ a = eventDel s a := by
  obtain ⟨qs, -, rfl⟩ := Option.map_eq_some_iff.mp h
  have hself : s.mem.flag a .timeout false a =
      { s.mem a with flags := (s.mem a).flags.set .timeout false } := by rw [flag_apply, if_pos rfl]
  have h₁ : removeIf s a .timeout = eventQueueRemove s a .timeout := if_pos ht
  rw [eventDel, eventDel, abortLoop_idle hc, abortLoop_idle (by simpa [hself] using hc),
    Option.bind_some, Option.bind_some, h₁, h, Option.bind_some, removeIf]
  simp [State.readable, hself, hi, Flags.get, Flags.set]

/-- The events that `timeout_process` takes, in their order. -/
def due (s : State) (now : Timeval) : List Addr :=
  s.qs.timetree.toList.filter fun a => !now.lt (s.mem a).timeout

/-- What `timeout_process` does to the queues. -/
structure Expired (s : State) (now : Timeval) (s' : State) : Prop where
  acts : Acts s (Event.expired now) s'
  left : s'.qs.timetree.toList = s.qs.timetree.toList.filter fun a => now.lt (s.mem a).timeout
  line : ∀ p, s'.qs.line .active p =
    (s.qs.line .active p).filter (fun a => a ∉ due s now) ++
      (due s now).filter fun a => (s.mem a).pri = p

/-- No event that stands behind another one in the tree is due before it. -/
theorem later_of_key {m : Mem} {now : Timeval} {a b : Addr} (h : key m a < key m b)
    (hn : now.lt (m a).timeout = true) : now.lt (m b).timeout = true := by
  rw [key_lt] at h
  rw [Timeval.lt_iff] at hn ⊢
  omega

theorem expired_id {s : State} {now : Timeval} (hg : Good s)
    (hd : ∀ a ∈ s.qs.timetree.toList, now.lt (s.mem a).timeout = true) (x : Addr) :
    (s.mem x).expired now = s.mem x := by
  rw [Event.expired]
  cases h : (s.mem x).flags.timeout with
  | false => rfl
  | true => simp [hd x (hg.timer.mp h)]

theorem expired_nothing {s : State} {now : Timeval} (hg : Good s) (hn : s.locals = none)
    (hd : ∀ a ∈ s.qs.timetree.toList, now.lt (s.mem a).timeout = true) : Expired s now s := by
  have hdue : due s now = [] := List.filter_eq_nil_iff.mpr fun a ha => by simp [hd a ha]
  refine ⟨(Acts.refl hg hn).congr (expired_id hg hd), (List.filter_eq_self.mpr hd).symm,
    fun p => ?_⟩
  rw [hdue]
  simp

/-- A line of the active events names none twice. -/
theorem Good.nodup_line {s : State} (hg : Good s) (p : Nat) : (s.qs.line .active p).Nodup := by
  have hnd : s.qs.activequeues.flatten.Nodup := hg.wf.nodup .active
  rw [Queues.line]
  cases hl : s.qs.activequeues[p]? with
  | none => exact List.nodup_nil
  | some l => exact (List.nodup_flatten.mp hnd).1 l (List.mem_of_getElem? hl)

/-- The first event is taken, and the others after it. -/
theorem Expired.cons {s s₁ s' : State} {now : Timeval} {a : Addr} {post : List Addr} (hg : Good s)
    (ht : s.qs.timetree.toList = a :: post) (hd : now.lt (s.mem a).timeout = false)
    (hf : Fired s a false EV_TIMEOUT 1 s₁) (h : Expired s₁ now s') : Expired s now s' := by
  have hnd : (a :: post).Nodup := ht ▸ hg.nodup_timers
  have ha := (List.nodup_cons.mp hnd).1
  have hflag : (s.mem a).flags.timeout = true := hg.timer.mpr (by rw [ht]; exact .head _)
  have ht₁ : s₁.qs.timetree.toList = post := by
    have hl := hf.line rfl .timeout 0
    rw [if_neg (by simp)] at hl
    exact hl.trans (by rw [Queues.line, ht]; exact List.erase_cons_head ..)
  have hsame : ∀ x, x ≠ a → s₁.mem x = s.mem x := fun x hx => by rw [hf.mem, if_neg hx]
  have hpost : ∀ x ∈ post, x ≠ a := fun x hx e => ha (e ▸ hx)
  have hdue : due s now = a :: due s₁ now := by
    rw [due, due, ht, ht₁, List.filter_cons_of_pos (by simp [hd])]
    exact congrArg (a :: ·) (List.filter_congr fun x hx => by rw [hsame x (hpost x hx)])
  have hadue : a ∉ due s₁ now := fun h' => ha (ht₁ ▸ List.mem_of_mem_filter h')
  refine ⟨⟨hf.frame.trans h.acts.frame, fun x => ?_, h.acts.locals, h.acts.good⟩, ?_, fun p => ?_⟩
  · rw [h.acts.mem, hf.mem]
    split
    next e =>
      have hx : (s.mem x).expired now = (s.mem a).fired false EV_TIMEOUT 1 := by
        rw [e, Event.expired, hflag, hd]
        rfl
      rw [hx, Event.expired, if_neg]
      rw [Event.fired, Event.activated_flags]
      simp [Event.deleted, Flags.set, Flags.off]
    next => rfl
  · rw [h.left, ht, ht₁, List.filter_cons_of_neg (by simp [hd])]
    exact List.filter_congr fun x hx => by rw [hsame x (hpost x hx)]
  · have hline := hf.line rfl .active p
    have herase : (s.qs.line .active p).erase a =
        (s.qs.line .active p).filter fun x => x ≠ a := by
      rw [(hg.nodup_line p).erase_eq_filter]
      exact List.filter_congr fun x _ => by simp [bne, beq_eq_decide]
    have hpri : ∀ l : List Addr, (∀ x ∈ l, x ≠ a) →
        l.filter (fun x => (s₁.mem x).pri = p) = l.filter fun x => (s.mem x).pri = p :=
      fun l hl => List.filter_congr fun x hx => by rw [hsame x (hl x hx)]
    rw [h.line p, hline, hdue, hpri _ fun x hx e => hadue (e ▸ hx), herase]
    by_cases e : p = (s.mem a).pri
    · subst e
      simp [hadue, List.filter_filter, not_or, Bool.and_comm]
    · simp [e, Ne.symm e, List.filter_filter, not_or, Bool.and_comm]

theorem processLoop_spec {now : Timeval} {post : List Addr} {s : State} {n : Nat} (hg : Good s)
    (hl : s.locals = none) (ht : s.qs.timetree.toList = post) (hn : post.length ≤ n) :
    ∃ s', processLoop now n s post.head? = some s' ∧ Expired s now s' := by
  induction post generalizing s n with
  | nil =>
    refine ⟨s, by cases n <;> rfl, expired_nothing hg hl fun a ha => ?_⟩
    rw [ht] at ha
    cases ha
  | cons a post ih =>
    obtain ⟨n, rfl⟩ : ∃ k, n = k + 1 := ⟨n - 1, by simp at hn; omega⟩
    have hflag : (s.mem a).flags.timeout = true := hg.timer.mpr (by rw [ht]; exact .head _)
    rw [List.head?_cons, processLoop]
    split
    next hlt =>
      refine ⟨s, rfl, expired_nothing hg hl fun b hb => ?_⟩
      have hs := hg.wf.sorted
      rw [ht] at hb hs
      rcases List.mem_cons.mp hb with rfl | hb
      · exact hlt
      · exact later_of_key ((List.pairwise_cons.mp hs).1 b hb) hlt
    next hlt =>
      obtain ⟨s₁, s₂, h₁, h₂, hf⟩ := fire_spec (q := .timeout) false EV_TIMEOUT 1 hg hl hflag
      obtain ⟨s₀, h₀, -⟩ := removeIf_spec a .timeout hg.wf
      rw [removeIf, show (s.mem a).flags.get .timeout = true from hflag, if_pos rfl] at h₀
      have hc : (s.mem a).ncalls = 0 ∨ (s.mem a).pncalls = none := by
        by_contra h
        rw [not_or] at h
        exact hg.not_cut (q := .timeout) hflag ⟨h.1, h.2, not_running hl a⟩
      have ht₂ : s₂.qs.timetree.toList = post := by
        have hl₂ := hf.line rfl .timeout 0
        rw [if_neg (by simp)] at hl₂
        exact hl₂.trans (by rw [Queues.line, ht]; exact List.erase_cons_head ..)
      obtain ⟨s', h', he⟩ := ih hf.good hf.locals ht₂ (by simpa using hn)
      refine ⟨s', ?_, he.cons hg ht (by simpa using hlt) hf⟩
      rw [next_split [] hg.wf.sorted ht, Option.bind_some, h₀, Option.bind_some,
        eventDel_unlinked (hg.eventOk .timeout hflag) hc hflag h₀]
      obtain ⟨⟨s₁', z⟩, hd, rfl⟩ := Option.map_eq_some_iff.mp h₁
      rw [hd, Option.bind_some, h₂, Option.bind_some]
      exact h'

/-- `timeout_process` moves the events that are due to the ends of their active queues,
in the order of their times, and leaves the others in the tree. -/
theorem timeoutProcess_spec {s : State} (hg : Good s) (hl : s.locals = none) (now : Timeval) :
    ∃ s', timeoutProcess s now = some s' ∧ Expired s now s' := by
  rw [timeoutProcess, first_timer]
  exact processLoop_spec hg hl rfl (by rw [ColorTree.length_toList])

/-! ### `timeout_next` -/

/-- The wait that `timeout_next` computes ends at the first moment at which
`timeout_process` finds an event that is due. -/
theorem timeoutNext_first_due {s : State} {now : Timeval} (hg : Good s) (hnow : now.Valid)
    (ht : s.qs.timetree.toList ≠ []) :
    due s (now.add (timeoutNext s now)) ≠ [] ∧
      ∀ t : Timeval, t.lt now = false → t.lt (now.add (timeoutNext s now)) = true →
        due s t = [] := by
  obtain ⟨a, post, hl⟩ := List.exists_cons_of_ne_nil ht
  have hs := hg.wf.sorted
  have ha : a ∈ s.qs.timetree.toList := by rw [hl]; exact .head _
  have hva := hg.wf.valid a ha
  have hnext : now.add (timeoutNext s now) =
      if now.lt (s.mem a).timeout then (s.mem a).timeout else now := by
    rw [timeoutNext, first_timer, hl]
    simp only [List.head?_cons]
    cases hlt : now.lt (s.mem a).timeout with
    | true => exact Timeval.add_sub_cancel hnow hva hlt
    | false => exact Timeval.add_zero hnow
  have hmem : ∀ t : Timeval, t.lt (s.mem a).timeout = false → a ∈ due s t := fun t h =>
    List.mem_filter.mpr ⟨ha, by rw [h]; rfl⟩
  rw [hnext]
  cases hlt : now.lt (s.mem a).timeout with
  | true =>
    rw [if_pos rfl]
    refine ⟨List.ne_nil_of_mem (hmem _ (Timeval.lt_irrefl _)), fun t _ h => ?_⟩
    refine List.filter_eq_nil_iff.mpr fun b hb => ?_
    rw [hl] at hb hs
    rcases List.mem_cons.mp hb with rfl | hb
    · simp [h]
    · simp [later_of_key ((List.pairwise_cons.mp hs).1 b hb) h]
  | false =>
    rw [if_neg Bool.false_ne_true]
    exact ⟨List.ne_nil_of_mem (hmem _ hlt), fun t h h' => absurd (h.symm.trans h') nofun⟩

theorem timeoutNext_delay {s : State} {now : Timeval} (hg : Good s) (hnow : now.Valid) :
    (timeoutNext s now).Delay := by
  rw [timeoutNext, first_timer]
  cases h : s.qs.timetree.toList.head? with
  | none => exact (by decide : Timeval.Delay ⟨5, 0⟩)
  | some a =>
    have hv := hg.wf.valid a (List.mem_of_mem_head? h)
    simp only
    cases hlt : now.lt (s.mem a).timeout with
    | true => exact Timeval.delay_sub hnow hv hlt
    | false => exact (by decide : Timeval.Delay ⟨0, 0⟩)

/-- The milliseconds are rounded up. -/
theorem epollTimeout_spec {tv : Timeval} (h : tv.Delay) (hs : tv.micros ≤ 2147483647000) :
    tv.micros ≤ 1000 * epollTimeout tv ∧ 1000 * epollTimeout tv < tv.micros + 1000 := by
  obtain ⟨h₀, h₁, h₂⟩ := h
  rw [Timeval.micros] at hs ⊢
  rw [epollTimeout, Int.bmod_eq_emod_of_lt (by omega)]
  omega

end FilesEvent.Net
