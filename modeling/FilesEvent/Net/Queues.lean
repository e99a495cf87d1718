import FilesEvent.Net.Calls

/-! The flags of the events against the queues of the base. -/

namespace FilesEvent.Net
open RedBlack

/-- How many events of a queue count. -/
def counted (m : Mem) (qs : Queues) (q : Queue) : Nat :=
  (qs.members q).countP fun a => !(m a).flags.internal

/-- The flags of every event name the queues that it is linked in, each once. The
tree is a red-black tree in the order of the times, and the counters count. -/
structure Wf (m : Mem) (qs : Queues) : Prop where
  flag : ∀ q a, (m a).flags.get q = true ↔ a ∈ qs.members q
  nodup : ∀ q, (qs.members q).Nodup
  inited : ∀ q, ∀ a ∈ qs.members q, (m a).flags.init = true
  priority : ∀ a, (m a).flags.init = true → (m a).pri < qs.activequeues.length
  queue : ∀ p l, qs.activequeues[p]? = some l → ∀ a ∈ l, (m a).pri = p
  queues : 0 < qs.activequeues.length
  legal : qs.timetree.Legal
  sorted : RB.Sorted (key m) qs.timetree.toList
  valid : ∀ a ∈ qs.timetree.toList, (m a).timeout.Valid
  count : qs.event_count = counted m qs .timeout + counted m qs .inserted +
    counted m qs .signal + counted m qs .active
  count_active : qs.event_count_active = counted m qs .active

@[simp] theorem set_self (m : Mem) (a : Addr) (ev : Event) : m.set a ev a = ev :=
  Function.update_self ..

theorem set_ne {m : Mem} {a b : Addr} (h : b ≠ a) (ev : Event) : m.set a ev b = m b :=
  Function.update_of_ne h ..

@[simp] theorem set_set (m : Mem) (a : Addr) (x y : Event) : (m.set a x).set a y = m.set a y :=
  Function.update_idem ..

theorem flag_set (m : Mem) (a : Addr) (ev : Event) (q : Queue) (b : Bool) :
    (m.set a ev).flag a q b = m.set a { ev with flags := ev.flags.set q b } := by
  rw [Mem.flag, set_self, set_set]

/-- Changing a flag of one event changes nothing else. -/
theorem flag_apply (m : Mem) (a b : Addr) (q : Queue) (v : Bool) :
    m.flag a q v b = if b = a then { m a with flags := (m a).flags.set q v } else m b := by
  split
  next h => rw [h]; exact set_self ..
  next h => exact set_ne h _

@[simp] theorem flag_internal (m : Mem) (a b : Addr) (q : Queue) (v : Bool) :
    (m.flag a q v b).flags.internal = (m b).flags.internal := by
  rw [flag_apply]
  split
  next h => rw [h]; exact Flags.internal_set ..
  next => rfl

@[simp] theorem flag_init (m : Mem) (a b : Addr) (q : Queue) (v : Bool) :
    (m.flag a q v b).flags.init = (m b).flags.init := by
  rw [flag_apply]
  split
  next h => rw [h]; exact Flags.init_set ..
  next => rfl

@[simp] theorem flag_timeout (m : Mem) (a b : Addr) (q : Queue) (v : Bool) :
    (m.flag a q v b).timeout = (m b).timeout := by
  rw [flag_apply]
  split
  next h => rw [h]
  next => rfl

@[simp] theorem flag_pri (m : Mem) (a b : Addr) (q : Queue) (v : Bool) :
    (m.flag a q v b).pri = (m b).pri := by
  rw [flag_apply]
  split
  next h => rw [h]
  next => rfl

@[simp] theorem key_flag (m : Mem) (a : Addr) (q : Queue) (v : Bool) :
    key (m.flag a q v) = key m := by
  funext b
  simp [key]

theorem counted_flag (m : Mem) (a : Addr) (q q' : Queue) (v : Bool) (qs : Queues) :
    counted (m.flag a q v) qs q' = counted m qs q' := by
  simp [counted]

/-- What linking `a` in the queue `q` (or unlinking it, for `b = false`) does. -/
structure Moves (m : Mem) (qs : Queues) (a : Addr) (q : Queue) (b : Bool) (qs' : Queues) :
    Prop where
  others : ∀ q', q' ≠ q → qs'.members q' = qs.members q'
  perm : if b then (qs'.members q).Perm (a :: qs.members q)
    else (qs.members q).Perm (a :: qs'.members q)
  legal : qs'.timetree.Legal
  sorted : RB.Sorted (key m) qs'.timetree.toList
  length : qs'.activequeues.length = qs.activequeues.length
  queue : ∀ p l, qs'.activequeues[p]? = some l → ∀ x ∈ l, (m x).pri = p
  count : qs'.event_count = qs.event_count + if b then docount m a else -docount m a
  count_active : qs'.event_count_active = qs.event_count_active +
    if q = .active then (if b then docount m a else -docount m a) else 0

namespace Moves

variable {m : Mem} {qs qs' : Queues} {a : Addr} {q : Queue} {b : Bool}

theorem mem_iff (h : Moves m qs a q b qs') (hw : Wf m qs)
    (hq : (m a).flags.get q = !b) (x : Addr) :
    x ∈ qs'.members q ↔ if x = a then b = true else x ∈ qs.members q := by
  have hp := h.perm
  cases b with
  | true =>
    rw [if_pos rfl] at hp
    rw [hp.mem_iff, List.mem_cons]
    split <;> simp [*]
  | false =>
    rw [if_neg Bool.false_ne_true] at hp
    have hn := (hp.nodup_iff.mp (hw.nodup q))
    split
    next e => rw [e]; simpa using (List.nodup_cons.mp hn).1
    next e => simp [hp.mem_iff, e]

theorem nodup (h : Moves m qs a q b qs') (hw : Wf m qs) (hq : (m a).flags.get q = !b)
    (q' : Queue) : (qs'.members q').Nodup := by
  by_cases e : q' = q
  · subst e
    have hp := h.perm
    cases b with
    | true =>
      rw [if_pos rfl] at hp
      refine hp.nodup_iff.mpr (List.nodup_cons.mpr ⟨fun ha => ?_, hw.nodup q'⟩)
      rw [(hw.flag q' a).mpr ha] at hq
      cases hq
    | false =>
      rw [if_neg Bool.false_ne_true] at hp
      exact (List.nodup_cons.mp (hp.nodup_iff.mp (hw.nodup q'))).2
  · rw [h.others q' e]
    exact hw.nodup q'

theorem counted_eq (h : Moves m qs a q b qs') (q' : Queue) :
    (counted m qs' q' : Int) = counted m qs q' +
      if q' = q then (if b then docount m a else -docount m a) else 0 := by
  by_cases e : q' = q
  · subst e
    have hp := h.perm
    rw [if_pos rfl, docount]
    cases b with
    | true =>
      rw [if_pos rfl] at hp
      simp only [counted, hp.countP_eq, List.countP_cons]
      cases (m a).flags.internal <;> simp
    | false =>
      rw [if_neg Bool.false_ne_true] at hp
      simp only [counted, hp.countP_eq, List.countP_cons]
      cases (m a).flags.internal <;> simp
  · rw [if_neg e, counted, h.others q' e, counted]
    omega

/-- After the flag has followed, flags and queues agree again. -/
theorem wf (h : Moves m qs a q b qs') (hw : Wf m qs) (hq : (m a).flags.get q = !b)
    (hi : (m a).flags.init = true) (hv : q = .timeout → (m a).timeout.Valid) :
    Wf (m.flag a q b) qs' := by
  have hmem := h.mem_iff hw hq
  have hsub : ∀ q' x, x ∈ qs'.members q' → x = a ∨ x ∈ qs.members q' := by
    intro q' x hx
    by_cases e : q' = q
    · subst e
      rw [hmem] at hx
      split at hx
      next e' => exact .inl e'
      next => exact .inr hx
    · exact .inr (h.others q' e ▸ hx)
  constructor
  · intro q' x
    rw [flag_apply]
    split
    next e =>
      subst e
      rw [Flags.get_set]
      split
      next e' => rw [e', hmem, if_pos rfl]
      next e' => rw [h.others q' e', hw.flag]
    next e =>
      by_cases e' : q' = q
      · subst e'
        rw [hmem, if_neg e, hw.flag]
      · rw [h.others q' e', hw.flag]
  · exact h.nodup hw hq
  · intro q' x hx
    rw [flag_init]
    rcases hsub q' x hx with rfl | hx
    · exact hi
    · exact hw.inited q' x hx
  · intro x hx
    rw [flag_init] at hx
    rw [flag_pri, h.length]
    exact hw.priority x hx
  · intro p l hl x hx
    rw [flag_pri]
    exact h.queue p l hl x hx
  · rw [h.length]
    exact hw.queues
  · exact h.legal
  · rw [key_flag]
    exact h.sorted
  · intro x hx
    rw [flag_timeout]
    by_cases e : Queue.timeout = q
    · rcases hsub .timeout x hx with rfl | hx
      · exact hv e.symm
      · exact hw.valid x hx
    · rw [show qs'.timetree.toList = qs.timetree.toList from h.others .timeout e] at hx
      exact hw.valid x hx
  · simp only [counted_flag, h.counted_eq, h.count, hw.count]
    cases q <;> simp <;> omega
  · simp only [counted_flag, h.counted_eq, h.count_active, hw.count_active]
    cases q <;> simp

end Moves

theorem mem_activequeue {qs : Queues} {m : Mem} (hw : Wf m qs) {a : Addr}
    (ha : (m a).flags.active = true) :
    ∃ l, qs.activequeues[(m a).pri]? = some l ∧ a ∈ l := by
  have hm : a ∈ qs.activequeues.flatten := (hw.flag .active a).mp ha
  obtain ⟨l, hl, hal⟩ := List.mem_flatten.mp hm
  obtain ⟨p, hp⟩ := List.mem_iff_getElem?.mp hl
  obtain rfl := hw.queue p l hp a hal
  exact ⟨l, hp, hal⟩

theorem perm_flatten_set {ls : List (List Addr)} {p : Nat} {l l' : List Addr} {a : Addr}
    (hp : ls[p]? = some l) (h : l'.Perm (a :: l)) :
    (ls.set p l').flatten.Perm (a :: ls.flatten) := by
  induction ls generalizing p with
  | nil => cases hp
  | cons x ls ih =>
    cases p with
    | zero =>
      cases hp
      rw [List.set_cons_zero, List.flatten_cons, List.flatten_cons]
      exact h.append_right _
    | succ p =>
      rw [List.set_cons_succ, List.flatten_cons, List.flatten_cons]
      exact ((ih hp).append_left x).trans List.perm_middle

/-- The queue of another priority, or the new one. -/
theorem getElem?_set_cases {ls : List (List Addr)} {p i : Nat} {l' l : List Addr}
    (h : (ls.set i l')[p]? = some l) : p = i ∧ l = l' ∨ ls[p]? = some l := by
  rw [List.getElem?_set] at h
  split at h
  next e =>
    split at h
    next => exact .inl ⟨e.symm, (Option.some.inj h).symm⟩
    next => cases h
  next => exact .inr h

theorem getD_set {ls : List (List Addr)} {i : Nat} {l l' : List Addr} (hl : ls[i]? = some l)
    (p : Nat) : ((ls.set i l')[p]?).getD [] = if p = i then l' else (ls[p]?).getD [] := by
  rw [List.getElem?_set]
  split
  next e =>
    rw [if_pos e.symm, if_pos (e ▸ (List.getElem?_eq_some_iff.mp hl).1)]
    rfl
  next e => rw [if_neg (Ne.symm e)]

/-- An event that is not in a queue can be linked there, at the end of its line or
at its place among the times. -/
theorem insert_moves {m : Mem} {qs : Queues} {a : Addr} {q : Queue} (hw : Wf m qs)
    (hq : (m a).flags.get q = false) (hi : (m a).flags.init = true) :
    ∃ qs', qs.insert m a q = some qs' ∧ Moves m qs a q true qs' ∧
      ∀ q' p, qs'.line q' p = if q' = q ∧ (q = .active → p = (m a).pri) then
        (if q = .timeout then
          (qs.line q' p).orderedInsert (fun a b => key m a ≤ key m b) a
        else qs.line q' p ++ [a]) else qs.line q' p := by
  have hn : a ∉ qs.members q := fun h => by rw [(hw.flag q a).mpr h] at hq; cases hq
  cases q with
  | timeout =>
    obtain ⟨o, t, hu, hl, ho, he⟩ := RB.insert_spec (orders_compare m) (x := a) hw.legal hw.sorted
    have hkey : ∀ y ∈ qs.timetree.toList, key m y ≠ key m a :=
      fun y hy e => hn (key_inj e ▸ hy)
    obtain rfl : o = none := by
      rw [ho, List.find?_eq_none]
      exact fun y hy => by simpa using hkey y hy
    refine ⟨_, by rw [Queues.insert]; simp only [hu]; rfl, ?_⟩
    rw [if_neg (by simp)] at he
    refine ⟨⟨fun q' h => by cases q' <;> first | rfl | exact absurd rfl h, ?_, hl, ?_, rfl,
      hw.queue, by simp, by simp⟩, fun q' p => by cases q' <;> simp [Queues.line, he]⟩
    · rw [if_pos rfl]
      simp only [Queues.members, he]
      exact List.perm_orderedInsert _ _ _
    · exact he ▸ hw.sorted.orderedInsert hkey
  | inserted =>
    exact ⟨_, if_neg hn, ⟨fun q' h => by cases q' <;> first | rfl | exact absurd rfl h,
      List.perm_append_singleton _ _, hw.legal, hw.sorted, rfl, hw.queue, by simp, by simp⟩,
      fun q' p => by cases q' <;> simp [Queues.line]⟩
  | signal =>
    exact ⟨_, if_neg hn, ⟨fun q' h => by cases q' <;> first | rfl | exact absurd rfl h,
      List.perm_append_singleton _ _, hw.legal, hw.sorted, rfl, hw.queue, by simp, by simp⟩,
      fun q' p => by cases q' <;> simp [Queues.line]⟩
  | active =>
    have hlt := hw.priority a hi
    have hl : qs.activequeues[(m a).pri]? = some qs.activequeues[(m a).pri] :=
      List.getElem?_eq_getElem hlt
    have hnl : a ∉ qs.activequeues[(m a).pri] :=
      fun h => hn (List.mem_flatten_of_mem (List.getElem_mem hlt) h)
    refine ⟨_, by rw [Queues.insert]; simp only [hl, Option.bind_some]; exact if_neg hnl, ?_⟩
    refine ⟨⟨fun q' h => by cases q' <;> first | rfl | exact absurd rfl h, ?_, hw.legal, hw.sorted,
      by simp, fun p l hp x hx => ?_, by simp, by simp⟩, fun q' p => ?_⟩
    · rw [if_pos rfl]
      exact perm_flatten_set hl (List.perm_append_singleton _ _)
    · rcases getElem?_set_cases hp with ⟨rfl, rfl⟩ | hp
      · rcases List.mem_append.mp hx with hx | hx
        · exact hw.queue _ _ hl x hx
        · rw [List.mem_singleton.mp hx]
      · exact hw.queue p l hp x hx
    · cases q' with
      | active =>
        simp only [Queues.line, getD_set hl]
        by_cases e : p = (m a).pri
        · subst e
          simp [hl]
        · simp [e]
      | _ => simp [Queues.line]

/-- An event that is in a queue can be unlinked. The others keep their order. -/
theorem remove_moves {m : Mem} {qs : Queues} {a : Addr} {q : Queue} (hw : Wf m qs)
    (hq : (m a).flags.get q = true) :
    ∃ qs', qs.remove m a q = some qs' ∧ Moves m qs a q false qs' ∧
      ∀ q' p, qs'.line q' p = if q' = q then (qs.line q' p).erase a else qs.line q' p := by
  have hm : a ∈ qs.members q := (hw.flag q a).mp hq
  cases q with
  | timeout =>
    obtain ⟨t, hu, hl, he⟩ := RB.remove_spec hw.legal hw.sorted.nodup hm
    refine ⟨_, by rw [Queues.remove]; simp only [hu]; rfl, ?_⟩
    refine ⟨⟨fun q' h => by cases q' <;> first | rfl | exact absurd rfl h, ?_, hl, ?_, rfl,
      hw.queue, by simp [Int.sub_eq_add_neg], by simp⟩,
      fun q' p => by cases q' <;> simp [Queues.line, he]⟩
    · rw [if_neg Bool.false_ne_true]
      simp only [Queues.members, he]
      exact List.perm_cons_erase hm
    · exact he ▸ hw.sorted.sublist List.erase_sublist
  | inserted =>
    exact ⟨_, if_pos hm, ⟨fun q' h => by cases q' <;> first | rfl | exact absurd rfl h,
      List.perm_cons_erase hm, hw.legal, hw.sorted, rfl, hw.queue,
      by simp [Int.sub_eq_add_neg], by simp⟩, fun q' p => by cases q' <;> simp [Queues.line]⟩
  | signal =>
    exact ⟨_, if_pos hm, ⟨fun q' h => by cases q' <;> first | rfl | exact absurd rfl h,
      List.perm_cons_erase hm, hw.legal, hw.sorted, rfl, hw.queue,
      by simp [Int.sub_eq_add_neg], by simp⟩, fun q' p => by cases q' <;> simp [Queues.line]⟩
  | active =>
    obtain ⟨l, hl, hal⟩ := mem_activequeue hw hq
    refine ⟨_, by rw [Queues.remove]; simp only [hl, Option.bind_some]; exact if_pos hal, ?_⟩
    refine ⟨⟨fun q' h => by cases q' <;> first | rfl | exact absurd rfl h, ?_, hw.legal, hw.sorted,
      by simp, fun p l' hp x hx => ?_, by simp [Int.sub_eq_add_neg],
      by simp [Int.sub_eq_add_neg]⟩, fun q' p => ?_⟩
    · have hback : (qs.activequeues.set (m a).pri (l.erase a)).set (m a).pri l =
          qs.activequeues := by
        rw [List.set_set, ← (List.getElem?_eq_some_iff.mp hl).2, List.set_getElem_self]
      have hset : (qs.activequeues.set (m a).pri (l.erase a))[(m a).pri]? = some (l.erase a) :=
        List.getElem?_set_self (List.getElem?_eq_some_iff.mp hl).1
      have hp := perm_flatten_set hset (List.perm_cons_erase hal)
      rw [hback] at hp
      rwa [if_neg Bool.false_ne_true]
    · rcases getElem?_set_cases hp with ⟨rfl, rfl⟩ | hp
      · exact hw.queue _ _ hl x (List.mem_of_mem_erase hx)
      · exact hw.queue p l' hp x hx
    · cases q' with
      | active =>
        simp only [Queues.line, getD_set hl, if_true]
        split
        next e => rw [e, hl, Option.getD_some]
        next e =>
          refine (List.erase_of_not_mem fun ha => e ?_).symm
          cases hp : qs.activequeues[p]? with
          | none => rw [hp] at ha; cases ha
          | some l' =>
            rw [hp] at ha
            exact (hw.queue p l' hp a ha).symm
      | _ => simp [Queues.line]

theorem mem_of_line {qs : Queues} {q : Queue} {p : Nat} {a : Addr} (h : a ∈ qs.line q p) :
    a ∈ qs.members q := by
  cases q with
  | active =>
    simp only [Queues.line] at h
    cases hp : qs.activequeues[p]? with
    | none => rw [hp] at h; cases h
    | some l =>
      rw [hp] at h
      exact List.mem_flatten_of_mem (List.mem_of_getElem? hp) h
  | _ => exact h

theorem mem_line {m : Mem} {qs : Queues} (hw : Wf m qs) {q : Queue} {a : Addr}
    (h : (m a).flags.get q = true) : a ∈ qs.line q (m a).pri := by
  cases q with
  | active =>
    obtain ⟨l, hl, ha⟩ := mem_activequeue hw h
    simpa [Queues.line, hl] using ha
  | _ => exact (hw.flag _ a).mp h

/-- What may change in memory while the queues stay as they are. -/
theorem Wf.congr {m m' : Mem} {qs : Queues} (h : Wf m qs)
    (hget : ∀ x q, (m' x).flags.get q = (m x).flags.get q)
    (hsame : ∀ x q, (m x).flags.get q = true →
      (m' x).flags.internal = (m x).flags.internal ∧ (m' x).flags.init = true)
    (htime : ∀ x, (m x).flags.timeout = true → (m' x).timeout = (m x).timeout)
    (hpri : ∀ x, (m' x).flags.init = true → (m' x).pri < qs.activequeues.length)
    (hact : ∀ x, (m x).flags.active = true → (m' x).pri = (m x).pri) : Wf m' qs := by
  have hcount : ∀ q, counted m' qs q = counted m qs q := fun q =>
    List.countP_congr fun x hx => by rw [(hsame x q ((h.flag q x).mpr hx)).1]
  constructor
  · exact fun q a => by rw [hget, h.flag]
  · exact h.nodup
  · exact fun q a ha => (hsame a q ((h.flag q a).mpr ha)).2
  · exact hpri
  · intro p l hl a ha
    have hf := (h.flag .active a).mpr (List.mem_flatten_of_mem (List.mem_of_getElem? hl) ha)
    rw [hact a hf]
    exact h.queue p l hl a ha
  · exact h.queues
  · exact h.legal
  · refine h.sorted.imp_of_mem fun {a b} ha hb hab => ?_
    have hta := htime a ((h.flag .timeout a).mpr ha)
    have htb := htime b ((h.flag .timeout b).mpr hb)
    rwa [key, key, hta, htb]
  · intro a ha
    rw [htime a ((h.flag .timeout a).mpr ha)]
    exact h.valid a ha
  · simp only [hcount]
    exact h.count
  · rw [hcount]
    exact h.count_active

/-- A change of one event that keeps its flags of queues. -/
theorem Wf.alter {m : Mem} {qs : Queues} {a : Addr} {ev : Event} (h : Wf m qs)
    (hget : ∀ q, ev.flags.get q = (m a).flags.get q)
    (hsame : ∀ q, (m a).flags.get q = true →
      ev.flags.internal = (m a).flags.internal ∧ ev.flags.init = true)
    (htime : (m a).flags.timeout = true → ev.timeout = (m a).timeout)
    (hpri : ev.flags.init = true → ev.pri < qs.activequeues.length)
    (hact : (m a).flags.active = true → ev.pri = (m a).pri) : Wf (m.set a ev) qs := by
  have hself : m.set a ev a = ev := set_self ..
  have hother : ∀ x, x ≠ a → m.set a ev x = m x := fun x e => set_ne e _
  refine h.congr (fun x q => ?_) (fun x q hq => ?_) (fun x hx => ?_) (fun x hx => ?_) fun x hx => ?_
  · rcases eq_or_ne x a with rfl | e
    · rw [hself]
      exact hget q
    · rw [hother x e]
  · rcases eq_or_ne x a with rfl | e
    · rw [hself]
      exact hsame q hq
    · rw [hother x e]
      exact ⟨rfl, h.inited q x ((h.flag q x).mp hq)⟩
  · rcases eq_or_ne x a with rfl | e
    · rw [hself]
      exact htime hx
    · rw [hother x e]
  · rcases eq_or_ne x a with rfl | e
    · rw [hself] at hx ⊢
      exact hpri hx
    · rw [hother x e] at hx ⊢
      exact h.priority x hx
  · rcases eq_or_ne x a with rfl | e
    · rw [hself]
      exact hact hx
    · rw [hother x e]

/-- The fields of an event that the queues do not depend on. -/
theorem Wf.set {m : Mem} {qs : Queues} {a : Addr} {ev : Event} (h : Wf m qs)
    (hf : ev.flags = (m a).flags) (hp : ev.pri = (m a).pri)
    (ht : (m a).flags.timeout = true → ev.timeout = (m a).timeout) : Wf (m.set a ev) qs :=
  h.alter (fun q => by rw [hf])
    (fun q hq => by rw [hf]; exact ⟨rfl, h.inited q a ((h.flag q a).mp hq)⟩) ht
    (fun hi => by rw [hp]; exact h.priority a (hf ▸ hi)) fun _ => hp

/-- An event in no queue may be set anew. -/
theorem Wf.eventSet {s : State} {a : Addr} (h : Wf s.mem s.qs)
    (hq : ∀ q, (s.mem a).flags.get q = false) (fd : Int) (events : What) :
    Wf (eventSet s a fd events).mem (eventSet s a fd events).qs := by
  have hno : ∀ q, (s.mem a).flags.get q ≠ true := fun q => by simp [hq]
  have hlen := h.queues
  refine h.alter (fun q => ?_) (fun q hf => absurd hf (hno q)) (fun hf => absurd hf (hno .timeout))
    (fun _ => by simp only; omega) fun hf => absurd hf (hno .active)
  rw [hq]
  cases q <;> rfl

/-! ### The calls on queues -/

/-- A step that changes memory and queues alone. -/
def OnlyQueues (s s' : State) : Prop := s' = { s with mem := s'.mem, qs := s'.qs }

/-- `s'` is `s` with `a` linked in the queue `q`. -/
structure Linked (s : State) (a : Addr) (q : Queue) (s' : State) : Prop where
  only : OnlyQueues s s'
  mem : s'.mem = s.mem.flag a q true
  wf : Wf s'.mem s'.qs
  queues : s'.qs.activequeues.length = s.qs.activequeues.length
  line : ∀ q' p, s'.qs.line q' p = if q' = q ∧ (q = .active → p = (s.mem a).pri) then
    (if q = .timeout then
      (s.qs.line q' p).orderedInsert (fun a b => key s.mem a ≤ key s.mem b) a
    else s.qs.line q' p ++ [a]) else s.qs.line q' p

/-- `s'` is `s` with `a` unlinked from the queue `q`. -/
structure Unlinked (s : State) (a : Addr) (q : Queue) (s' : State) : Prop where
  only : OnlyQueues s s'
  mem : s'.mem = s.mem.flag a q false
  wf : Wf s'.mem s'.qs
  queues : s'.qs.activequeues.length = s.qs.activequeues.length
  line : ∀ q' p, s'.qs.line q' p = if q' = q then (s.qs.line q' p).erase a else s.qs.line q' p

theorem eventQueueInsert_spec {s : State} (a : Addr) (q : Queue) (hw : Wf s.mem s.qs)
    (hq : (s.mem a).flags.get q = false) (hi : (s.mem a).flags.init = true)
    (hv : q = .timeout → (s.mem a).timeout.Valid) :
    ∃ s', eventQueueInsert s a q = some s' ∧ Linked s a q s' := by
  obtain ⟨qs', he, hm, hl⟩ := insert_moves hw hq hi
  refine ⟨{ s with mem := s.mem.flag a q true, qs := qs' }, ?_,
    rfl, rfl, hm.wf hw hq hi hv, hm.length, hl⟩
  have hc : ¬(decide (q = .active) && (s.mem a).flags.active) = true := by
    rintro h
    rw [Bool.and_eq_true, decide_eq_true_eq] at h
    obtain ⟨rfl, h⟩ := h
    rw [show (s.mem a).flags.get .active = (s.mem a).flags.active from rfl, h] at hq
    cases hq
  rw [eventQueueInsert, if_neg hc, he]
  rfl

theorem removeIf_spec {s : State} (a : Addr) (q : Queue) (hw : Wf s.mem s.qs) :
    ∃ s', removeIf s a q = some s' ∧ Unlinked s a q s' := by
  rw [removeIf]
  cases hq : (s.mem a).flags.get q with
  | true =>
    obtain ⟨qs', he, hm, hl⟩ := remove_moves hw hq
    have hi := hw.inited q a ((hw.flag q a).mp hq)
    have hv (e : q = .timeout) : (s.mem a).timeout.Valid :=
      hw.valid a (by subst e; exact (hw.flag .timeout a).mp hq)
    refine ⟨{ s with mem := s.mem.flag a q false, qs := qs' }, ?_,
      rfl, rfl, hm.wf hw hq hi hv, hm.length, hl⟩
    rw [if_pos rfl, eventQueueRemove, he]
    rfl
  | false =>
    have hm : s.mem.flag a q false = s.mem := by
      funext x
      rw [flag_apply]
      split
      next e => rw [e, Flags.set_get hq]
      next => rfl
    refine ⟨s, rfl, rfl, hm.symm, hw, rfl, fun q' p => ?_⟩
    split
    next e =>
      subst e
      exact (List.erase_of_not_mem fun ha => by
        rw [(hw.flag q' a).mpr (mem_of_line ha)] at hq; cases hq).symm
    next => rfl

end FilesEvent.Net
