import FilesEvent.Closes

/-! A server alone. The descriptor that `accept` returns is kept in 16 bits, as the
id of the session and as the descriptor on which it and its task call `recv`, `send`
and `close`; so sessions are told apart as long as every descriptor fits. -/

namespace FilesEvent
open Bytes Framing Runs

/-- The steps of a process that has a server but no client. -/
def StationEvent.ofServer : StationEvent → Bool
  | .accept _ _ _ | .callback _ _ | .close | .destroy => true
  | _ => false

theorem StationEvent.usedBy_of_server {e : StationEvent} (h : e.ofServer = true) :
    e.usedBy = none := by
  cases e with
  | accept => rfl
  | callback => rfl
  | close => rfl
  | destroy => rfl
  | _ => cases h

namespace Station

/-- One step of such a process. -/
def serve (s : Station) (e : StationEvent) : Option Station :=
  if e.ofServer then s.step e else none

variable {s s' t : Station} {p q n : Nat} {o o' : Obj} {ops : List Op} {e : StationEvent}

theorem serve_step (h : s.serve e = some s') : e.ofServer = true ∧ s.step e = some s' := by
  unfold serve at h
  split at h
  · rename_i he
    exact ⟨he, h⟩
  · cases h

/-- What a step of a server can do. -/
inductive ServerMoves (s : Station) : StationEvent → Station → Prop
  | accept {fd : Nat} {mReadBuff stream : List UInt8} (m : SessionManager Nat)
      (manager : s.mSessionManager = some m) :
      ServerMoves s (.accept fd mReadBuff stream) (s.onAccept fd mReadBuff stream)
  | live {p : Nat} {cb : Callback} (o : Obj) (b : Body) (ops : List Op)
      (heap : s.heap[p]? = some o) (body : o.body.step cb = some (b, ops))
      (alive : b.alive = true) : ServerMoves s (.callback p cb) (s.put p { o with body := b } ops)
  | dead {p : Nat} {cb : Callback} (o : Obj) (b : Body) (ops : List Op) (m : SessionManager Nat)
      (manager : s.mSessionManager = some m) (heap : s.heap[p]? = some o)
      (body : o.body.step cb = some (b, ops)) (alive : b.alive = false) :
      ServerMoves s (.callback p cb) ((((s.put p { o with body := b } ops).note
        [.readZero p]).quit p { o with body := b }).closeLater p o.sid)
  | close {p n : Nat} (closing : s.closing = some (p, n)) :
      ServerMoves s .close { s.close p n with closing := none }
  | destroy : ServerMoves s .destroy s.destroy

theorem serve_moves (h : s.serve e = some s') : ServerMoves s e s' := by
  obtain ⟨hserver, hstep⟩ := serve_step h
  have hclient := StationEvent.usedBy_of_server hserver
  cases (step_moves hstep).2 with
  | accept m manager closing free => exact .accept m manager
  | live o b ops closing heap body alive => exact .live o b ops heap body alive
  | dead o b ops m manager closing heap body alive => exact .dead o b ops m manager heap body alive
  | close closing => exact .close closing
  | destroy closing => exact .destroy
  | connect => cases hserver
  | idle call => rw [hclient] at call; cases call
  | stale p o call => rw [hclient] at call; cases call
  | null p call => rw [hclient] at call; cases call
  | register => cases hserver
  | fetch => cases hserver
  | missing => cases hserver
  | remove => cases hserver

/-! ## The descriptors of the closes -/

/-- The descriptor that the session `p` works with. -/
def sidOf (s : Station) (p : Nat) : Option Nat := s.heap[p]?.map fun o => o.sid.toNat

/-- Each close is of the descriptor that the session works with. -/
structure ClosesOwn (s : Station) : Prop where
  log : ∀ p n other, .close p n other ∈ s.log → s.sidOf p = some n
  later : ∀ p n, s.closing = some (p, n) → s.sidOf p = some n

theorem sidOf_set (hp : s.heap[p]? = some o) (hsid : o'.sid = o.sid)
    (ht : t.heap = s.heap.set p o') (q : Nat) : t.sidOf q = s.sidOf q := by
  unfold sidOf
  rw [ht]
  by_cases hq : q = p
  · subst hq
    rw [List.getElem?_set_self (List.getElem?_eq_some_iff.mp hp).1, hp, Option.map_some,
      Option.map_some, hsid]
  · rw [List.getElem?_set_ne (Ne.symm hq)]

theorem sidOf_append (ht : t.heap = s.heap ++ [o]) (hq : s.sidOf q = some n) :
    t.sidOf q = some n := by
  obtain ⟨x, hx, hn⟩ := Option.map_eq_some_iff.mp hq
  unfold sidOf
  rw [ht, heap_append_old hx o, Option.map_some, hn]

/-- The new closes of a step are looked at; the earlier ones stand. -/
theorem ClosesOwn.extend (h : s.ClosesOwn) (hlog : t.log = s.log ++ ops)
    (hsid : ∀ q n, s.sidOf q = some n → t.sidOf q = some n)
    (hops : ∀ p n other, .close p n other ∈ ops → t.sidOf p = some n)
    (hlater : ∀ p n, t.closing = some (p, n) → s.closing = some (p, n) ∨ t.sidOf p = some n) :
    t.ClosesOwn where
  log p n other hc := by
    rw [hlog] at hc
    rcases List.mem_append.mp hc with hc | hc
    · exact hsid p n (h.log p n other hc)
    · exact hops p n other hc
  later p n hc := (hlater p n hc).elim (fun hc => hsid p n (h.later p n hc)) id

theorem sidOf_delete (s : Station) (p q : Nat) : (s.delete p).sidOf q = s.sidOf q := by
  rcases delete_cases s p with ⟨-, heq⟩ | ⟨o, hp, ⟨-, heq⟩ | ⟨-, heq⟩⟩
  · rw [heq]
  · rw [heq]
    rfl
  · rw [heq]
    have hsid : Obj.sid { o with body := o.body.destruct, destroyed := true } = o.sid := rfl
    exact sidOf_set hp hsid rfl q

theorem ClosesOwn.delete (h : s.ClosesOwn) (p : Nat) : (s.delete p).ClosesOwn := by
  have hsid := sidOf_delete s p
  rcases delete_cases s p with ⟨-, heq⟩ | ⟨o, hp, ⟨-, heq⟩ | ⟨-, heq⟩⟩
  · rw [heq]
    exact h
  · rw [heq]
    exact ⟨h.log, h.later⟩
  · rw [heq] at hsid ⊢
    refine h.extend (List.append_assoc _ _ _) (fun q n hq => (hsid q).trans hq)
      (fun q n other hc => ?_) fun q n hc => .inl hc
    rcases List.mem_append.mp hc with hc | hc
    · exact absurd hc (closeless_of_onEvent (onEvent_destructOps o.body) q n other)
    · obtain ⟨rfl, rfl, -⟩ := Op.close.inj (List.mem_singleton.mp hc)
      rw [hsid, sidOf, hp, Option.map_some]

theorem ClosesOwn.put (h : s.ClosesOwn) (hp : s.heap[p]? = some o) (hsid : o'.sid = o.sid)
    (hops : Closeless ops) : (s.put p o' ops).ClosesOwn :=
  h.extend rfl (fun q _ hq => (sidOf_set hp hsid rfl q).trans hq)
    (fun q n other hc => absurd hc (hops q n other)) fun _ _ hc => .inl hc

/-- The second close will be of the same descriptor. -/
theorem ClosesOwn.closeLater (h : s.ClosesOwn) {sid : UInt16} (hsid : s.sidOf p = some sid.toNat) :
    (s.closeLater p sid).ClosesOwn := by
  unfold Station.closeLater
  split
  · refine ⟨h.log, fun q n hc => ?_⟩
    obtain ⟨rfl, rfl⟩ := Prod.mk.inj (Option.some.inj hc)
    exact hsid
  · exact h

theorem ClosesOwn.destroy (h : s.ClosesOwn) : s.destroy.ClosesOwn :=
  destroy_induction (fun _ q hs => hs.delete q) (fun _ hs => ⟨hs.log, hs.later⟩) h

theorem ClosesOwn.serve (h : s.ClosesOwn) (hs : s.Sound) (he : s.serve e = some s') :
    s'.ClosesOwn := by
  cases serve_moves he with
  | @accept fd mReadBuff stream m manager =>
    unfold onAccept
    rw [manager]
    have hops := closeless_of_onEvent (onEvent_acceptSets mReadBuff)
    exact h.extend rfl (fun q n hq => sidOf_append rfl hq)
      (fun q n other hc => absurd hc (hops q n other)) fun q n hc => .inl hc
  | @live p cb o b ops heap body alive =>
    exact h.put heap rfl ((hs.sane.objs p o heap).closeless body)
  | @dead p cb o b ops m manager heap body alive =>
    rw [hs.dead_eq heap body manager]
    have hput : (s.put p { o with body := b.quit } (ops ++ [.readZero p] ++ b.quitOps)).ClosesOwn :=
      h.put heap rfl ((hs.sane.objs p o heap).closeless_dead body p)
    have hmanager : ((s.put p { o with body := b.quit }
        (ops ++ [.readZero p] ++ b.quitOps)).setManager (m.getAndRemove o.sid).1).ClosesOwn :=
      ⟨hput.log, hput.later⟩
    refine (hmanager.delete p).closeLater ?_
    have hsid : Obj.sid { o with body := b.quit } = o.sid := rfl
    exact ((sidOf_delete _ p p).trans (sidOf_set heap hsid rfl p)).trans (by rw [sidOf, heap]; rfl)
  | @close p n closing =>
    have hsid : sidOf { s.close p n with closing := none } p = some n := h.later p n closing
    refine h.extend rfl (fun q n hq => hq) (fun q k other hc => ?_) fun q n hc => by cases hc
    obtain ⟨rfl, rfl, -⟩ := Op.close.inj (List.mem_singleton.mp hc)
    exact hsid
  | destroy => exact h.destroy

/-! ## Distinct sockets -/

/-- Each session that has not been torn down has an id of its own, and works with
the descriptor that `accept` returned, which is the one it closes. -/
structure DistinctSessions (s : Station) : Prop where
  ids : ∀ (p q : Nat) (o x : Obj), s.heap[p]? = some o → s.heap[q]? = some x →
    o.torn = false → x.torn = false → o.sid = x.sid → p = q
  descriptor : ∀ (p : Nat) (o : Obj), s.heap[p]? = some o → o.torn = false → o.sid.toNat = o.fd
  closes : ∀ p n other, .close p n other ∈ s.log → ∃ o : Obj, s.heap[p]? = some o ∧ n = o.fd

/-- The descriptor of a new session fits into 16 bits. -/
def AcceptsBelow (_ : Station) : StationEvent → Prop
  | .accept fd _ _ => fd < 65536
  | _ => True

theorem fits_of_serve (he : s.serve e = some s') (hbelow : AcceptsBelow s e) : Fits s e := by
  cases e with
  | accept fd mReadBuff stream => exact hbelow
  | connect i fd block mReadBuff stream => cases (serve_step he).1
  | _ => trivial

theorem Sound.distinctSessions (h : s.Sound) (hc : s.ClosesOwn) : s.DistinctSessions where
  ids p q o x hp hq ho hx hsid := by
    refine h.owns.distinct p q o x hp hq (Obj.torn_eq_false.mp ho).1 (Obj.torn_eq_false.mp hx).1 ?_
    rw [← h.owns.sid p o hp, ← h.owns.sid q x hq, hsid]
  descriptor p o hp _ := h.owns.sid p o hp
  closes p n other hn := by
    obtain ⟨o, ho, rfl⟩ := Option.map_eq_some_iff.mp (hc.log p n other hn)
    exact ⟨o, ho, h.owns.sid p o ho⟩

/-- At every moment of a run of a server the sessions are told apart, and work with
the descriptors that were accepted, exactly if every descriptor accepted fits into
16 bits. -/
theorem distinctSessions_iff {calls : List Int} {opened : Nat → Bool} {es : List StationEvent}
    (h : run serve (start calls opened) es = some s) :
    (∀ as bs u, es = as ++ bs → run serve (start calls opened) as = some u →
        u.DistinctSessions) ↔
      Meets serve AcceptsBelow (start calls opened) es := by
  have hstart : (start calls opened).Sound ∧ (start calls opened).ClosesOwn :=
    ⟨sound_start calls opened, (fun _ _ _ hc => by cases hc), (fun _ _ hc => by cases hc)⟩
  refine always_iff_meets (I := fun s => s.Sound ∧ s.ClosesOwn) ?_ ?_ hstart
    (hstart.1.distinctSessions hstart.2) h
  · intro s e s' hs hbelow he
    exact ⟨hs.1.step (fits_of_serve he hbelow) (serve_step he).2, hs.2.serve hs.1 he⟩
  · intro s e s' hs _ he
    constructor
    · intro hdistinct
      cases e with
      | accept fd mReadBuff stream =>
        cases serve_moves he with
        | accept m manager =>
          -- the new session is alive, and its id is its descriptor only if that fits
          have hsid := hdistinct.descriptor s.heap.length _ (by
            unfold onAccept
            rw [manager]
            exact List.getElem?_concat_length) rfl
          show fd < 65536
          rw [← show (UInt16.ofNat fd).toNat = fd from hsid]
          exact UInt16.toNat_lt _
      | _ => trivial
    · intro hbelow
      exact (hs.1.step (fits_of_serve he hbelow) (serve_step he).2).distinctSessions
        (hs.2.serve hs.1 he)

/-- Two connections, on descriptors that fit. -/
theorem distinctSessions_iff_two :
    ∃ s, run serve (start [] fun _ => false)
        [.accept 5 (zeros cmdLen) [], .accept 6 (zeros cmdLen) []] = some s ∧
      s.DistinctSessions := by
  have hsome : (run serve (start [] fun _ => false)
      [.accept 5 (zeros cmdLen) [], .accept 6 (zeros cmdLen) []]).isSome = true := by decide +kernel
  obtain ⟨s, hs⟩ := Option.isSome_iff_exists.mp hsome
  refine ⟨s, hs, (distinctSessions_iff hs).mpr (meets_of_forall (fun e he t => ?_) _) _ []
    s (List.append_nil _).symm hs⟩
  simp only [List.mem_cons, List.not_mem_nil, or_false] at he
  rcases he with rfl | rfl <;> simp [AcceptsBelow]

/-- The descriptors 5 and 65541 have the same 16 bits: the sessions share an id, and
the second works with the descriptor of the first. -/
theorem not_distinctSessions_65541 :
    ∃ s o x, run serve (start [] fun _ => false)
        [.accept 5 (zeros cmdLen) [], .accept 65541 (zeros cmdLen) []] = some s ∧
      s.heap[0]? = some o ∧ s.heap[1]? = some x ∧ o.sid = x.sid ∧ ¬s.DistinctSessions := by
  have hheap : (run serve (start [] fun _ => false)
      [.accept 5 (zeros cmdLen) [], .accept 65541 (zeros cmdLen) []]).map (fun s =>
        s.heap.map fun o => (o.sid, o.torn)) = some [(5, false), (5, false)] := by
    decide +kernel
  obtain ⟨s, hs, hsids⟩ := Option.map_eq_some_iff.mp hheap
  have hat : ∀ p < 2, ∃ o : Obj, s.heap[p]? = some o ∧ (o.sid, o.torn) = (5, false) := by
    intro p hp
    refine Option.map_eq_some_iff.mp ?_
    rw [← List.getElem?_map, hsids]
    rcases p with _ | _ | p
    · rfl
    · rfl
    · omega
  obtain ⟨o, ho, hof⟩ := hat 0 (by decide)
  obtain ⟨x, hx, hxf⟩ := hat 1 (by decide)
  obtain ⟨hosid, hot⟩ := Prod.mk.inj hof
  obtain ⟨hxsid, hxt⟩ := Prod.mk.inj hxf
  have hsid : o.sid = x.sid := hosid.trans hxsid.symm
  refine ⟨s, o, x, hs, ho, hx, hsid, fun h => ?_⟩
  cases h.ids 0 1 o x ho hx hot hxt hsid

end Station

end FilesEvent
