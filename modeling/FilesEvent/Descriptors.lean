import FilesEvent.EventFlags

/-! Sessions and their descriptors. While descriptors fit into the 16 bits of
`mSid.sid`, each session that has not been destroyed has an open descriptor of
its own, which no other close has reached (`Owns`), and the table has exactly the
registered ones under their ids (`Listed`). -/

namespace FilesEvent
open Bytes Framing Runs

namespace Station

/-- Each session that has not been destroyed has a descriptor of its own, open. -/
structure Owns (s : Station) : Prop where
  sid : ∀ (p : Nat) (o : Obj), s.heap[p]? = some o → o.sid.toNat = o.fd
  opened : ∀ (p : Nat) (o : Obj), s.heap[p]? = some o → o.destroyed = false →
    s.opened o.fd = true
  distinct : ∀ (p q : Nat) (o x : Obj), s.heap[p]? = some o → s.heap[q]? = some x →
    o.destroyed = false → x.destroyed = false → o.fd = x.fd → p = q
  closing : ∀ (p n : Nat), s.closing = some (p, n) → s.opened n = false
  clients : ∀ (i p : Nat), (s.clients i).mSession = some p →
    ∃ o : Obj, s.heap[p]? = some o ∧ o.fd = (s.clients i).mSockId

/-- The table has each registered session that has not been destroyed, and no other. -/
structure Listed (s : Station) : Prop where
  held : ∀ (m : SessionManager Nat), s.mSessionManager = some m → ∀ (k : UInt16) (p : Nat),
    (m.get k).1 = some p → ∃ o : Obj, s.heap[p]? = some o ∧ o.destroyed = false ∧ o.sid = k
  listed : ∀ (m : SessionManager Nat), s.mSessionManager = some m → ∀ (p : Nat) (o : Obj),
    s.heap[p]? = some o → o.destroyed = false → o.mArg = true → (m.get o.sid).1 = some p

/-- A session that has been torn down has been destroyed. -/
def Torn (s : Station) : Prop :=
  ∀ (p : Nat) (o : Obj), s.heap[p]? = some o → o.torn = true → o.destroyed = true

variable {s s' : Station} {p q : Nat} {o o' : Obj} {ops : List Op} {e : StationEvent}

/-! ## One object changes -/

/-- The session `p` keeps its descriptor, and is not revived. -/
theorem Owns.put (h : s.Owns) (hp : s.heap[p]? = some o) (hfd : o'.fd = o.fd)
    (hsid : o'.sid = o.sid) (hd : o'.destroyed = false → o.destroyed = false) :
    (s.put p o' ops).Owns where
  sid q x hx := by
    rcases mem_heap_put hx with ⟨-, rfl⟩ | ⟨-, hx⟩
    · rw [hsid, hfd]
      exact h.sid p o hp
    · exact h.sid q x hx
  opened q x hx hlive := by
    rcases mem_heap_put hx with ⟨-, rfl⟩ | ⟨-, hx⟩
    · rw [hfd]
      exact h.opened p o hp (hd hlive)
    · exact h.opened q x hx hlive
  distinct q r x y hx hy hxl hyl hxy := by
    rcases mem_heap_put hx with ⟨hq, rfl⟩ | ⟨-, hx'⟩
    · rcases mem_heap_put hy with ⟨hr, -⟩ | ⟨-, hy'⟩
      · rw [hq, hr]
      · rw [hq]
        exact h.distinct p r o y hp hy' (hd hxl) hyl (hfd ▸ hxy)
    · rcases mem_heap_put hy with ⟨hr, rfl⟩ | ⟨-, hy'⟩
      · rw [hr]
        exact h.distinct q p x o hx' hp hxl (hd hyl) (hfd ▸ hxy)
      · exact h.distinct q r x y hx' hy' hxl hyl hxy
  closing := h.closing
  clients i q hq := by
    obtain ⟨x, hx, hxfd⟩ := h.clients i q hq
    rw [heap_put hp]
    by_cases hqp : q = p
    · subst hqp
      obtain rfl := Option.some.inj (hp.symm.trans hx)
      exact ⟨o', by rw [if_pos rfl], hfd.trans hxfd⟩
    · exact ⟨x, by rw [if_neg hqp]; exact hx, hxfd⟩

theorem Owns.note (h : s.Owns) (ops : List Op) : (s.note ops).Owns :=
  ⟨h.sid, h.opened, h.distinct, h.closing, h.clients⟩
theorem Owns.crash (h : s.Owns) : s.crash.Owns :=
  ⟨h.sid, h.opened, h.distinct, h.closing, h.clients⟩
theorem Owns.setManager (h : s.Owns) (m : SessionManager Nat) : (s.setManager m).Owns :=
  ⟨h.sid, h.opened, h.distinct, h.closing, h.clients⟩

/-- A descriptor that no session has is closed. -/
theorem Owns.close (h : s.Owns) (p n : Nat)
    (hn : ∀ (q : Nat) (x : Obj), s.heap[q]? = some x → x.destroyed = false → x.fd ≠ n) :
    (s.close p n).Owns where
  sid := h.sid
  opened q x hx hlive := by
    simp only [Station.close, Function.update_apply, hn q x hx hlive, if_false]
    exact h.opened q x hx hlive
  distinct := h.distinct
  closing q k hq := by
    simp only [Station.close, Function.update_apply]
    split
    · rfl
    · exact h.closing q k hq
  clients := h.clients

theorem Owns.delete (h : s.Owns) (p : Nat) : (s.delete p).Owns := by
  rcases delete_cases s p with ⟨-, heq⟩ | ⟨o, ho, ⟨-, heq⟩ | ⟨hlive, heq⟩⟩
  · rw [heq]
    exact h
  · rw [heq]
    exact h.crash
  · rw [heq]
    have hput : (s.put p { o with body := o.body.destruct, destroyed := true }
        o.body.destructOps).Owns := h.put ho rfl rfl (fun hd => by cases hd)
    refine hput.close p _ ?_
    intro q x hx hxl hfd
    rcases mem_heap_put hx with ⟨-, rfl⟩ | ⟨hq, hx⟩
    · cases hxl
    · exact hq (h.distinct q p x o hx ho hxl hlive (hfd.trans (h.sid p o ho)))

/-- A new session, on a descriptor that was not open. -/
theorem Owns.append (h : s.Owns) {fd : Nat} (hfree : s.opened fd = false) (hfd : o.fd = fd)
    (hsid : o.sid.toNat = fd) (hclosing : s.closing = none) {t : Station}
    (hheap : t.heap = s.heap ++ [o]) (hopened : t.opened = Function.update s.opened fd true)
    (hclosing' : t.closing = s.closing)
    (hclients : ∀ (i p : Nat), (t.clients i).mSession = some p →
      (p = s.heap.length ∧ (t.clients i).mSockId = fd) ∨ t.clients i = s.clients i) :
    t.Owns := by
  have hnew : ∀ (q : Nat) (x : Obj), t.heap[q]? = some x →
      (q = s.heap.length ∧ x = o) ∨ s.heap[q]? = some x := fun q x hx => by
    rw [hheap] at hx
    exact mem_heap_append hx
  have hold : ∀ (q : Nat) (x : Obj), s.heap[q]? = some x → t.heap[q]? = some x := fun q x hx => by
    rw [hheap, List.getElem?_append_left (List.getElem?_eq_some_iff.mp hx).1]
    exact hx
  have hne : ∀ (q : Nat) (x : Obj), s.heap[q]? = some x → x.destroyed = false → x.fd ≠ fd := by
    intro q x hx hxl heq
    have := h.opened q x hx hxl
    rw [heq, hfree] at this
    cases this
  constructor
  · intro q x hx
    rcases hnew q x hx with ⟨-, rfl⟩ | hx
    · rw [hsid, hfd]
    · exact h.sid q x hx
  · intro q x hx hxl
    rw [hopened, Function.update_apply]
    rcases hnew q x hx with ⟨-, rfl⟩ | hx
    · rw [if_pos hfd]
    · rw [if_neg (hne q x hx hxl)]
      exact h.opened q x hx hxl
  · intro q r x y hx hy hxl hyl hxy
    rcases hnew q x hx with ⟨hq, rfl⟩ | hx'
    · rcases hnew r y hy with ⟨hr, -⟩ | hy'
      · rw [hq, hr]
      · exact absurd (hxy.symm.trans hfd) (hne r y hy' hyl)
    · rcases hnew r y hy with ⟨-, rfl⟩ | hy'
      · exact absurd (hxy.trans hfd) (hne q x hx' hxl)
      · exact h.distinct q r x y hx' hy' hxl hyl hxy
  · intro q n hq
    rw [hclosing', hclosing] at hq
    cases hq
  · intro i q hq
    rcases hclients i q hq with ⟨rfl, hsock⟩ | hsame
    · exact ⟨o, by rw [hheap, List.getElem?_append_right (Nat.le_refl _), Nat.sub_self]; rfl,
        hfd.trans hsock.symm⟩
    · rw [hsame] at hq ⊢
      obtain ⟨x, hx, hxfd⟩ := h.clients i q hq
      exact ⟨x, hold q x hx, hxfd⟩

/-! ## The table -/

theorem Listed.put (h : s.Listed) (hp : s.heap[p]? = some o) (hsid : o'.sid = o.sid)
    (hd : o'.destroyed = o.destroyed) (harg : o'.mArg = o.mArg) : (s.put p o' ops).Listed where
  held m hm k q hq := by
    obtain ⟨x, hx, hxl, hxk⟩ := h.held m hm k q hq
    rw [heap_put hp]
    by_cases hqp : q = p
    · subst hqp
      obtain rfl := Option.some.inj (hp.symm.trans hx)
      exact ⟨o', by rw [if_pos rfl], hd.trans hxl, hsid.trans hxk⟩
    · exact ⟨x, by rw [if_neg hqp]; exact hx, hxl, hxk⟩
  listed m hm q x hx hxl hxarg := by
    rcases mem_heap_put hx with ⟨rfl, rfl⟩ | ⟨-, hx⟩
    · rw [hsid]
      exact h.listed m hm q o hp (hd ▸ hxl) (harg ▸ hxarg)
    · exact h.listed m hm q x hx hxl hxarg

theorem Listed.note (h : s.Listed) (ops : List Op) : (s.note ops).Listed := ⟨h.held, h.listed⟩
theorem Listed.crash (h : s.Listed) : s.crash.Listed := ⟨h.held, h.listed⟩

/-- The session `p` is put into the table. -/
theorem Listed.register (h : s.Listed) (ho : s.Owns) (hp : s.heap[p]? = some o)
    (hlive : o.destroyed = false) {m : SessionManager Nat} (hm : s.mSessionManager = some m)
    (hsid : o'.sid = o.sid) (hd : o'.destroyed = false) :
    ((s.put p o' ops).setManager (m.put o.sid (some p)).1).Listed where
  held m' hm' k q hq := by
    obtain rfl := Option.some.inj hm'
    show ∃ x : Obj, (s.put p o' ops).heap[q]? = some x ∧ _
    rw [heap_put hp]
    by_cases hk : k = o.sid
    · subst hk
      rw [SessionManager.get_put_self] at hq
      obtain rfl := Option.some.inj hq
      exact ⟨o', by rw [if_pos rfl], hd, hsid⟩
    · rw [m.get_put_of_ne _ _ hk] at hq
      obtain ⟨x, hx, hxl, hxk⟩ := h.held m hm k q hq
      have hqp : q ≠ p := by
        rintro rfl
        obtain rfl := Option.some.inj (hp.symm.trans hx)
        exact hk hxk.symm
      exact ⟨x, by rw [if_neg hqp]; exact hx, hxl, hxk⟩
  listed m' hm' q x hx hxl hxarg := by
    obtain rfl := Option.some.inj hm'
    rcases mem_heap_put hx with ⟨rfl, rfl⟩ | ⟨hqp, hx⟩
    · rw [hsid, SessionManager.get_put_self]
    · -- another live session has another id
      have hne : x.sid ≠ o.sid := fun heq => hqp (ho.distinct q p x o hx hp hxl hlive (by
        rw [← ho.sid q x hx, ← ho.sid p o hp, heq]))
      rw [m.get_put_of_ne _ _ hne]
      exact h.listed m hm q x hx hxl hxarg

/-- The session under the id `k` is removed from the table and deleted. -/
theorem Listed.remove (h : s.Listed) (ho : s.Owns) {m : SessionManager Nat}
    (hm : s.mSessionManager = some m) {k : UInt16} (hget : (m.get k).1 = some q) :
    ((s.setManager (m.getAndRemove k).1).delete q).Listed := by
  obtain ⟨x, hx, hxl, hxk⟩ := h.held m hm k q hget
  have hmanager : ((s.setManager (m.getAndRemove k).1).delete q).mSessionManager =
      some (m.getAndRemove k).1 := manager_delete q
  constructor
  · intro m' hm' k' r hr
    obtain rfl := Option.some.inj (hmanager.symm.trans hm')
    have hk' : k' ≠ k := by
      rintro rfl
      rw [SessionManager.get_getAndRemove_self] at hr
      cases hr
    rw [m.get_getAndRemove_of_ne _ hk'] at hr
    obtain ⟨y, hy, hyl, hyk⟩ := h.held m hm k' r hr
    have hrq : r ≠ q := by
      rintro rfl
      obtain rfl := Option.some.inj (hx.symm.trans hy)
      exact hk' (hyk.symm.trans hxk)
    exact ⟨y, by rw [heap_delete_of_ne hrq]; exact hy, hyl, hyk⟩
  · intro m' hm' r y hy hyl hyarg
    obtain rfl := Option.some.inj (hmanager.symm.trans hm')
    have hrq : r ≠ q := by
      rintro rfl
      rw [destroyed_of_delete hy] at hyl
      cases hyl
    rw [heap_delete_of_ne hrq] at hy
    have hy' : s.heap[r]? = some y := hy
    have hne : y.sid ≠ k := fun heq => hrq (ho.distinct r q y x hy' hx hyl hxl (by
      rw [← ho.sid r y hy', ← ho.sid q x hx, heq, hxk]))
    rw [m.get_getAndRemove_of_ne _ hne]
    exact h.listed m hm r y hy' hyl hyarg

/-! ## Torn down and destroyed -/

theorem Torn.put {t : Station} (h : s.Torn) (ho : o.torn = true → o.destroyed = true)
    (ht : t.heap = s.heap.set p o) : t.Torn := by
  intro q x hx hxt
  rw [ht] at hx
  rcases mem_heap_put hx with ⟨-, rfl⟩ | ⟨-, hx⟩
  · exact ho hxt
  · exact h q x hx hxt

/-- Deleting the one session that was only closed. -/
theorem torn_delete (h : ∀ (q : Nat) (x : Obj), s.heap[q]? = some x → q ≠ p → x.torn = true →
    x.destroyed = true) : (s.delete p).Torn := by
  intro q x hx hxt
  by_cases hqp : q = p
  · subst hqp
    exact destroyed_of_delete hx
  · rw [heap_delete_of_ne hqp] at hx
    exact h q x hx hqp hxt

theorem Torn.delete (h : s.Torn) (p : Nat) : (s.delete p).Torn :=
  torn_delete fun q x hx _ => h q x hx

/-! ## Steps -/

theorem heap_append_old (h : s.heap[q]? = some o') (o : Obj) :
    (s.heap ++ [o])[q]? = some o' := by
  rw [List.getElem?_append_left (List.getElem?_eq_some_iff.mp h).1]
  exact h

theorem Listed.accept (h : s.Listed) (ho : s.Owns) {m : SessionManager Nat}
    (hm : s.mSessionManager = some m) {fd : Nat} (hfd : fd < 65536)
    (hfree : s.opened fd = false) (mReadBuff stream : List UInt8) :
    (s.onAccept fd mReadBuff stream).Listed := by
  have hsid : (UInt16.ofNat fd).toNat = fd := UInt16.toNat_ofNat_of_lt' hfd
  have hne : ∀ (q : Nat) (x : Obj), s.heap[q]? = some x → x.destroyed = false →
      x.sid ≠ UInt16.ofNat fd := by
    intro q x hx hxl heq
    have hopen := ho.opened q x hx hxl
    rw [← ho.sid q x hx, heq, hsid, hfree] at hopen
    cases hopen
  unfold onAccept
  rw [hm]
  constructor
  · intro m' hm' k q hq
    obtain rfl := Option.some.inj hm'
    by_cases hk : k = UInt16.ofNat fd
    · subst hk
      rw [SessionManager.get_put_self] at hq
      obtain rfl := Option.some.inj hq
      refine ⟨_, List.getElem?_concat_length, ?_, ?_⟩
      · rfl
      · rfl
    · rw [m.get_put_of_ne _ _ hk] at hq
      obtain ⟨x, hx, hxl, hxk⟩ := h.held m hm k q hq
      exact ⟨x, heap_append_old hx _, hxl, hxk⟩
  · intro m' hm' q x hx hxl hxarg
    obtain rfl := Option.some.inj hm'
    rcases mem_heap_append hx with ⟨rfl, rfl⟩ | hx
    · rw [SessionManager.get_put_self]
    · rw [m.get_put_of_ne _ _ (hne q x hx hxl)]
      exact h.listed m hm q x hx hxl hxarg

theorem Listed.connect (h : s.Listed) (i fd : Nat) (block mReadBuff stream : List UInt8) :
    (s.connect i fd block mReadBuff stream).Listed where
  held m hm k q hq := by
    obtain ⟨x, hx, hxl, hxk⟩ := h.held m hm k q hq
    exact ⟨x, heap_append_old hx _, hxl, hxk⟩
  listed m hm q x hx hxl hxarg := by
    rcases mem_heap_append hx with ⟨-, rfl⟩ | hx
    · cases hxarg
    · exact h.listed m hm q x hx hxl hxarg

/-- What holds of the sessions while the descriptors fit into 16 bits. -/
structure Sound (s : Station) : Prop where
  sane : s.Sane
  owns : s.Owns
  listed : s.Listed
  torn : s.Torn

/-- A new descriptor fits into 16 bits, and none is opened by a client between the
two closes of a teardown. -/
def Fits (s : Station) : StationEvent → Prop
  | .accept fd _ _ => fd < 65536
  | .connect _ fd _ _ _ => fd < 65536 ∧ s.closing = none
  | _ => True

/-- A read callback that gets 0 from `readBuffer` finds its session in the table,
and deletes it. -/
theorem Sound.dead_eq (h : s.Sound) (hp : s.heap[p]? = some o) {b : Body} {cb : Callback}
    (hb : o.body.step cb = some (b, ops)) {m : SessionManager Nat}
    (hm : s.mSessionManager = some m) :
    ((s.put p { o with body := b } ops).note [.readZero p]).quit p { o with body := b } =
      ((s.put p { o with body := b.quit } (ops ++ [.readZero p] ++ b.quitOps)).setManager
        (m.getAndRemove o.sid).1).delete p := by
  obtain ⟨htorn, harg⟩ := (h.sane.objs p o hp).not_torn hb
  have hget := h.listed.listed m hm p o hp (Obj.torn_eq_false.mp htorn).1 harg
  rw [h.sane.dead_eq hp hb hm, if_pos hget]

theorem Owns.closeLater (h : s.Owns) (p : Nat) {sid : UInt16} (hsid : s.opened sid.toNat = false) :
    (s.closeLater p sid).Owns := by
  unfold Station.closeLater
  split
  · refine ⟨h.sid, h.opened, h.distinct, fun q n hq => ?_, h.clients⟩
    obtain ⟨-, rfl⟩ := Prod.mk.inj (Option.some.inj hq)
    exact hsid
  · exact h

/-- The second close of a teardown reaches no session. -/
theorem Owns.closeSecond (h : s.Owns) {n : Nat} (hc : s.closing = some (p, n)) :
    Owns { s.close p n with closing := none } := by
  have hclose := h.close p n fun q x hx hxl hxn => by
    have hopen := h.opened q x hx hxl
    rw [hxn, h.closing p n hc] at hopen
    cases hopen
  exact ⟨hclose.sid, hclose.opened, hclose.distinct, (fun q k hq => by cases hq), hclose.clients⟩

theorem Owns.connect (h : s.Owns) (i : Nat) {fd : Nat} (hfd : fd < 65536)
    (hclosing : s.closing = none) (hfree : s.opened fd = false)
    (block mReadBuff stream : List UInt8) : (s.connect i fd block mReadBuff stream).Owns := by
  refine h.append hfree rfl (UInt16.toNat_ofNat_of_lt' hfd) hclosing rfl rfl rfl fun j q hq => ?_
  simp only [Station.connect, Function.update_apply] at hq ⊢
  split at hq
  · rename_i hj
    rw [if_pos hj]
    exact .inl ⟨(Option.some.inj hq).symm, rfl⟩
  · rename_i hj
    exact .inr (if_neg hj)

theorem Owns.destroy (h : s.Owns) : s.destroy.Owns :=
  destroy_induction (fun _ q hs => hs.delete q)
    (fun _ hs => ⟨hs.sid, hs.opened, hs.distinct, hs.closing, hs.clients⟩) h

theorem Listed.closeLater (h : s.Listed) (p : Nat) (sid : UInt16) :
    (s.closeLater p sid).Listed := by
  unfold Station.closeLater
  split
  · exact ⟨h.held, h.listed⟩
  · exact h

/-- There is no table any more. -/
theorem listed_destroy (s : Station) : s.destroy.Listed := by
  constructor
  · intro m hm
    rw [manager_destroy] at hm
    cases hm
  · intro m hm
    rw [manager_destroy] at hm
    cases hm

theorem Sound.step_owns (h : s.Sound) (hfits : Fits s e) (hm : Moves s e s') : s'.Owns := by
  cases hm with
  | accept m manager closing free =>
    unfold onAccept
    rw [manager]
    exact h.owns.append free rfl (UInt16.toNat_ofNat_of_lt' hfits) closing rfl rfl rfl
      fun _ _ _ => .inr rfl
  | live o b ops closing heap body alive => exact h.owns.put heap rfl rfl id
  | @dead p cb o b ops m manager closing heap body alive =>
    rw [h.dead_eq heap body manager]
    have hlive := (Obj.torn_eq_false.mp ((h.sane.objs p o heap).not_torn body).1).1
    have hput : (s.put p { o with body := b.quit } (ops ++ [.readZero p] ++ b.quitOps)).Owns :=
      h.owns.put heap rfl rfl id
    have hquit := (heap_put heap { o with body := b.quit }
      (ops ++ [.readZero p] ++ b.quitOps) p).trans (if_pos rfl)
    exact ((hput.setManager _).delete p).closeLater p
      (opened_delete (o := { o with body := b.quit }) hquit hlive)
  | close closing => exact h.owns.closeSecond closing
  | connect free => exact h.owns.connect _ hfits.1 hfits.2 free _ _ _
  | idle call => exact h.owns
  | stale p o call client heap dead => exact (h.owns.note _).crash
  | null p call => exact (h.owns.note _).crash
  | register p o m manager client heap live =>
    have hput : ((s.note [.deref p true]).put p
        { o with mArg := true, body := o.body.addReadEvent } o.body.addReadSets).Owns :=
      (h.owns.note _).put heap rfl rfl id
    exact hput.setManager _
  | fetch p o c c' client heap live body fetch => exact (h.owns.note _).put heap rfl rfl id
  | missing p o m manager sockId client heap live mArg get => exact (h.owns.note _).note _
  | remove p q o m manager sockId client heap live mArg get =>
    exact (((h.owns.note _).note _).setManager _).delete q
  | destroy closing => exact h.owns.destroy

theorem Sound.step_listed (h : s.Sound) (hfits : Fits s e) (hm : Moves s e s') : s'.Listed := by
  cases hm with
  | accept m manager closing free => exact h.listed.accept h.owns manager hfits free _ _
  | live o b ops closing heap body alive => exact h.listed.put heap rfl rfl rfl
  | @dead p cb o b ops m manager closing heap body alive =>
    rw [h.dead_eq heap body manager]
    obtain ⟨htorn, harg⟩ := (h.sane.objs p o heap).not_torn body
    have hget := h.listed.listed m manager p o heap (Obj.torn_eq_false.mp htorn).1 harg
    have hlisted : (s.put p { o with body := b.quit } (ops ++ [.readZero p] ++ b.quitOps)).Listed :=
      h.listed.put heap rfl rfl rfl
    have howns : (s.put p { o with body := b.quit } (ops ++ [.readZero p] ++ b.quitOps)).Owns :=
      h.owns.put heap rfl rfl id
    exact (hlisted.remove howns manager hget).closeLater p o.sid
  | close closing =>
    exact ⟨h.listed.held, h.listed.listed⟩
  | connect free => exact h.listed.connect _ _ _ _ _
  | idle call => exact h.listed
  | stale p o call client heap dead => exact (h.listed.note _).crash
  | null p call => exact (h.listed.note _).crash
  | @register i p o m manager client heap live =>
    obtain ⟨x, hx, hfd⟩ := h.owns.clients i p client
    obtain rfl := Option.some.inj (heap.symm.trans hx)
    have hsid : UInt16.ofNat (s.clients i).mSockId = o.sid := by
      rw [← hfd, ← h.owns.sid p o heap, UInt16.ofNat_toNat]
    rw [hsid]
    exact (h.listed.note [.deref p true]).register (h.owns.note _) heap live manager rfl live
  | fetch p o c c' client heap live body fetch => exact (h.listed.note _).put heap rfl rfl rfl
  | missing p o m manager sockId client heap live mArg get => exact (h.listed.note _).note _
  | remove p q o m manager sockId client heap live mArg get =>
    exact ((h.listed.note _).note _).remove ((h.owns.note _).note _) manager get
  | destroy closing => exact listed_destroy s

theorem Torn.closeLater (h : s.Torn) (p : Nat) (sid : UInt16) : (s.closeLater p sid).Torn := by
  intro q x hx
  rw [heap_closeLater] at hx
  exact h q x hx

theorem Torn.destroy (h : s.Torn) : s.destroy.Torn :=
  destroy_induction (fun _ q hs => hs.delete q) (fun _ hs => hs) h

theorem Sound.step_torn (h : s.Sound) (hm : Moves s e s') : s'.Torn := by
  have hnew : ∀ {o : Obj} {t : Station}, t.heap = s.heap ++ [o] → o.torn = false → t.Torn := by
    intro o t ht ho q x hx hxt
    rw [ht] at hx
    rcases mem_heap_append hx with ⟨-, rfl⟩ | hx
    · rw [ho] at hxt
      cases hxt
    · exact h.torn q x hx hxt
  cases hm with
  | accept m manager closing free =>
    unfold onAccept
    rw [manager]
    exact hnew rfl rfl
  | live o b ops closing heap body alive =>
    refine h.torn.put (fun ht => ?_) rfl
    have hd := (Obj.torn_eq_false.mp ((h.sane.objs _ o heap).not_torn body).1).1
    have hlive : Obj.torn { o with body := b } = false := Obj.torn_eq_false.mpr ⟨hd, alive⟩
    rw [hlive] at ht
    cases ht
  | @dead p cb o b ops m manager closing heap body alive =>
    rw [h.dead_eq heap body manager]
    refine Torn.closeLater (torn_delete fun q x hx hq hxt => ?_) p o.sid
    rcases mem_heap_put hx with ⟨rfl, -⟩ | ⟨-, hx⟩
    · exact absurd rfl hq
    · exact h.torn q x hx hxt
  | close closing => exact h.torn
  | connect free => exact hnew rfl rfl
  | idle call => exact h.torn
  | stale p o call client heap dead => exact h.torn
  | null p call => exact h.torn
  | register p o m manager client heap live =>
    refine h.torn.put (fun ht => ?_) rfl
    have hold : o.torn = false := eq_false_of_ne_true fun ht => by
      rw [h.torn p o heap ht] at live
      cases live
    have halive : o.body.addReadEvent.alive = true := by
      have := (Obj.torn_eq_false.mp hold).2
      cases hbody : o.body with
      | server c =>
        rw [hbody] at this
        exact this
      | client c => rfl
    have hlive : Obj.torn { o with mArg := true, body := o.body.addReadEvent } = false :=
      Obj.torn_eq_false.mpr ⟨live, halive⟩
    rw [hlive] at ht
    cases ht
  | fetch p o c c' client heap live body fetch =>
    refine h.torn.put (fun ht => ?_) rfl
    refine h.torn p o heap ?_
    have halive : (Body.client c').alive = o.body.alive := by
      rw [body]
      exact (ClientConn.fetchFileAndSave_sess fetch).2
    simpa only [Obj.torn, halive] using ht
  | missing p o m manager sockId client heap live mArg get => exact h.torn
  | @remove i p q o m manager sockId client heap live mArg get =>
    have ht : Torn (((s.note [.deref p true]).note [.disconnected i]).setManager
      (m.getAndRemove (UInt16.ofNat (s.clients i).mSockId)).1) := h.torn
    exact ht.delete q
  | destroy closing => exact h.torn.destroy

theorem Sound.step (h : s.Sound) (hfits : Fits s e) (hs : s.step e = some s') : s'.Sound where
  sane := h.sane.step hs
  owns := h.step_owns hfits (step_moves hs).2
  listed := h.step_listed hfits (step_moves hs).2
  torn := h.step_torn (step_moves hs).2

theorem sound_start (calls : List Int) (opened : Nat → Bool) : (start calls opened).Sound := by
  have hnone : ∀ {p : Nat} {o : Obj}, (start calls opened).heap[p]? ≠ some o := by
    simp [start]
  refine ⟨sane_start calls opened, ?_, ?_, ?_⟩
  · constructor
    · exact fun p o ho => absurd ho hnone
    · exact fun p o ho => absurd ho hnone
    · exact fun p q o x ho => absurd ho hnone
    · exact fun p n hc => by cases hc
    · exact fun i p hp => by cases hp
  · constructor
    · intro m hm k p hp
      obtain rfl := Option.some.inj hm
      rw [SessionManager.get_of_missing _ _ rfl] at hp
      cases hp
    · exact fun m hm p o ho => absurd ho hnone
  · exact fun p o ho => absurd ho hnone

end Station

end FilesEvent
