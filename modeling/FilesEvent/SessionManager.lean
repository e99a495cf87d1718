import FilesEvent.Lib.GenMap
import FilesEvent.Lib.Runs
import Mathlib.Data.FinEnum

/-! `SessionManager` of `Session.cpp`: the table of sessions under 16-bit ids, 64
rows of 1024 entries, each allocated when something is first put into it. -/

namespace FilesEvent

/-- `SessionEntry`; a session is `none` for NULL. -/
structure SessionEntry (σ : Type) where
  mSeq : UInt16
  mSession : Option σ

structure SessionManager (σ : Type) where
  mCount : Int
  mArray : Fin 64 → Option (Fin 1024 → SessionEntry σ)

namespace SessionManager

variable {σ : Type}

def row (sid : UInt16) : Fin 64 := ⟨sid.toNat / 1024, by have := sid.toNat_lt; omega⟩
def col (sid : UInt16) : Fin 1024 := ⟨sid.toNat % 1024, Nat.mod_lt _ (by decide)⟩

/-- The constructor. -/
def new : SessionManager σ := ⟨0, fun _ => none⟩

def getCount (m : SessionManager σ) : Int := m.mCount

/-- A store into the entry of `sid` in its row `node`. -/
def store (m : SessionManager σ) (sid : UInt16) (node : Fin 1024 → SessionEntry σ)
    (entry : SessionEntry σ) (mCount : Int) : SessionManager σ :=
  ⟨mCount, Function.update m.mArray (row sid) (some (Function.update node (col sid) entry))⟩

/-- `put`, with the `seq` it reports; `calloc` clears a new row. -/
def put (m : SessionManager σ) (sid : UInt16) (session : Option σ) : SessionManager σ × UInt16 :=
  let node := (m.mArray (row sid)).getD fun _ => ⟨0, none⟩
  (m.store sid node { node (col sid) with mSession := session } (m.mCount + 1),
    (node (col sid)).mSeq)

/-- `get`, with the `seq` it reports. -/
def get (m : SessionManager σ) (sid : UInt16) : Option σ × UInt16 :=
  match m.mArray (row sid) with
  | some node => ((node (col sid)).mSession, (node (col sid)).mSeq)
  | none => (none, 0)

/-- `getAndRemove`, with the `seq` it reports: none where the row is missing. -/
def getAndRemove (m : SessionManager σ) (sid : UInt16) :
    SessionManager σ × Option σ × Option UInt16 :=
  match m.mArray (row sid) with
  | some node =>
      let entry := node (col sid)
      (m.store sid node ⟨entry.mSeq + 1, none⟩ (m.mCount - 1), entry.mSession, some entry.mSeq)
  | none => (m, none, none)

/-! ## What a call leaves -/

theorem eq_of_row_col {a b : UInt16} (hr : row a = row b) (hc : col a = col b) : a = b := by
  have hr := congrArg Fin.val hr
  have hc := congrArg Fin.val hc
  simp only [row, col] at hr hc
  exact UInt16.toNat_inj.mp (by omega)

section Store

variable {m : SessionManager σ} {sid : UInt16} {node : Fin 1024 → SessionEntry σ}
  {entry : SessionEntry σ} {mCount : Int}

theorem get_store_self : (m.store sid node entry mCount).get sid = (entry.mSession, entry.mSeq) := by
  simp [get, store]

/-- A store leaves the other ids, where its row is that of the table. -/
theorem get_store_of_ne {sid' : UInt16} (h : sid' ≠ sid)
    (hnode : (m.mArray (row sid)).getD (fun _ => ⟨0, none⟩) = node) :
    (m.store sid node entry mCount).get sid' = m.get sid' := by
  simp only [get, store, Function.update_apply]
  by_cases hr : row sid' = row sid
  · have hc : col sid' ≠ col sid := fun hc => h (eq_of_row_col hr hc)
    rw [if_pos hr, hr, ← hnode]
    cases hrow : m.mArray (row sid) <;> simp [hc]
  · rw [if_neg hr]

theorem isSome_store (r : Fin 64) :
    ((m.store sid node entry mCount).mArray r).isSome =
      (decide (r = row sid) || (m.mArray r).isSome) := by
  simp only [store, Function.update_apply]
  by_cases hr : r = row sid <;> simp [hr]

end Store

section Calls

variable (m : SessionManager σ) (sid : UInt16) (session : Option σ)

theorem put_snd : (m.put sid session).2 = (m.get sid).2 := by
  simp only [put, get]
  cases m.mArray (row sid) <;> rfl

theorem get_put_self : (m.put sid session).1.get sid = (session, (m.get sid).2) := by
  rw [← m.put_snd sid session, put, get_store_self]

theorem get_put_of_ne {sid' : UInt16} (h : sid' ≠ sid) :
    (m.put sid session).1.get sid' = m.get sid' := get_store_of_ne h rfl

theorem isSome_put (r : Fin 64) :
    ((m.put sid session).1.mArray r).isSome = (decide (r = row sid) || (m.mArray r).isSome) :=
  isSome_store r

theorem get_of_missing (h : m.mArray (row sid) = none) : m.get sid = (none, 0) := by
  simp only [get, h]

/-- A removal where the row is missing does nothing. -/
theorem getAndRemove_of_missing (h : m.mArray (row sid) = none) :
    m.getAndRemove sid = (m, none, none) := by
  simp only [getAndRemove, h]

/-- A removal returns what `get` does. -/
theorem getAndRemove_session : (m.getAndRemove sid).2.1 = (m.get sid).1 := by
  simp only [getAndRemove, get]
  cases m.mArray (row sid) <;> rfl

theorem getAndRemove_seq :
    (m.getAndRemove sid).2.2 = if (m.mArray (row sid)).isSome then some (m.get sid).2 else none := by
  simp only [getAndRemove, get]
  cases m.mArray (row sid) <;> rfl

theorem getAndRemove_count : (m.getAndRemove sid).1.mCount =
    if (m.mArray (row sid)).isSome then m.mCount - 1 else m.mCount := by
  simp only [getAndRemove]
  cases m.mArray (row sid) <;> rfl

theorem get_getAndRemove_self : (m.getAndRemove sid).1.get sid =
    (none, if (m.mArray (row sid)).isSome then (m.get sid).2 + 1 else 0) := by
  cases h : m.mArray (row sid) with
  | none => simp [m.getAndRemove_of_missing sid h, m.get_of_missing sid h]
  | some node => simp [getAndRemove, get, h, store]

theorem get_getAndRemove_of_ne {sid' : UInt16} (h : sid' ≠ sid) :
    (m.getAndRemove sid).1.get sid' = m.get sid' := by
  cases hrow : m.mArray (row sid) with
  | none => rw [m.getAndRemove_of_missing sid hrow]
  | some node =>
    simp only [getAndRemove, hrow]
    exact get_store_of_ne h (by rw [hrow]; rfl)

theorem isSome_getAndRemove (r : Fin 64) :
    ((m.getAndRemove sid).1.mArray r).isSome = (m.mArray r).isSome := by
  cases hrow : m.mArray (row sid) with
  | none => rw [m.getAndRemove_of_missing sid hrow]
  | some node =>
    simp only [getAndRemove, hrow]
    rw [isSome_store]
    by_cases hr : r = row sid <;> simp [hr, hrow]

end Calls

/-! ## The map that the table refines -/

open GenMap (Call)

def call (m : SessionManager σ) : Call UInt16 σ → SessionManager σ
  | .put sid session => (m.put sid session).1
  | .get _ => m
  | .remove sid => (m.getAndRemove sid).1

/-- The table after the calls `cs`. -/
def after (cs : List (Call UInt16 σ)) : SessionManager σ := cs.foldl call new

theorem after_append (as bs : List (Call UInt16 σ)) : after (as ++ bs) = bs.foldl call (after as) :=
  List.foldl_append

/-- The table shows what the map holds, the generations in 16 bits. -/
structure Refines (m : SessionManager σ) (g : GenMap UInt16 (Fin 64) σ) : Prop where
  get : ∀ sid, m.get sid = (g.held sid, UInt16.ofNat (g.gen sid))
  used : ∀ r, (m.mArray r).isSome = g.used r

theorem Refines.call {m : SessionManager σ} {g : GenMap UInt16 (Fin 64) σ} (h : m.Refines g)
    (c : Call UInt16 σ) : (m.call c).Refines (g.apply row c) := by
  cases c with
  | put sid session =>
    constructor
    · intro sid'
      simp only [SessionManager.call, GenMap.apply, Function.update_apply]
      by_cases hs : sid' = sid
      · rw [hs, get_put_self, h.get, if_pos rfl]
      · rw [m.get_put_of_ne sid session hs, h.get, if_neg hs]
    · intro r
      simp only [SessionManager.call, GenMap.apply, isSome_put, Function.update_apply, h.used]
      by_cases hr : r = row sid <;> simp [hr]
  | get sid => exact h
  | remove sid =>
    have hused := h.used (row sid)
    cases hg : g.used (row sid) with
    | false =>
      rw [hg, Option.isSome_eq_false_iff, Option.isNone_iff_eq_none] at hused
      have hm : m.call (.remove sid) = m := by
        simp only [SessionManager.call, m.getAndRemove_of_missing sid hused]
      have hgm : g.apply row (.remove sid) = g := by
        simp only [GenMap.apply, hg, Bool.false_eq_true, ↓reduceIte]
      rw [hm, hgm]
      exact h
    | true =>
      constructor
      · intro sid'
        simp only [SessionManager.call, GenMap.apply, hg, ↓reduceIte, Function.update_apply]
        by_cases hs : sid' = sid
        · rw [hs, get_getAndRemove_self, hused, hg, h.get, if_pos rfl, if_pos rfl, if_pos rfl,
            UInt16.ofNat_add]
          rfl
        · rw [m.get_getAndRemove_of_ne sid hs, h.get, if_neg hs, if_neg hs]
      · intro r
        simp only [SessionManager.call, isSome_getAndRemove, GenMap.apply, hg, ↓reduceIte, h.used]

theorem refines_after (cs : List (Call UInt16 σ)) : (after cs).Refines (GenMap.after row cs) := by
  induction cs using List.reverseRecOn with
  | nil => exact ⟨fun _ => rfl, fun _ => rfl⟩
  | append_singleton cs c ih =>
    rw [after_append, GenMap.after_concat]
    exact ih.call c

/-- What the table does for `sid` after the calls `cs`, as a map with generations:

* `get` and `getAndRemove` return the session last put under `sid` and not removed
  since, and the removal leaves none;
* a call on another id changes nothing of it;
* each call that reports a `seq` reports the number of removals of `sid` since its
  row is allocated, in 16 bits, and a removal reports none where it is not;
* two puts report different numbers if `sid` is removed between them, but fewer
  than 65536 times, and the same number if it is not. -/
structure MapsTo (cs : List (Call UInt16 σ)) (sid : UInt16) : Prop where
  get : ∀ session, ((after cs).get sid).1 = some session ↔ GenMap.LastPut sid session cs
  getAndRemove : ((after cs).getAndRemove sid).2.1 = ((after cs).get sid).1
  removed : (((after cs).getAndRemove sid).1.get sid).1 = none
  others : ∀ c : Call UInt16 σ, c.key ≠ sid →
    ((after (cs ++ [c])).get sid = (after cs).get sid ∧
      ((after (cs ++ [c])).getAndRemove sid).2.1 = ((after cs).getAndRemove sid).2.1)
  getSeq : ((after cs).get sid).2 = UInt16.ofNat (GenMap.removals row sid cs)
  putSeq : ∀ session, ((after cs).put sid session).2 = UInt16.ofNat (GenMap.removals row sid cs)
  removeSeq : ((after cs).getAndRemove sid).2.2 =
    if cs.any (·.opens row (row sid)) then some (UInt16.ofNat (GenMap.removals row sid cs))
    else none
  reuse : ∀ session session' bs,
    let k := bs.countP (·.removes sid)
    let seq := ((after cs).put sid session).2
    let seq' := ((after (cs ++ .put sid session :: bs)).put sid session').2
    (1 ≤ k → k ≤ 65535 → seq ≠ seq') ∧ (k = 0 → seq = seq')

/-- A call on another id leaves what `get` returns. -/
theorem get_call_of_ne (m : SessionManager σ) {c : Call UInt16 σ} {sid : UInt16}
    (h : c.key ≠ sid) : (m.call c).get sid = m.get sid := by
  cases c with
  | put sid' session => exact m.get_put_of_ne sid' session (Ne.symm h)
  | get sid' => rfl
  | remove sid' => exact m.get_getAndRemove_of_ne sid' (Ne.symm h)

theorem seq_after (cs : List (Call UInt16 σ)) (sid : UInt16) :
    ((after cs).get sid).2 = UInt16.ofNat (GenMap.removals row sid cs) := by
  rw [(refines_after cs).get, GenMap.gen_after]

/-- Numbers that are less than 65536 apart differ in 16 bits. -/
theorem ofNat_ne_of_lt {a k : Nat} (hk : 1 ≤ k) (hlt : k ≤ 65535) :
    UInt16.ofNat a ≠ UInt16.ofNat (a + k) := by
  intro h
  have := congrArg UInt16.toNat h
  rw [UInt16.toNat_ofNat', UInt16.toNat_ofNat'] at this
  omega

/-- After every list of calls, and for every id, the table is a map with generations. -/
theorem mapsTo (cs : List (Call UInt16 σ)) (sid : UInt16) : MapsTo cs sid where
  get session := by rw [(refines_after cs).get, GenMap.held_after]
  getAndRemove := getAndRemove_session _ sid
  removed := by rw [get_getAndRemove_self]
  others c hc := by
    have hget : (after (cs ++ [c])).get sid = (after cs).get sid := by
      rw [after_append]
      exact get_call_of_ne _ hc
    rw [getAndRemove_session, getAndRemove_session, hget]
    exact ⟨rfl, rfl⟩
  getSeq := seq_after cs sid
  putSeq session := by rw [put_snd, seq_after]
  removeSeq := by
    rw [getAndRemove_seq, seq_after, (refines_after cs).used, GenMap.used_after]
  reuse session session' bs := by
    have hopen : (cs ++ [Call.put sid session]).any (·.opens row (row sid)) = true := by
      simp [Call.opens]
    have hfirst : GenMap.removals row sid (cs ++ [Call.put sid session]) =
        GenMap.removals row sid cs := by
      rw [GenMap.removals_concat]
      simp [Call.removes]
    have hsplit : cs ++ Call.put sid session :: bs = (cs ++ [Call.put sid session]) ++ bs := by simp
    simp only [put_snd, seq_after, hsplit, GenMap.removals_append hopen, hfirst]
    exact ⟨fun hk hlt => ofNat_ne_of_lt hk hlt, fun hk => by rw [hk, Nat.add_zero]⟩

/-! ## The number of sessions -/

/-- The ids that hold a session. -/
def live (m : SessionManager σ) : Finset UInt16 := {sid | (m.get sid).1.isSome}

theorem mem_live {m : SessionManager σ} {sid : UInt16} :
    sid ∈ m.live ↔ (m.get sid).1.isSome = true := by
  simp [live]

theorem live_put (m : SessionManager σ) (sid : UInt16) (session : Option σ) :
    (m.put sid session).1.live =
      if session.isSome then insert sid m.live else m.live.erase sid := by
  ext sid'
  rw [mem_live]
  by_cases hs : sid' = sid
  · rw [hs, get_put_self]
    cases session <;> simp
  · rw [m.get_put_of_ne sid session hs]
    split <;> simp [hs, mem_live]

theorem live_getAndRemove (m : SessionManager σ) (sid : UInt16) :
    (m.getAndRemove sid).1.live = m.live.erase sid := by
  ext sid'
  rw [mem_live]
  by_cases hs : sid' = sid
  · rw [hs, get_getAndRemove_self]
    simp
  · rw [m.get_getAndRemove_of_ne sid hs]
    simp [hs, mem_live]

/-- A put of a session under an id that holds none, or a removal from an id that
holds one or has no row. -/
def Follows (m : SessionManager σ) : Call UInt16 σ → Prop
  | .put sid session => session.isSome = true ∧ (m.get sid).1 = none
  | .get _ => True
  | .remove sid => (m.get sid).1.isSome = true ∨ m.mArray (row sid) = none

def CountOk (m : SessionManager σ) : Prop := m.getCount = m.live.card

/-- One call keeps the count exact if and only if it is one that the counter follows. -/
theorem countOk_call {m : SessionManager σ} (h : m.CountOk) (c : Call UInt16 σ) :
    (m.call c).CountOk ↔ m.Follows c := by
  have hm : m.mCount = m.live.card := h
  cases c with
  | put sid session =>
    have hcount : (m.call (.put sid session)).getCount = m.mCount + 1 := rfl
    have hmem : sid ∈ m.live ↔ ¬ (m.get sid).1 = none := by
      rw [mem_live, ← Option.ne_none_iff_isSome]
    rw [CountOk, hcount, hm]
    simp only [call, live_put, Follows]
    by_cases hin : sid ∈ m.live
    · have hpos := Finset.card_pos.mpr ⟨sid, hin⟩
      have := Finset.card_erase_of_mem hin
      simp only [hmem.mp hin, and_false, iff_false]
      split
      · rw [Finset.insert_eq_of_mem hin]; omega
      · omega
    · have hnone : (m.get sid).1 = none := Classical.not_not.mp (mt hmem.mpr hin)
      split
      · rename_i hsome
        rw [Finset.card_insert_of_notMem hin]
        exact iff_of_true (by omega) ⟨hsome, hnone⟩
      · rename_i hsome
        rw [Finset.erase_eq_of_notMem hin]
        exact iff_of_false (by omega) fun hf => hsome hf.1
  | get sid => exact iff_of_true h trivial
  | remove sid =>
    have hcount : (m.call (.remove sid)).getCount =
        if (m.mArray (row sid)).isSome then m.mCount - 1 else m.mCount := m.getAndRemove_count sid
    rw [CountOk, hcount, hm]
    simp only [call, live_getAndRemove, Follows, ← mem_live]
    cases hrow : m.mArray (row sid) with
    | none =>
      have hout : sid ∉ m.live := by
        rw [mem_live, m.get_of_missing sid hrow]
        exact Bool.false_ne_true
      rw [Finset.erase_eq_of_notMem hout]
      exact iff_of_true rfl (.inr rfl)
    | some node =>
      by_cases hin : sid ∈ m.live
      · have hpos := Finset.card_pos.mpr ⟨sid, hin⟩
        have := Finset.card_erase_of_mem hin
        simp only [Option.isSome_some, ↓reduceIte, hin, true_or, iff_true]
        omega
      · simp only [Option.isSome_some, ↓reduceIte, Finset.erase_eq_of_notMem hin, hin, false_or,
          reduceCtorEq, iff_false]
        omega

/-- At every moment of a list of calls `getCount` is the number of ids that hold a
session exactly if every call is one that the counter follows. -/
theorem getCount_eq_card_iff (cs : List (Call UInt16 σ)) :
    (∀ as bs, cs = as ++ bs → (after as).getCount = (after as).live.card) ↔
      Runs.Meets (fun m c => some (call m c)) Follows new cs := by
  have hstep : ∀ (m : SessionManager σ) (c : Call UInt16 σ) (m' : SessionManager σ),
      True → m.CountOk → (fun m c => some (call m c)) m c = some m' →
        (m'.CountOk ↔ Follows m c) := by
    intro m c m' _ hm hc
    obtain rfl := Option.some.inj hc
    exact countOk_call hm c
  have h := Runs.always_iff_meets (I := fun _ => True) (fun _ _ _ _ _ _ => trivial) hstep
    trivial (by simp [CountOk, getCount, new, live, get]) (Runs.run_total call new cs)
  rw [← h]
  constructor
  · intro hall as bs m hcs hrun
    rw [Runs.run_total] at hrun
    obtain rfl := Option.some.inj hrun
    exact hall as bs hcs
  · intro hall as bs hcs
    exact hall as bs _ hcs (Runs.run_total call new as)

/-- A session put twice under one id is counted twice, and removing it twice makes
the count negative. -/
theorem getCount_drifts :
    ¬ (after [Call.put 5 (some ()), .put 5 (some ())]).CountOk ∧
      (after [Call.put 5 (some ()), .remove 5, .remove 5]).getCount = -1 := by
  constructor
  · have hempty : (new : SessionManager Unit).live = ∅ := by simp [live, new, get]
    have hlive : (after [Call.put 5 (some ()), .put 5 (some ())]).live = {5} := by
      simp only [after, List.foldl_cons, List.foldl_nil, call, live_put, hempty]
      decide
    rw [CountOk, hlive]
    decide
  · decide

end SessionManager

end FilesEvent
