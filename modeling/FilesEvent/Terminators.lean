import FilesEvent.BufferCache
import FilesEvent.Lib.Runs

/-! Runs of calls on `BufferCache` objects. `getBuffer` and `take` store a NUL behind
the bytes that they hand out; whether there is room for it depends on the calls before. -/

namespace FilesEvent

open Runs (run Meets)

/-- The content ends where the block does. -/
def BufferCache.Full (b : BufferCache) : Prop :=
  b.mBuffer.orig_buffer.isSome = true ∧
    b.mBuffer.misalign + b.mBuffer.off = b.mBuffer.totallen

instance (b : BufferCache) : Decidable b.Full := inferInstanceAs (Decidable (_ ∧ _))

/-- A call; `i` and `j` number the objects. What an allocation leaves in new bytes is `fresh`. -/
inductive CacheCall
  | construct
  | append (i : Nat) (buffer : List UInt8) (fresh : Nat → UInt8)
  | appendCache (i j : Nat) (fresh : Nat → UInt8)
  | erase (i : Nat) (len : Int)
  | reset (i : Nat)
  | getBuffer (i : Nat)
  | getLine (i : Nat)
  | take (i : Nat) (len : Int)
  | takeCache (i : Nat)

def CacheCall.appends : CacheCall → Bool
  | .append .. | .appendCache .. => true
  | _ => false

/-- The objects, the stores of terminators and of what `take` copies, and whether a
call has not returned. -/
structure Caches where
  objects : List BufferCache
  stores : List Store
  stuck : Bool

namespace Caches

def start : Caches := ⟨[], [], false⟩

/-- The object `i` after a call that has made `stores`; `none` if it has not returned. -/
def put (s : Caches) (i : Nat) (b : Option BufferCache) (stores : List Store) : Caches :=
  match b with
  | some b => { s with objects := s.objects.set i b, stores := s.stores ++ stores }
  | none => { s with stores := s.stores ++ stores, stuck := true }

/-- One call. `append` gets at least one byte, and as many as an `int` can count; a
cache is appended to another; the `len` of `erase` is any `int`, that of `take` is the
size of a buffer. -/
def call (s : Caches) : CacheCall → Option Caches
  | .construct => some { s with objects := s.objects ++ [BufferCache.new] }
  | .append i buffer fresh =>
      if 0 < buffer.length ∧ buffer.length < 2147483648 then
        s.objects[i]?.map fun b => s.put i (b.append fresh buffer buffer.length) []
      else none
  | .appendCache i j fresh =>
      if i ≠ j then
        s.objects[i]?.bind fun b => s.objects[j]?.map fun buffer =>
          let r := b.appendCache fresh buffer
          (s.put j (some r.2.1) r.2.2).put i r.1 []
      else none
  | .erase i len =>
      if -2147483648 ≤ len ∧ len < 2147483648 then
        s.objects[i]?.map fun b => s.put i (some (b.erase len)) []
      else none
  | .reset i => s.objects[i]?.map fun b => s.put i (some b.reset) []
  | .getBuffer i => s.objects[i]?.map fun b => s.put i (some b.getBuffer.1) b.getBuffer.2.2
  | .getLine i => s.objects[i]?.map fun b => s.put i (b.getLine.map (·.1)) []
  | .take i len =>
      if 0 ≤ len ∧ len < 2147483648 then
        s.objects[i]?.map fun b => s.put i (some (b.take len).1) (b.take len).2.2.2
      else none
  | .takeCache i =>
      s.objects[i]?.map fun b =>
        { s with objects := s.objects.set i b.takeCache.1 ++ [b.takeCache.2] }

/-- A call happens only where all before it have returned. -/
def step (s : Caches) (c : CacheCall) : Option Caches := if s.stuck then none else s.call c

/-- Every store so far lies inside its block or buffer. -/
def Bounded (s : Caches) : Prop := ∀ st ∈ s.stores, st.InBounds

/-- No terminator is stored behind a full block, and no `take` gets an empty buffer. -/
def LeavesRoom (s : Caches) : CacheCall → Prop
  | .appendCache _ j _ => ∀ b ∈ s.objects[j]?, 0 < b.getSize → ¬ b.Full
  | .getBuffer i => ∀ b ∈ s.objects[i]?, ¬ b.Full
  | .take _ len => 0 < len
  | _ => True

instance (s : Caches) : ∀ c : CacheCall, Decidable (s.LeavesRoom c)
  | .appendCache _ j _ =>
      inferInstanceAs (Decidable (∀ b ∈ s.objects[j]?, 0 < b.getSize → ¬ b.Full))
  | .getBuffer i => inferInstanceAs (Decidable (∀ b ∈ s.objects[i]?, ¬ b.Full))
  | .take _ len => inferInstanceAs (Decidable (0 < len))
  | .construct | .append .. | .erase .. | .reset _ | .getLine _ | .takeCache _ => isTrue trivial

/-! ## What a call stores -/

/-- `getBuffer` stores in the block unless it is full. -/
theorem getBuffer_inBounds_iff (b : BufferCache) :
    (∀ st ∈ b.getBuffer.2.2, st.InBounds) ↔ ¬ b.Full := by
  have haligned := b.ok.aligned
  have hallocated := b.ok.allocated
  have hfits := b.ok.fits
  cases horig : b.mBuffer.orig_buffer with
  | none => simp [BufferCache.getBuffer, BufferCache.Full, horig]
  | some block =>
    have hblock : block.length = b.mBuffer.totallen := by
      rw [← hallocated, Evbuffer.block, horig, Option.getD_some]
    simp only [BufferCache.getBuffer, horig, List.mem_singleton, forall_eq, Store.InBounds,
      BufferCache.getSize, BufferCache.Full, Option.isSome_some, true_and]
    omega

theorem appendCache_inBounds_iff (fresh : Nat → UInt8) (b buffer : BufferCache) :
    (∀ st ∈ (b.appendCache fresh buffer).2.2, st.InBounds) ↔
      (0 < buffer.getSize → ¬ buffer.Full) := by
  unfold BufferCache.appendCache
  split
  · rename_i hpos
    rw [← getBuffer_inBounds_iff]
    exact ⟨fun h _ => h, fun h => h hpos⟩
  · rename_i hzero
    exact iff_of_true (by simp) fun h => absurd h hzero

/-- `take` stores in a buffer that is not empty, and only there. -/
theorem take_inBounds_iff (b : BufferCache) {len : Int} (h : 0 ≤ len) (hlen : len < 2147483648) :
    (∀ st ∈ (b.take len).2.2.2, st.InBounds) ↔ 0 < len := by
  simp only [BufferCache.take, Evbuffer.remove, List.mem_cons, List.not_mem_nil, or_false,
    forall_eq_or_imp, forall_eq, Store.InBounds, List.length_take]
  constructor
  · rintro ⟨-, hnul⟩
    omega
  · intro hpos
    have hsize : Bytes.asSize (len - 1) = (len - 1).toNat :=
      Bytes.asSize_of_nonneg (by omega) (by omega)
    rw [hsize]
    have hret : Bytes.asInt (if b.mBuffer.off ≤ (len - 1).toNat then b.mBuffer.off
        else (len - 1).toNat) =
        ((if b.mBuffer.off ≤ (len - 1).toNat then b.mBuffer.off else (len - 1).toNat : Nat) : Int) := by
      apply Bytes.asInt_of_lt
      split <;> omega
    rw [hret]
    split <;> omega

/-- What a call stores is in bounds exactly if it leaves room for the terminators. -/
theorem call_stores {s s' : Caches} {c : CacheCall} (h : s.call c = some s') :
    ∃ stores, s'.stores = s.stores ++ stores ∧
      ((∀ st ∈ stores, st.InBounds) ↔ s.LeavesRoom c) := by
  have hquiet : ∀ {i : Nat} {r : BufferCache → Option BufferCache},
      s.objects[i]?.map (fun b => s.put i (r b) []) = some s' → s'.stores = s.stores ++ [] := by
    intro i r hr
    obtain ⟨b, -, rfl⟩ := Option.map_eq_some_iff.mp hr
    unfold put
    split <;> rfl
  cases c with
  | construct =>
    cases h
    exact ⟨[], (List.append_nil _).symm, iff_of_true (by simp) trivial⟩
  | append i buffer fresh =>
    simp only [call] at h
    split at h
    · exact ⟨[], hquiet h, iff_of_true (by simp) trivial⟩
    · cases h
  | appendCache i j fresh =>
    simp only [call] at h
    split at h
    · obtain ⟨b, -, h⟩ := Option.bind_eq_some_iff.mp h
      obtain ⟨buffer, hj, rfl⟩ := Option.map_eq_some_iff.mp h
      refine ⟨(b.appendCache fresh buffer).2.2, ?_, ?_⟩
      · unfold put
        split <;> simp
      · rw [appendCache_inBounds_iff]
        simp [LeavesRoom, hj]
    · cases h
  | erase i len =>
    simp only [call] at h
    split at h
    · exact ⟨[], hquiet h, iff_of_true (by simp) trivial⟩
    · cases h
  | reset i => exact ⟨[], hquiet h, iff_of_true (by simp) trivial⟩
  | getBuffer i =>
    obtain ⟨b, hb, rfl⟩ := Option.map_eq_some_iff.mp h
    refine ⟨b.getBuffer.2.2, rfl, ?_⟩
    rw [getBuffer_inBounds_iff]
    simp [LeavesRoom, hb]
  | getLine i => exact ⟨[], hquiet h, iff_of_true (by simp) trivial⟩
  | take i len =>
    simp only [call] at h
    split at h
    · rename_i hlen
      obtain ⟨b, -, rfl⟩ := Option.map_eq_some_iff.mp h
      exact ⟨(b.take len).2.2.2, rfl, take_inBounds_iff b hlen.1 hlen.2⟩
    · cases h
  | takeCache i =>
    obtain ⟨b, -, rfl⟩ := Option.map_eq_some_iff.mp h
    exact ⟨[], (List.append_nil _).symm, iff_of_true (by simp) trivial⟩

/-- One call keeps the stores in bounds exactly if it leaves room for the terminators. -/
theorem bounded_step {s s' : Caches} {c : CacheCall} (hs : s.Bounded) (h : s.step c = some s') :
    s'.Bounded ↔ s.LeavesRoom c := by
  unfold step at h
  split at h
  · cases h
  obtain ⟨stores, hstores, hiff⟩ := call_stores h
  rw [← hiff, Bounded, hstores]
  constructor
  · exact fun hall st hst => hall st (List.mem_append_right _ hst)
  · intro hall st hst
    rcases List.mem_append.mp hst with hst | hst
    · exact hs st hst
    · exact hall st hst

/-- In every run every terminator is stored in bounds, at every moment, exactly if
every call leaves room for it. -/
theorem bounded_iff_leavesRoom {cs : List CacheCall} {t : Caches} (h : run step start cs = some t) :
    (∀ as bs u, cs = as ++ bs → run step start as = some u → u.Bounded) ↔
      Meets step LeavesRoom start cs :=
  Runs.always_iff_meets (I := fun _ => True) (fun _ _ _ _ _ _ => trivial)
    (fun _ _ _ _ hs hstep => bounded_step hs hstep) trivial (by simp [Bounded, start]) h

/-! ## What fills a block -/

theorem not_full_new : ¬ BufferCache.new.Full := by decide

/-- Bytes dropped from the front do not fill a block. -/
theorem full_of_drain {b b' : BufferCache} {len : Nat} (hdrain : b'.mBuffer = b.mBuffer.drain len)
    (h : b'.Full) : b.Full := by
  obtain ⟨hsome, hfull⟩ := h
  rw [hdrain, Evbuffer.drain] at hsome hfull
  split at hsome
  · rename_i hle
    rw [if_pos hle] at hfull
    have hpos := b.ok.nonempty hsome
    change 0 + 0 = b.mBuffer.totallen at hfull
    omega
  · rename_i hlt
    rw [if_neg hlt] at hfull
    change b.mBuffer.misalign + len + (b.mBuffer.off - len) = b.mBuffer.totallen at hfull
    exact ⟨hsome, by omega⟩

theorem full_of_getBuffer {b : BufferCache} (h : b.getBuffer.1.Full) : b.Full := by
  unfold BufferCache.getBuffer at h
  split at h
  · rename_i horig
    exact ⟨by rw [horig]; rfl, h.2⟩
  · exact h

theorem full_of_getLine {b b' : BufferCache} (h : b.getLine.map (·.1) = some b') (hfull : b'.Full) :
    b.Full := by
  unfold BufferCache.getLine at h
  split at h
  · rename_i line hline
    obtain rfl := Option.some.inj h
    rcases Evbuffer.readline_drains hline with rfl | ⟨len, rfl⟩
    · exact hfull
    · exact full_of_drain rfl hfull
  · cases h

/-- Only an append fills a block. -/
theorem call_full {s s' : Caches} {c : CacheCall} (hc : c.appends = false)
    (h : s.call c = some s') {b' : BufferCache} (hb : b' ∈ s'.objects) (hfull : b'.Full) :
    ∃ b ∈ s.objects, b.Full := by
  have hput : ∀ {i : Nat} {r : BufferCache → Option BufferCache} {stores : BufferCache → List Store},
      (∀ b b', r b = some b' → b'.Full → b.Full) →
        s.objects[i]?.map (fun b => s.put i (r b) (stores b)) = some s' →
          ∃ b ∈ s.objects, b.Full := by
    intro i r stores hr hmap
    obtain ⟨b, hget, rfl⟩ := Option.map_eq_some_iff.mp hmap
    unfold put at hb
    split at hb
    · rename_i b₁ hb₁
      rcases List.mem_or_eq_of_mem_set hb with hold | rfl
      · exact ⟨b', hold, hfull⟩
      · exact ⟨b, List.mem_of_getElem? hget, hr b b' hb₁ hfull⟩
    · exact ⟨b', hb, hfull⟩
  cases c with
  | construct =>
    obtain rfl := Option.some.inj h
    rcases List.mem_append.mp hb with hold | hnew
    · exact ⟨b', hold, hfull⟩
    · rw [List.mem_singleton.mp hnew] at hfull
      exact absurd hfull not_full_new
  | append i buffer fresh => cases hc
  | appendCache i j fresh => cases hc
  | erase i len =>
    simp only [call] at h
    split at h
    · refine hput (fun b b₁ hr hf => ?_) h
      obtain rfl := Option.some.inj hr
      exact full_of_drain rfl hf
    · cases h
  | reset i =>
    refine hput (fun b b₁ hr hf => ?_) h
    obtain rfl := Option.some.inj hr
    exact full_of_drain rfl hf
  | getBuffer i =>
    refine hput (fun b b₁ hr hf => ?_) h
    obtain rfl := Option.some.inj hr
    exact full_of_getBuffer hf
  | getLine i => exact hput (fun b b₁ hr hf => full_of_getLine hr hf) h
  | take i len =>
    simp only [call] at h
    split at h
    · refine hput (fun b b₁ hr hf => ?_) h
      obtain rfl := Option.some.inj hr
      exact full_of_drain rfl hf
    · cases h
  | takeCache i =>
    obtain ⟨b, hget, rfl⟩ := Option.map_eq_some_iff.mp h
    rcases List.mem_append.mp hb with hold | hnew
    · rcases List.mem_or_eq_of_mem_set hold with hold | rfl
      · exact ⟨b', hold, hfull⟩
      · exact absurd hfull not_full_new
    · rw [List.mem_singleton.mp hnew] at hfull
      exact ⟨b, List.mem_of_getElem? hget, hfull⟩

/-- An append leaves no full block, and `take` gets a buffer that is not empty. -/
def FillsNone (s : Caches) (c : CacheCall) : Prop :=
  (c.appends = true → ∀ s', s.call c = some s' → ∀ b ∈ s'.objects, ¬ b.Full) ∧
    ∀ i len, c = .take i len → 0 < len

theorem leavesRoom_of_notFull {s : Caches} {c : CacheCall} (h : ∀ b ∈ s.objects, ¬ b.Full)
    (htake : ∀ i len, c = .take i len → 0 < len) : s.LeavesRoom c := by
  cases c with
  | appendCache i j fresh => exact fun b hb _ => h b (List.mem_of_getElem? hb)
  | getBuffer i => exact fun b hb => h b (List.mem_of_getElem? hb)
  | take i len => exact htake i len rfl
  | _ => trivial

/-- Callers whose appends fill no block are safe, whatever they call in between. -/
theorem bounded_of_fillsNone {cs : List CacheCall} {t : Caches}
    (hC : Meets step FillsNone start cs) (h : run step start cs = some t) :
    t.Bounded ∧ ∀ b ∈ t.objects, ¬ b.Full := by
  refine Runs.run_meets (I := fun s => s.Bounded ∧ ∀ b ∈ s.objects, ¬ b.Full) ?_ ?_ hC h
  · rintro s c s' ⟨hbounded, hspare⟩ ⟨happend, htake⟩ hstep
    refine ⟨(bounded_step hbounded hstep).mpr (leavesRoom_of_notFull hspare htake), ?_⟩
    unfold step at hstep
    split at hstep
    · cases hstep
    · intro b hb hfull
      cases hc : c.appends with
      | true => exact happend hc s' hstep b hb hfull
      | false =>
        obtain ⟨b₀, hb₀, hfull₀⟩ := call_full hc hstep hb hfull
        exact hspare b₀ hb₀ hfull₀
  · exact ⟨by simp [Bounded, start], by simp [start]⟩

end Caches

end FilesEvent
