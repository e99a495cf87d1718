import FilesEvent.Lib.Bytes
import FilesEvent.Lib.Tiling

/-! `sendEx`, the same text in `TaskFileSend` and `TaskFileRecv`: `send` is
called on the unsent rest of a block until the block is out or an error other
than EAGAIN occurs. A list of outcomes describes one complete call: `none`
means that the list is too short or too long for the loop. -/

namespace FilesEvent
open Bytes Tiling

/-- What the system does with a `send` call: it takes `k` of the bytes offered,
or all of them if they are fewer, or fails with EAGAIN or with another error. -/
inductive SendResult
  | accepted (k : Nat)
  | eagain
  | error
  deriving DecidableEq, Repr

/-- One `send` call: where in the block the bytes offered start, how many they
are, and which of them the socket took. -/
structure SendCall where
  off : Int
  cnt : Int
  bytes : List UInt8
  deriving DecidableEq, Repr

structure SendOut where
  ret : Int
  calls : List SendCall
  deriving DecidableEq, Repr

/-- The `do`-`while` loop. `continue` after EAGAIN re-tests `leftLen > 0`. -/
def sendExLoop (data : List UInt8) (len : Int) : Int → List SendResult → Option SendOut
  | _, [] => none
  | leftLen, .accepted k :: outs =>
      let iRet : Nat := min k leftLen.toNat
      let call : SendCall := ⟨len - leftLen, leftLen, (data.drop (len - leftLen).toNat).take iRet⟩
      if 0 < leftLen - iRet then
        (sendExLoop data len (leftLen - iRet) outs).map fun o => ⟨o.ret, call :: o.calls⟩
      else if outs = [] then some ⟨len - (leftLen - iRet), [call]⟩ else none
  | leftLen, .eagain :: outs =>
      let call : SendCall := ⟨len - leftLen, leftLen, []⟩
      if 0 < leftLen then
        (sendExLoop data len leftLen outs).map fun o => ⟨o.ret, call :: o.calls⟩
      else if outs = [] then some ⟨len - leftLen, [call]⟩ else none
  | leftLen, .error :: outs =>
      if outs = [] then some ⟨-1, [⟨len - leftLen, leftLen, []⟩]⟩ else none

def sendEx (data : List UInt8) (len : Int) (outs : List SendResult) : Option SendOut :=
  sendExLoop data len len outs

/-- The bytes the socket took during a call, in order. -/
def SendOut.bytes (o : SendOut) : List UInt8 := o.calls.flatMap SendCall.bytes

/-- No send of the call fails with an error other than EAGAIN. -/
def NoError (outs : List SendResult) : Prop := .error ∉ outs

/-- An error other than EAGAIN, if there is one, comes before the socket has
taken a byte of the block. -/
def NoLateError (outs : List SendResult) : Prop :=
  NoError outs ∨ ∀ k, 0 < k → .accepted k ∉ outs

instance (outs : List SendResult) : Decidable (NoError outs) :=
  inferInstanceAs (Decidable (¬ _))

/-- A call that is offered the last `leftLen` bytes of the block and takes `k` of them. -/
private def restCall (data : List UInt8) (len leftLen k : Nat) : SendCall :=
  ⟨len - leftLen, leftLen, (data.drop (len - leftLen)).take k⟩

/-- What one round does. Its call is offered the rest of the block and takes `k`
bytes of it. It is the last one, after an error or with the block out, or the
loop goes on with what is left. -/
private theorem sendExLoop_cons {data : List UInt8} {len leftLen : Nat} {r : SendResult}
    {outs : List SendResult} {o : SendOut} (hpos : 0 < leftLen) (hle : leftLen ≤ len)
    (h : sendExLoop data len leftLen (r :: outs) = some o) :
    (r = .error ∧ outs = [] ∧ o = ⟨-1, [restCall data len leftLen 0]⟩) ∨
    (r ≠ .error ∧ outs = [] ∧ o = ⟨len, [restCall data len leftLen leftLen]⟩) ∨
    (r ≠ .error ∧ ∃ k < leftLen, (k = 0 ∨ r = .accepted k) ∧
      ∃ o', sendExLoop data len (leftLen - k : Nat) outs = some o' ∧
        o = ⟨o'.ret, restCall data len leftLen k :: o'.calls⟩) := by
  have htoNat : ((len : Int) - leftLen).toNat = len - leftLen := by omega
  cases r with
  | error =>
    simp only [sendExLoop] at h
    split at h
    · rename_i houts
      exact .inl ⟨rfl, houts, (Option.some.inj h).symm⟩
    · cases h
  | eagain =>
    rw [sendExLoop, if_pos (by omega)] at h
    obtain ⟨o', ho', rfl⟩ := Option.map_eq_some_iff.mp h
    exact .inr (.inr ⟨by simp, 0, hpos, .inl rfl, o', ho', rfl⟩)
  | accepted k =>
    simp only [sendExLoop, htoNat, Int.toNat_natCast] at h
    split at h
    · -- some bytes are left: the loop goes on with the rest
      rename_i hmore
      have hk : min k leftLen = k := by omega
      rw [hk] at h
      obtain ⟨o', ho', rfl⟩ := Option.map_eq_some_iff.mp h
      rw [show (leftLen : Int) - k = ((leftLen - k : Nat) : Int) by omega] at ho'
      exact .inr (.inr ⟨by simp, k, by omega, .inr rfl, o', ho', rfl⟩)
    · -- the rest of the block went out in this call
      rename_i hdone
      have hk : min k leftLen = leftLen := by omega
      rw [hk] at h
      split at h
      · rename_i houts
        obtain rfl := Option.some.inj h
        exact .inr (.inl ⟨by simp, houts, by simp [restCall]⟩)
      · cases h

private theorem restCall_bytes {data : List UInt8} {len leftLen k : Nat} (hk : k ≤ leftLen)
    (hle : leftLen ≤ len) :
    (restCall data len leftLen k).bytes = ((data.take len).drop (len - leftLen)).take k := by
  simp only [restCall, List.drop_take, List.take_take]
  congr 1
  omega

private theorem restCall_length {data : List UInt8} {len leftLen k : Nat} (hk : k ≤ leftLen)
    (hle : leftLen ≤ len) (hlen : len ≤ data.length) :
    (restCall data len leftLen k).bytes.length = k := by
  simp only [restCall, List.length_take, List.length_drop]
  omega

/-- The rest of the block is what a call takes of it and the rest after the call. -/
private theorem rest_eq {data : List UInt8} {len leftLen k : Nat} (hk : k ≤ leftLen)
    (hle : leftLen ≤ len) :
    (data.take len).drop (len - leftLen) =
      (restCall data len leftLen k).bytes ++ (data.take len).drop (len - (leftLen - k)) := by
  rw [restCall_bytes hk hle, show len - (leftLen - k) = len - leftLen + k by omega,
    ← List.drop_drop, List.take_append_drop]

/-- The whole loop, from any point of it. With no error it returns `len` and
the socket has taken all that was left; with an error it returns -1 and the
socket has taken a proper part of it, nothing at all if the error is not late. -/
theorem sendExLoop_spec {data : List UInt8} {len : Nat} (hlen : len ≤ data.length) :
    ∀ {outs : List SendResult} {leftLen : Nat} {o : SendOut},
      0 < leftLen → leftLen ≤ len → sendExLoop data len leftLen outs = some o →
      (NoError outs ∧ o.ret = len ∧ o.bytes = (data.take len).drop (len - leftLen)) ∨
      (¬ NoError outs ∧ o.ret = -1 ∧
        ∃ n, n < leftLen ∧ o.bytes = ((data.take len).drop (len - leftLen)).take n ∧
          ((∀ k, 0 < k → .accepted k ∉ outs) → n = 0)) := by
  intro outs
  induction outs with
  | nil => intro leftLen o _ _ h; simp [sendExLoop] at h
  | cons r outs ih =>
    intro leftLen o hpos hle h
    rcases sendExLoop_cons hpos hle h with ⟨rfl, rfl, rfl⟩ | ⟨hr, rfl, rfl⟩ |
      ⟨hr, k, hk, hkr, o', ho', rfl⟩
    · -- the error
      exact .inr ⟨by simp [NoError], rfl, 0, hpos, by simp [SendOut.bytes, restCall], fun _ => rfl⟩
    · -- the rest of the block is out
      refine .inl ⟨by simpa [NoError] using hr.symm, rfl, ?_⟩
      rw [rest_eq (Nat.le_refl leftLen) hle]
      simp [SendOut.bytes]
    · have hno : NoError (r :: outs) ↔ NoError outs := by simp [NoError, hr.symm]
      have hb : (SendOut.mk o'.ret (restCall data len leftLen k :: o'.calls)).bytes =
          (restCall data len leftLen k).bytes ++ o'.bytes := by simp [SendOut.bytes]
      have hk' := Nat.le_of_lt hk
      rw [hno, hb, rest_eq hk' hle]
      rcases ih (by omega) (by omega) ho' with ⟨hout, hret, hby⟩ | ⟨hout, hret, n, hn, hby, h0⟩
      · exact .inl ⟨hout, hret, by rw [hby]⟩
      · refine .inr ⟨hout, hret, k + n, by omega, ?_, ?_⟩
        · have hklen := restCall_length hk' hle hlen
          rw [hby, ← List.take_length_add_append, hklen]
        · intro hacc
          have hk0 : k = 0 := by
            rcases hkr with hk0 | rfl
            · exact hk0
            · exact Nat.eq_zero_of_not_pos fun hk0 => hacc k hk0 (by simp)
          have hn0 := h0 fun k' hk' hm => hacc k' hk' (by simp [hm])
          omega

/-- Such a call is offered all that is left, from where the rest of the block starts. -/
private theorem restCall_offered (data : List UInt8) {len leftLen k : Nat} (hpos : 0 < leftLen)
    (hk : k ≤ leftLen) (hle : leftLen ≤ len) :
    (restCall data len leftLen k).off.toNat = len - leftLen ∧
    (restCall data len leftLen k).bytes <+: (data.take len).drop (len - leftLen) ∧
    0 ≤ (restCall data len leftLen k).off ∧ 1 ≤ (restCall data len leftLen k).cnt ∧
    (restCall data len leftLen k).off + (restCall data len leftLen k).cnt = len := by
  refine ⟨?_, restCall_bytes hk hle ▸ List.take_prefix _ _, ?_⟩ <;> simp only [restCall] <;> omega

/-- The calls of the loop tile the block from the point where it starts: each is
offered all that is left, which is never nothing. -/
private theorem sendExLoop_tiles {data : List UInt8} {len : Nat} (hlen : len ≤ data.length)
    {outs : List SendResult} {leftLen : Nat} {o : SendOut} (hpos : 0 < leftLen)
    (hle : leftLen ≤ len) (h : sendExLoop data len leftLen outs = some o) :
    ∃ hi, Tiles (fun c => c.off.toNat) SendCall.bytes (data.take len) (len - leftLen) o.calls hi ∧
      ∀ c ∈ o.calls, 0 ≤ c.off ∧ 1 ≤ c.cnt ∧ c.off + c.cnt = len := by
  induction outs generalizing leftLen o with
  | nil => simp [sendExLoop] at h
  | cons r outs ih =>
    rcases sendExLoop_cons hpos hle h with ⟨-, -, rfl⟩ | ⟨-, -, rfl⟩ | ⟨-, k, hk, -, o', ho', rfl⟩
    · obtain ⟨hoff, hpre, hcnt⟩ := restCall_offered data hpos (Nat.zero_le _) hle
      exact ⟨_, ⟨hoff, hpre, rfl⟩, by simpa using hcnt⟩
    · obtain ⟨hoff, hpre, hcnt⟩ := restCall_offered data hpos (Nat.le_refl _) hle
      exact ⟨_, ⟨hoff, hpre, rfl⟩, by simpa using hcnt⟩
    · have hk' := Nat.le_of_lt hk
      obtain ⟨hoff, hpre, hcnt⟩ := restCall_offered data hpos hk' hle
      obtain ⟨hi, htiles, hrest⟩ := ih (by omega) (by omega) ho'
      refine ⟨hi, ⟨hoff, hpre, ?_⟩, ?_⟩
      · rw [restCall_length hk' hle hlen, show len - leftLen + k = len - (leftLen - k) by omega]
        exact htiles
      · simpa using ⟨hcnt, hrest⟩

/-- All or an error: the call returns `len` and the socket has taken the whole
block, or it returns a negative value and the socket has taken a proper part of
it from the start. Every `send` is offered what the socket has not taken by then. -/
structure AllOrError (data : List UInt8) (len : Nat) (o : SendOut) : Prop where
  result : (o.ret = len ∧ o.bytes = data.take len) ∨ (o.ret < 0 ∧ ∃ n < len, o.bytes = data.take n)
  offered : ∀ as (c : SendCall) bs, o.calls = as ++ c :: bs →
    ∃ leftLen : Nat, 1 ≤ leftLen ∧ leftLen ≤ len ∧ c.off = len - leftLen ∧ c.cnt = leftLen ∧
      (as.flatMap SendCall.bytes).length = len - leftLen ∧
      c.bytes <+: (data.take len).drop (len - leftLen)

theorem sendEx_allOrError {data : List UInt8} {len : Nat} {outs : List SendResult} {o : SendOut}
    (hpos : 1 ≤ len) (hlen : len ≤ data.length) (h : sendEx data len outs = some o) :
    AllOrError data len o where
  result := by
    rcases sendExLoop_spec hlen hpos (Nat.le_refl _) h with ⟨-, hret, hby⟩ | ⟨-, hret, n, hn, hby, -⟩
    · exact .inl ⟨hret, by simpa using hby⟩
    · refine .inr ⟨by omega, n, hn, ?_⟩
      rw [hby, Nat.sub_self, List.drop_zero, List.take_take, Nat.min_eq_left (Nat.le_of_lt hn)]
  offered := by
    intro as c bs hcalls
    obtain ⟨hi, htiles, hall⟩ := sendExLoop_tiles hlen hpos (Nat.le_refl _) h
    obtain ⟨hoff, hcnt, hsum⟩ := hall c (by simp [hcalls])
    rw [Nat.sub_self, hcalls] at htiles
    have htaken := htiles.pos_eq
    obtain ⟨mid, -, (hmid : c.off.toNat = mid), hpre, -⟩ := tiles_append.mp htiles
    refine ⟨c.cnt.toNat, by omega, by omega, by omega, by omega, ?_, ?_⟩
    · rw [List.length_flatMap, ← htaken]
      omega
    · rwa [show len - c.cnt.toNat = mid by omega]

/-- A short send, a full socket, and the rest. -/
theorem sendEx_allOrError_short :
    AllOrError [1, 2, 3] 3 ⟨3, [⟨0, 3, [1]⟩, ⟨1, 2, []⟩, ⟨1, 2, [2, 3]⟩]⟩ :=
  sendEx_allOrError (by decide) (by decide)
    (show sendEx [1, 2, 3] 3 [.accepted 1, .eagain, .accepted 2] = some _ from rfl)

/-- A socket that takes the whole block at once. -/
theorem sendEx_accepted (data : List UInt8) (len : Nat) :
    ∃ o, sendEx data len [.accepted len] = some o ∧ o.ret = len := by
  simp [sendEx, sendExLoop]

end FilesEvent
