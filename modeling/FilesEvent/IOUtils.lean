import FilesEvent.SendEx

/-! `tcpSendData` of `IOUtils`: a block goes out in chunks of `MAX_MTU` bytes, one
`send` for each. The position of the next chunk does not depend on what `send`
returned, while the results of all the sends are added up. -/

namespace FilesEvent.IOUtils
open Tiling

def MAX_MTU : Nat := 1400

/-- How many of the `cnt` bytes it is offered a `send` takes. -/
def taken (cnt : Nat) : SendResult → Nat
  | .accepted k => min k cnt
  | .eagain | .error => 0

def failed : SendResult → Bool
  | .accepted _ => false
  | .eagain | .error => true

/-- What `send` returns. -/
def sendRet (cnt : Nat) : SendResult → Int
  | .accepted k => (min k cnt : Nat)
  | .eagain | .error => -1

/-- `send(fd, data + off, cnt, 0)`. -/
def sendCall (data : List UInt8) (off cnt : Int) (r : SendResult) : SendCall :=
  ⟨off, cnt, (data.drop off.toNat).take (taken cnt.toNat r)⟩

/-- The `while` loop. A list of results describes one complete call, as in `sendEx`. -/
def tcpSendLoop (data : List UInt8) (len : Int) : Int → Int → List SendResult → Option SendOut
  | sendLen, iRet, [] => if 0 < sendLen then none else some ⟨iRet, []⟩
  | sendLen, iRet, r :: outs =>
      if 0 < sendLen then
        let cnt := if sendLen ≤ MAX_MTU then sendLen else MAX_MTU
        (tcpSendLoop data len (sendLen - MAX_MTU) (iRet + sendRet cnt.toNat r) outs).map fun o =>
          ⟨o.ret, sendCall data (len - sendLen) cnt r :: o.calls⟩
      else none

def tcpSendData (data : List UInt8) (len : Int) (outs : List SendResult) : Option SendOut :=
  if len ≤ MAX_MTU then
    match outs with
    | [r] => some ⟨0 + sendRet len.toNat r, [sendCall data 0 len r]⟩
    | _ => none
  else tcpSendLoop data len len 0 outs

/-- Each result with the number of bytes that its `send` is offered, when `left`
bytes are left for the first one. -/
def offers : Nat → List SendResult → List (Nat × SendResult)
  | _, [] => []
  | left, r :: outs => (min left MAX_MTU, r) :: offers (left - MAX_MTU) outs

theorem taken_le (cnt : Nat) (r : SendResult) : taken cnt r ≤ cnt := by
  cases r with
  | accepted k => exact Nat.min_le_right k cnt
  | eagain => exact Nat.zero_le cnt
  | error => exact Nat.zero_le cnt

theorem sendRet_eq (cnt : Nat) (r : SendResult) :
    sendRet cnt r = taken cnt r - (if failed r then 1 else 0 : Nat) := by
  cases r <;> simp [sendRet, taken, failed]

/-- What is known of the calls made with the results `ps` from the position `lo`
of the block: each has the slot of its own chunk, and takes what its result says. -/
structure Sent (data : List UInt8) (len lo : Nat) (ps : List (Nat × SendResult))
    (calls : List SendCall) : Prop where
  slots : Slots (fun c => c.off.toNat) (fun c => c.cnt.toNat) SendCall.bytes (data.take len) lo calls
  counts : calls.map (fun c => (c.cnt.toNat, c.bytes.length)) = ps.map fun p => (p.1, taken p.1 p.2)

theorem Sent.nil (data : List UInt8) (len lo : Nat) : Sent data len lo [] [] := ⟨trivial, rfl⟩

theorem Sent.cons {data : List UInt8} {len lo cnt : Nat} {r : SendResult}
    {ps : List (Nat × SendResult)} {calls : List SendCall} (hlen : len ≤ data.length)
    (hcnt : lo + cnt ≤ len) (h : Sent data len (lo + cnt) ps calls) :
    Sent data len lo ((cnt, r) :: ps) (sendCall data lo cnt r :: calls) := by
  have htaken := taken_le cnt r
  have hlength : (sendCall data lo cnt r).bytes.length = taken cnt r := by
    simp only [sendCall, Int.toNat_natCast, List.length_take, List.length_drop]
    omega
  refine ⟨⟨by simp [sendCall], ?_, ?_, h.slots⟩, ?_⟩
  · simp only [sendCall, Int.toNat_natCast, List.drop_take]
    exact List.take_prefix_take_left (by omega)
  · rw [hlength]
    exact htaken
  · rw [List.map_cons, hlength, h.counts]
    rfl

/-- The loop, from any point of it on which `left` bytes are left. What the sends return
adds up to the bytes taken less one for each failure. -/
theorem tcpSendLoop_spec {data : List UInt8} {len : Nat} (hlen : len ≤ data.length)
    {outs : List SendResult} {left iRet : Int} {o : SendOut} (hleft : left ≤ len)
    (h : tcpSendLoop data len left iRet outs = some o) :
    Sent data len (len - left.toNat) (offers left.toNat outs) o.calls ∧
      o.ret = iRet + ((offers left.toNat outs).map fun p => taken p.1 p.2).sum -
        ((offers left.toNat outs).countP fun p => failed p.2 : Nat) := by
  induction outs generalizing left iRet o with
  | nil =>
    simp only [tcpSendLoop] at h
    split at h
    · cases h
    · cases h
      exact ⟨Sent.nil _ _ _, by simp [offers]⟩
  | cons r outs ih =>
    simp only [tcpSendLoop] at h
    split at h
    · rename_i hpos
      have hcnt : (if left ≤ MAX_MTU then left else MAX_MTU) =
          ((min left.toNat MAX_MTU : Nat) : Int) := by
        split <;> omega
      have hoff : (len : Int) - left = ((len - left.toNat : Nat) : Int) := by omega
      rw [hcnt, hoff, Int.toNat_natCast] at h
      obtain ⟨o', ho', rfl⟩ := Option.map_eq_some_iff.mp h
      obtain ⟨hsent, hret⟩ := ih (by omega) ho'
      rw [show (left - MAX_MTU).toNat = left.toNat - MAX_MTU by omega] at hsent hret
      refine ⟨Sent.cons hlen (by omega) ?_, ?_⟩
      · rwa [show len - left.toNat + min left.toNat MAX_MTU = len - (left.toNat - MAX_MTU) by omega]
      · simp only [hret, offers, List.map_cons, List.sum_cons, List.countP_cons, sendRet_eq]
        omega
    · cases h

/-- A whole call, in either branch. -/
theorem tcpSendData_spec {data : List UInt8} {len : Nat} (hlen : len ≤ data.length)
    {outs : List SendResult} {o : SendOut} (h : tcpSendData data len outs = some o) :
    Sent data len 0 (offers len outs) o.calls ∧
      o.ret = ((offers len outs).map fun p => taken p.1 p.2).sum -
        ((offers len outs).countP fun p => failed p.2 : Nat) := by
  simp only [tcpSendData] at h
  split at h
  · rename_i hshort
    split at h
    · rename_i r
      cases h
      have hmin : min len MAX_MTU = len := by omega
      have hsent := Sent.cons (r := r) hlen (by omega) (Sent.nil data len (0 + len))
      simp only [offers, hmin]
      exact ⟨hsent, by simp [sendRet_eq]⟩
    · cases h
  · obtain ⟨hsent, hret⟩ := tcpSendLoop_spec hlen (Int.le_refl _) h
    rw [Int.toNat_natCast, Nat.sub_self] at hsent
    rw [Int.toNat_natCast] at hret
    exact ⟨hsent, by rw [hret, Int.zero_add]⟩

/-- What the socket takes in a call is the start of the block, with no gap, and a
result that is not negative says how much it is. -/
def SendsWhatItReports (data : List UInt8) (len : Nat) (o : SendOut) : Prop :=
  ∃ n ≤ len, Tiles (fun c => c.off.toNat) SendCall.bytes (data.take len) 0
      (filled SendCall.bytes o.calls) n ∧
    o.bytes = data.take n ∧ (0 ≤ o.ret → o.ret = n)

/-- No send takes a byte after one that did not take all that it was offered. -/
def NoneAfterShort (ps : List (Nat × SendResult)) : Prop :=
  ps.Pairwise fun p q => taken p.1 p.2 = p.1 ∨ taken q.1 q.2 = 0

/-- No send fails, or more sends fail than bytes are taken. -/
def FailuresShow (ps : List (Nat × SendResult)) : Prop :=
  (ps.countP fun p => failed p.2) = 0 ∨
    (ps.map fun p => taken p.1 p.2).sum < ps.countP fun p => failed p.2

instance (ps : List (Nat × SendResult)) : Decidable (NoneAfterShort ps) :=
  inferInstanceAs (Decidable (List.Pairwise _ _))

instance (ps : List (Nat × SendResult)) : Decidable (FailuresShow ps) :=
  inferInstanceAs (Decidable (_ ∨ _))

theorem Sent.tiles_iff {data : List UInt8} {len : Nat} {ps : List (Nat × SendResult)}
    {calls : List SendCall} (h : Sent data len 0 ps calls) :
    (∃ n, Tiles (fun c => c.off.toNat) SendCall.bytes (data.take len) 0
      (filled SendCall.bytes calls) n) ↔ NoneAfterShort ps := by
  have hcalls := List.pairwise_map (f := fun c : SendCall => (c.cnt.toNat, c.bytes.length))
    (R := fun a b : Nat × Nat => a.2 = a.1 ∨ b.2 = 0) (l := calls)
  have hps := List.pairwise_map (f := fun p : Nat × SendResult => (p.1, taken p.1 p.2))
    (R := fun a b : Nat × Nat => a.2 = a.1 ∨ b.2 = 0) (l := ps)
  rw [h.slots.tiles_filled_iff, NoneAfterShort, ← hps, ← h.counts, hcalls]
  simp only [List.length_eq_zero_iff]

theorem Sent.bytes_length {data : List UInt8} {len lo : Nat} {ps : List (Nat × SendResult)}
    {calls : List SendCall} (h : Sent data len lo ps calls) :
    (calls.flatMap SendCall.bytes).length = (ps.map fun p => taken p.1 p.2).sum := by
  have := congrArg (List.map Prod.snd) h.counts
  simp only [List.map_map] at this
  rw [List.length_flatMap]
  exact congrArg List.sum this

/-- The sends of a call do what the call reports exactly if nothing is taken after
a short send and its failures do not hide behind the bytes that were taken. -/
theorem tcpSendData_sends_iff {data : List UInt8} {len : Nat} {outs : List SendResult} {o : SendOut}
    (hlen : len ≤ data.length) (h : tcpSendData data len outs = some o) :
    SendsWhatItReports data len o ↔
      NoneAfterShort (offers len outs) ∧ FailuresShow (offers len outs) := by
  obtain ⟨hsent, hret⟩ := tcpSendData_spec hlen h
  have hlength := hsent.bytes_length
  rw [← hsent.tiles_iff, FailuresShow]
  constructor
  · rintro ⟨n, hn, htiles, hbytes, hrep⟩
    refine ⟨⟨n, htiles⟩, ?_⟩
    have hsum : n = ((offers len outs).map fun p => taken p.1 p.2).sum := by
      rw [← hlength, ← SendOut.bytes, hbytes, List.length_take]
      omega
    omega
  · rintro ⟨⟨n, htiles⟩, hfail⟩
    obtain ⟨hn, hbytes⟩ := htiles.flatMap_eq_take
    rw [filled_flatMap] at hbytes
    rw [List.length_take] at hn
    refine ⟨n, by omega, htiles, ?_, ?_⟩
    · rw [SendOut.bytes, hbytes, List.take_take, Nat.min_eq_left (by omega)]
    · rw [hbytes, List.length_take, List.length_take] at hlength
      omega

/-- Two chunks that the socket takes in full. -/
theorem tcpSendData_sends_full :
    ∃ o, tcpSendData (List.replicate 2800 0) (2800 : Nat) [.accepted 1400, .accepted 1400] = some o ∧
      SendsWhatItReports (List.replicate 2800 0) 2800 o := by
  have hlen : 2800 ≤ (List.replicate 2800 (0 : UInt8)).length := Nat.le_of_eq List.length_replicate.symm
  obtain ⟨o, ho⟩ : ∃ o, tcpSendData (List.replicate 2800 0) (2800 : Nat)
    [.accepted 1400, .accepted 1400] = some o := ⟨_, rfl⟩
  exact ⟨o, ho, (tcpSendData_sends_iff hlen ho).mpr (by decide)⟩

/-- The first send takes 1000 of its 1400 bytes and the second one its whole chunk:
the bytes from 1000 to 1399 are left out, and 2400 is returned. -/
theorem tcpSendData_gap :
    ∃ o, tcpSendData (List.replicate 2800 0) (2800 : Nat) [.accepted 1000, .accepted 1400] = some o ∧
      o.ret = 2400 ∧ ¬ SendsWhatItReports (List.replicate 2800 0) 2800 o := by
  have hlen : 2800 ≤ (List.replicate 2800 (0 : UInt8)).length := Nat.le_of_eq List.length_replicate.symm
  obtain ⟨o, ho⟩ : ∃ o, tcpSendData (List.replicate 2800 0) (2800 : Nat)
    [.accepted 1000, .accepted 1400] = some o := ⟨_, rfl⟩
  obtain ⟨hsent, hret⟩ := tcpSendData_spec hlen ho
  refine ⟨o, ho, hret, ?_⟩
  rintro ⟨n, -, htiles, -⟩
  exact absurd (hsent.tiles_iff.mp ⟨n, htiles⟩) (by decide)

end FilesEvent.IOUtils
