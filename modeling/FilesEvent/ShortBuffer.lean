import FilesEvent.TaskFileRecv

/-! The client with a shorter receive buffer. It sends the same bytes, handles as
many frames and finds the same end of the file; only what it stores is cut off. -/

namespace FilesEvent
open Bytes Framing

theorem loginRetTmEnd_take (b : List UInt8) {n : Nat} (h : 32 ≤ n) :
    loginRetTmEnd (b.take n) = loginRetTmEnd b := by
  rw [loginRetTmEnd, loginRetTmEnd, List.drop_take, rd32_take _ (by omega)]

/-- The same bytes sent, as many frames handled, and a DATAEND or none. -/
structure SameFlow (acts acts' : List Act) : Prop where
  sent : Act.sentBytes acts = Act.sentBytes acts'
  handled : (Act.handled acts).length = (Act.handled acts').length
  ends : .dataEnd ∈ acts ↔ .dataEnd ∈ acts'

theorem SameFlow.refl (acts : List Act) : SameFlow acts acts := ⟨rfl, rfl, Iff.rfl⟩

theorem SameFlow.append {as bs as' bs' : List Act} (h : SameFlow as as') (h' : SameFlow bs bs') :
    SameFlow (as ++ bs) (as' ++ bs') where
  sent := by rw [Act.sentBytes_append, Act.sentBytes_append, h.sent, h'.sent]
  handled := by
    rw [Act.handled_append, Act.handled_append, List.length_append, List.length_append, h.handled,
      h'.handled]
  ends := by rw [List.mem_append, List.mem_append, h.ends, h'.ends]

theorem SameFlow.recv {a b : Ask} : SameFlow [.recv a] [.recv b] := ⟨rfl, rfl, by simp⟩

theorem SameFlow.frame {a b : Ask} {w : Handler} {f g rest : List UInt8} :
    SameFlow [.recv a, .frame w f rest] [.recv b, .frame w g rest] :=
  ⟨rfl, rfl, by simp⟩

namespace TaskFileRecv

/-- The client with only the first `k` bytes of its receive buffer. -/
def cut (k : Nat) (c : TaskFileRecv) : TaskFileRecv :=
  { c with mRecvBuffer := { c.mRecvBuffer with
      data := c.mRecvBuffer.data.map (·.take k), memLen := k } }

variable {k : Nat} {c d : TaskFileRecv} {inbox : List UInt8} {r r₁ r₂ : RecvResult}
  {outs₁ outs₂ : List SendResult} {acts : List Act} {p : RecvStep}

theorem mem_cut : (c.cut k).mRecvBuffer.mem = c.mRecvBuffer.mem.take k := by
  simp only [cut, FileProcBuffer.mem]
  cases c.mRecvBuffer.data <;> simp

theorem rx_cut : (c.cut k).mRecvBuffer.rx = c.mRecvBuffer.rx.cut k := by
  rw [FileProcBuffer.rx, mem_cut]
  rfl

theorem handle_cut (hk : 32 ≤ k) (h : (c.cut k).handle outs₁ outs₂ = some (d, acts)) :
    ∃ c' acts', c.handle outs₁ outs₂ = some (c', acts') ∧ d = c'.cut k ∧ SameFlow acts acts' := by
  unfold handle at h ⊢
  simp only [mem_cut, dwCmd_take _ (show 8 ≤ k by omega), loginRetTmEnd_take _ hk,
    fileGetLength_take _ (show 24 ≤ k by omega)] at h ⊢
  split at h
  · rename_i hret
    rw [if_pos hret]
    simp only [Option.bind_eq_bind, Option.bind_eq_some_iff, Option.some.injEq,
      Prod.mk.injEq] at h
    obtain ⟨o, ho, rfl, rfl⟩ := h
    have ho' : sendCmd moduleMsgControlPlay 0
      (startControl (asInt (loginRetTmEnd c.mRecvBuffer.mem))) outs₁ outs₂ = some o := ho
    simp only [ho', Option.bind_eq_bind, Option.bind_some]
    exact ⟨{ c with mTotalLen := asInt (loginRetTmEnd c.mRecvBuffer.mem) }, _, rfl,
      by simp only [cut], .refl _⟩
  · rename_i hret
    rw [if_neg hret]
    split at h
    · rename_i houts
      rw [if_pos houts]
      split at h
      · rename_i hfiles
        rw [if_pos hfiles]
        simp only [Option.some.injEq, Prod.mk.injEq] at h
        obtain ⟨rfl, rfl⟩ := h
        refine ⟨{ c with mRecvDataLen := wrapInt (c.mRecvDataLen +
          asInt (fileGetLength c.mRecvBuffer.mem)) }, _, rfl, by simp only [cut], ?_⟩
        constructor <;> split <;> split <;> simp [Act.sentBytes, Act.handled]
      · rename_i hfiles
        rw [if_neg hfiles]
        simp only [Option.some.injEq, Prod.mk.injEq] at h
        obtain ⟨rfl, rfl⟩ := h
        exact ⟨c, _, rfl, rfl, .refl _⟩
    · cases h

/-- A callback does the same with a shorter buffer, but for what it stores. -/
structure CutStep (k : Nat) (p q : RecvStep) : Prop where
  ret : p.ret = q.ret
  task : p.task = q.task.cut k
  inbox : p.inbox = q.inbox
  flow : SameFlow p.acts q.acts

theorem recvPackData_cut (hk : 32 ≤ k) (h : (c.cut k).recvPackData inbox r outs₁ outs₂ = some p) :
    ∃ q, c.recvPackData inbox r outs₁ outs₂ = some q ∧ CutStep k p q := by
  obtain ⟨hret, hrx, hin, hdone⟩ := readPack_cut (F := netFormat) (k := k) c.mRecvBuffer.rx inbox r
  unfold recvPackData at h ⊢
  simp only [rx_cut, hret, hrx, hin, hdone] at h ⊢
  split at h
  · rename_i hd
    rw [if_pos hd]
    simp only [Option.bind_eq_bind, Option.bind_eq_some_iff, Option.some.injEq] at h
    obtain ⟨⟨d, acts⟩, hh, rfl⟩ := h
    obtain ⟨c', acts', hc', rfl, hflow⟩ := handle_cut
      (c := { c with mRecvBuffer :=
        c.mRecvBuffer.setRx (readPack netFormat c.mRecvBuffer.rx inbox r).rx }) hk hh
    simp only [hc', Option.bind_eq_bind, Option.bind_some]
    exact ⟨_, rfl, rfl, rfl, rfl, SameFlow.frame.append hflow⟩
  · rename_i hd
    rw [if_neg hd]
    split at h
    · rename_i houts
      rw [if_pos houts]
      obtain rfl := Option.some.inj h
      exact ⟨_, rfl, rfl, rfl, rfl, SameFlow.recv.append (.refl _)⟩
    · cases h

theorem readBuffer_cut (hk : 32 ≤ k) (h : (c.cut k).readBuffer inbox r₁ r₂ outs₁ outs₂ = some p) :
    ∃ q, c.readBuffer inbox r₁ r₂ outs₁ outs₂ = some q ∧ CutStep k p q := by
  have h16 : netFormat.h ≤ k := by rw [netFormat_h]; omega
  obtain ⟨hret, hrx, hin, hdone⟩ := readHead_cut c.mRecvBuffer.rx inbox h16 r₁
  have hlen : dwLength ((readHead netFormat c.mRecvBuffer.rx inbox r₁).rx.cut k).buf =
      dwLength (readHead netFormat c.mRecvBuffer.rx inbox r₁).rx.buf := by
    rw [Rx.cut, dwLength, dwLength, List.drop_take, rd32_take _ (by omega)]
  have hcmd : dwCmd ((readHead netFormat c.mRecvBuffer.rx inbox r₁).rx.cut k).buf =
      dwCmd (readHead netFormat c.mRecvBuffer.rx inbox r₁).rx.buf := dwCmd_take _ (by omega)
  unfold readBuffer at h ⊢
  split at h
  · rename_i hhead
    have hhead' : c.mRecvBuffer.bProcCmmd = true := hhead
    rw [if_pos hhead']
    simp only [rx_cut, hret, hrx, hin, hdone, hlen, hcmd] at h ⊢
    split at h
    · rename_i hd
      rw [if_pos hd]
      simp only [Option.bind_eq_bind, Option.bind_eq_some_iff, Option.some.injEq] at h
      obtain ⟨p', hp', rfl⟩ := h
      obtain ⟨q, hq, hcut⟩ := recvPackData_cut
        (c := { c with mRecvBuffer :=
          c.mRecvBuffer.setRx (readHead netFormat c.mRecvBuffer.rx inbox r₁).rx }) hk hp'
      simp only [hq, Option.bind_eq_bind, Option.bind_some]
      exact ⟨_, rfl, hcut.ret, hcut.task, hcut.inbox, SameFlow.recv.append hcut.flow⟩
    · rename_i hd
      rw [if_neg hd]
      split at h
      · rename_i houts
        rw [if_pos houts]
        obtain rfl := Option.some.inj h
        exact ⟨_, rfl, rfl, rfl, rfl, SameFlow.recv.append (.refl _)⟩
      · cases h
  · rename_i hhead
    have hhead' : ¬ c.mRecvBuffer.bProcCmmd = true := hhead
    rw [if_neg hhead']
    exact recvPackData_cut hk h

end TaskFileRecv

end FilesEvent
