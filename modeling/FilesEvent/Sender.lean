import FilesEvent.TaskFileSend
import FilesEvent.Lib.Runs

/-! The sender as a machine of its own: a task that has taken a file with
`setFetchFile`, then any sequence of `writeBuffer` and `readBuffer` calls. One
lemma says what `tcpSendData` can do; the representation invariant of the send
buffer follows for every run. -/

namespace FilesEvent
open Bytes Framing Runs

/-! ## What one send does -/

namespace FileProcBuffer

/-- The bytes of the current phase: header in `cmmd`, or data in the heap block. -/
def phaseBytes (b : FileProcBuffer) : List UInt8 :=
  (if b.bProcCmmd then b.cmmd else b.mem).take b.totalLen.toNat

/-- The buffer when the current phase is out. -/
def advance (b : FileProcBuffer) : FileProcBuffer :=
  if b.bProcCmmd then b.setToVideo else b.reset

/-- A phase is in progress, none of it sent, and its bytes are there. `sendEx`
is all or error, so this is the only way for a phase to be pending. -/
structure Pending (b : FileProcBuffer) : Prop where
  has : b.hasProcLen = 0
  pos : 0 < b.totalLen
  len : b.phaseBytes.length = b.totalLen.toNat

end FileProcBuffer

namespace TaskFileSend
open FileProcBuffer

theorem sentBytes_sentActs (cmmd : List UInt8) (o : SendOut) :
    Act.sentBytes (sentActs cmmd o) = o.bytes := by
  simp only [Act.sentBytes, sentActs, SendOut.bytes, List.flatMap_map]

theorem putAndSend_eq (t : TaskFileSend) (cmd : List UInt8) (outs : List SendResult) :
    t.putAndSend cmd outs = ((t.putCmd cmd).tcpSendData outs).map fun s =>
      ⟨s.ret, s.task, .built t.mSendBuffer.totalLen cmd :: s.acts⟩ := by
  rw [putAndSend]
  cases (t.putCmd cmd).tcpSendData outs <;> rfl

/-- A new task that has opened its file and knows its length. -/
def opened (opens : Bool) (stSize : Nat) : TaskFileSend :=
  { new with mpFile := if opens then some 0 else none, mFileLen := stSize % 4294967296 }

theorem setFetchFile_new (opens : Bool) (stSize : Nat) (outs : List SendResult) :
    new.setFetchFile opens stSize outs =
      ((opened opens stSize).putAndSend (loginRetFrame (stSize % 4294967296)) outs).map fun s =>
        ⟨0, s.task, s.acts⟩ := by
  show ((opened opens stSize).putAndSend (loginRetFrame (stSize % 4294967296)) outs).bind _ = _
  cases (opened opens stSize).putAndSend (loginRetFrame (stSize % 4294967296)) outs <;> rfl

theorem putAndSend_task {t : TaskFileSend} {cmd : List UInt8} {outs : List SendResult}
    {s : SendStep} (h : t.putAndSend cmd outs = some s) :
    s.task = { t with mSendBuffer := s.task.mSendBuffer } := by
  rw [putAndSend_eq] at h
  obtain ⟨s', hs', rfl⟩ := Option.map_eq_some_iff.mp h
  have htask := tcpSendData_task hs'
  exact htask

/-- Both branches of `tcpSendData` at once, when none of the phase has been sent. -/
theorem tcpSendData_eq {t : TaskFileSend} (h0 : t.mSendBuffer.hasProcLen = 0)
    (hpos : 0 < t.mSendBuffer.totalLen) (outs : List SendResult) :
    t.tcpSendData outs =
      (sendEx (if t.mSendBuffer.bProcCmmd then t.mSendBuffer.cmmd else t.mSendBuffer.mem)
          t.mSendBuffer.totalLen outs).map fun o =>
        let b := if 0 < o.ret then { t.mSendBuffer with hasProcLen := o.ret } else t.mSendBuffer
        let b := if b.hasProcLen = b.totalLen then b.advance else b
        ⟨o.ret, { t with mSendBuffer := b }, sentActs t.mSendBuffer.cmmd o⟩ := by
  obtain ⟨_, ⟨cmmd, bProcCmmd, hasProcLen, totalLen, dataLen, memLen, data⟩, _, _, _, _, _⟩ := t
  simp only at h0 hpos
  subst h0
  cases bProcCmmd
  all_goals
    simp only [tcpSendData, Bool.false_eq_true, ↓reduceIte, Int.toNat_zero, List.drop_zero,
      Int.sub_zero, Int.zero_add, Option.bind_eq_bind]
    cases ho : sendEx _ totalLen outs with
    | none => rfl
    | some o =>
      simp only [Option.bind_some, Option.map_some]
      congr 3
      split <;> simp [advance, setToVideo, reset]

/-- One `tcpSendData` call. Without an error the whole phase goes out; with one
the buffer stays as it is and the socket has taken a proper part of the phase. -/
theorem tcpSendData_cases {t : TaskFileSend} {outs : List SendResult} {s : SendStep}
    (hp : t.mSendBuffer.Pending) (h : t.tcpSendData outs = some s) :
    (∀ a ∈ s.acts, ∃ bs, a = .sent (dwCmd t.mSendBuffer.cmmd) bs) ∧
      ((NoError outs ∧ s.ret = t.mSendBuffer.totalLen ∧
          s.task = { t with mSendBuffer := t.mSendBuffer.advance } ∧
          Act.sentBytes s.acts = t.mSendBuffer.phaseBytes) ∨
        (¬ NoError outs ∧ s.ret = -1 ∧ s.task = t ∧
          ∃ n, n < t.mSendBuffer.phaseBytes.length ∧
            Act.sentBytes s.acts = t.mSendBuffer.phaseBytes.take n ∧
            (NoLateError outs → n = 0))) := by
  have hpos := hp.pos
  have hlen := hp.len
  rw [tcpSendData_eq hp.has hp.pos] at h
  obtain ⟨o, ho, rfl⟩ := Option.map_eq_some_iff.mp h
  constructor
  · intro a ha
    obtain ⟨c, -, rfl⟩ := List.mem_map.mp ha
    exact ⟨_, rfl⟩
  unfold phaseBytes at hlen ⊢
  generalize (if t.mSendBuffer.bProcCmmd then t.mSendBuffer.cmmd else t.mSendBuffer.mem) = data at *
  have hn : t.mSendBuffer.totalLen.toNat ≤ data.length := by
    rw [List.length_take] at hlen; omega
  have hcast : t.mSendBuffer.totalLen = (t.mSendBuffer.totalLen.toNat : Int) := by omega
  rw [sendEx, hcast] at ho
  simp only [sentBytes_sentActs]
  rcases sendExLoop_spec hn (by omega) (Nat.le_refl _) ho with
    ⟨hno, hret, hby⟩ | ⟨hno, hret, n, hn, hby, hlate⟩
  · refine .inl ⟨hno, by omega, ?_, by simpa using hby⟩
    have hret' : o.ret = t.mSendBuffer.totalLen := by omega
    simp only [hret', if_pos hpos, ↓reduceIte]
    unfold advance
    cases hb : t.mSendBuffer.bProcCmmd <;> simp [setToVideo, reset]
  · refine .inr ⟨hno, hret, ?_, n, by rw [hlen]; exact hn, by simpa using hby, ?_⟩
    · have hz : ¬ (0 : Int) < o.ret := by omega
      have ht : ¬ t.mSendBuffer.hasProcLen = t.mSendBuffer.totalLen := by rw [hp.has]; omega
      simp only [if_neg hz, if_neg ht]
    · rintro (h' | h')
      · exact absurd h' hno
      · exact hlate h'

end TaskFileSend

/-! ## Runs of the sender -/

/-- A task and what it has done so far. -/
structure Sender where
  task : TaskFileSend
  acts : List Act

inductive SenderEvent
  | write (fr : List UInt8) (outs : List SendResult)
  | read (ctl : List UInt8 → Control) (inbox : List UInt8) (r₁ r₂ : RecvResult)

namespace Sender

/-- A new task that has taken a file. -/
def start (opens : Bool) (stSize : Nat) (outs : List SendResult) : Option Sender :=
  (TaskFileSend.new.setFetchFile opens stSize outs).map fun s => ⟨s.task, s.acts⟩

def step (s : Sender) : SenderEvent → Option Sender
  | .write fr outs => (s.task.writeBuffer fr outs).map fun w => ⟨w.task, s.acts ++ w.acts⟩
  | .read ctl inbox r₁ r₂ =>
      let g := s.task.readBuffer ctl inbox r₁ r₂
      some ⟨g.task, s.acts ++ g.acts⟩

/-- The states that a new task reaches after `setFetchFile` on a file of size
`stSize`. -/
def Reachable (opens : Bool) (stSize : Nat) (s : Sender) : Prop :=
  ∃ outs s₀ es, start opens stSize outs = some s₀ ∧ run step s₀ es = some s

end Sender

/-! ## The invariant of the send buffer -/

/-- A store into the heap block stays inside it, and a header is only written
over `cmmd` when no frame is in flight. -/
def Act.Safe : Act → Prop
  | .memset cnt memLen | .fread cnt memLen => 0 ≤ cnt ∧ cnt ≤ memLen
  | .built inFlight _ => inFlight = 0
  | _ => True

/-- The invariant that every call preserves. -/
structure SendInv (t : TaskFileSend) : Prop where
  cmmd : t.mSendBuffer.cmmd.length = cmdLen
  has : t.mSendBuffer.hasProcLen = 0
  total : 0 ≤ t.mSendBuffer.totalLen
  header : t.mSendBuffer.bProcCmmd = true → t.mSendBuffer.totalLen ≤ cmdLen
  body : t.mSendBuffer.bProcCmmd = false → t.mSendBuffer.totalLen = t.mSendBuffer.dataLen
  dataLen : 0 ≤ t.mSendBuffer.dataLen
  data : 0 < t.mSendBuffer.dataLen →
    t.mSendBuffer.data.isSome ∧ t.mSendBuffer.dataLen ≤ t.mSendBuffer.memLen
  mem : ∀ d, t.mSendBuffer.data = some d →
    (d.length : Int) = t.mSendBuffer.memLen ∧ t.nextBlockLen ≤ d.length
  idle : t.mSendBuffer.totalLen = 0 → t.mSendBuffer.dataLen = 0
  read : t.mHasReadLen ≤ t.mFileLen
  file : t.mFileLen < 4294967296
  queue : t.mMsgQueue = []
  sending : t.mbSendingData = true
  files : t.mSendBuffer.bProcCmmd = true → 0 < t.mSendBuffer.totalLen →
    dwCmd t.mSendBuffer.cmmd = moduleMsgFiles →
    (dwLength t.mSendBuffer.cmmd : Int) = t.mSendBuffer.dataLen + sizeofFileGet ∧
      (fileGetLength t.mSendBuffer.cmmd : Int) = t.mSendBuffer.dataLen

namespace TaskFileSend

theorem nextBlockLen_le (t : TaskFileSend) : t.nextBlockLen ≤ fileMemoryLen := by
  unfold nextBlockLen
  simp only
  split <;> omega

theorem nextBlockLen_le_left (t : TaskFileSend) :
    t.nextBlockLen ≤ t.mFileLen - t.mHasReadLen := by
  unfold nextBlockLen
  simp only
  split <;> omega

end TaskFileSend

namespace SendInv
open TaskFileSend FileProcBuffer

variable {t : TaskFileSend}

theorem pending (h : SendInv t) (hpos : 0 < t.mSendBuffer.totalLen) : t.mSendBuffer.Pending where
  has := h.has
  pos := hpos
  len := by
    unfold phaseBytes
    rw [List.length_take]
    cases hb : t.mSendBuffer.bProcCmmd with
    | true =>
      have := h.header hb
      have := h.cmmd
      simp only [↓reduceIte]
      omega
    | false =>
      have htot := h.body hb
      obtain ⟨hsome, hle⟩ := h.data (by omega)
      obtain ⟨d, hd⟩ := Option.isSome_iff_exists.mp hsome
      have hlen := (h.mem d hd).1
      simp only [Bool.false_eq_true, ↓reduceIte, FileProcBuffer.mem, hd, Option.getD_some]
      omega

/-- A phase going out keeps the invariant. -/
theorem advance (h : SendInv t) : SendInv { t with mSendBuffer := t.mSendBuffer.advance } := by
  unfold FileProcBuffer.advance
  have hmem : ∀ b : FileProcBuffer, ({ t with mSendBuffer := b } : TaskFileSend).nextBlockLen =
      t.nextBlockLen := fun _ => rfl
  cases hb : t.mSendBuffer.bProcCmmd with
  | true =>
    exact ⟨h.cmmd, rfl, h.dataLen, by simp [setToVideo], fun _ => rfl, h.dataLen, h.data, h.mem,
      fun h0 => h0, h.read, h.file, h.queue, h.sending, by simp [setToVideo]⟩
  | false =>
    exact ⟨by simp [reset], rfl, Int.le_refl 0, by simp [reset], fun _ => rfl, Int.le_refl 0,
      by simp [reset], h.mem, fun _ => rfl, h.read, h.file, h.queue, h.sending, by simp [reset]⟩

theorem tcpSendData (h : SendInv t) (hpos : 0 < t.mSendBuffer.totalLen)
    {outs : List SendResult} {s : SendStep} (hs : t.tcpSendData outs = some s) :
    SendInv s.task ∧ ∀ a ∈ s.acts, a.Safe := by
  obtain ⟨hacts, hcases⟩ := tcpSendData_cases (h.pending hpos) hs
  constructor
  · rcases hcases with ⟨-, -, htask, -⟩ | ⟨-, -, htask, -⟩ <;> rw [htask]
    · exact h.advance
    · exact h
  · intro a ha
    obtain ⟨bs, rfl⟩ := hacts a ha
    trivial

/-- A command frame put into an idle buffer. -/
theorem putCmd (h : SendInv t) (h0 : t.mSendBuffer.totalLen = 0) {cmd : List UInt8}
    (hlen : cmd.length ≤ cmdLen)
    (hcmd : ∀ x, dwCmd (cmd ++ x) ≠ moduleMsgFiles) : SendInv (t.putCmd cmd) := by
  have hw : writeAt t.mSendBuffer.cmmd 0 cmd = cmd ++ t.mSendBuffer.cmmd.drop cmd.length :=
    writeAt_zero (by rw [h.cmmd]; exact hlen)
  have hd := h.idle h0
  refine ⟨by simp [TaskFileSend.putCmd, h.cmmd], h.has, ?_, ?_, ?_, h.dataLen, h.data, h.mem,
    fun _ => hd, h.read, h.file, h.queue, h.sending, ?_⟩
  · simp [TaskFileSend.putCmd]
  · simpa [TaskFileSend.putCmd] using hlen
  · simp [TaskFileSend.putCmd]
  · intro _ _ hf
    simp only [TaskFileSend.putCmd, hw] at hf
    exact absurd hf (hcmd _)

theorem putAndSend (h : SendInv t) (h0 : t.mSendBuffer.totalLen = 0) {cmd : List UInt8}
    (hpos : 0 < cmd.length) (hlen : cmd.length ≤ cmdLen)
    (hcmd : ∀ x, dwCmd (cmd ++ x) ≠ moduleMsgFiles) {outs : List SendResult} {s : SendStep}
    (hs : t.putAndSend cmd outs = some s) : SendInv s.task ∧ ∀ a ∈ s.acts, a.Safe := by
  rw [putAndSend_eq] at hs
  obtain ⟨s', hs', rfl⟩ := Option.map_eq_some_iff.mp hs
  obtain ⟨hinv, hsafe⟩ := (h.putCmd h0 hlen hcmd).tcpSendData
    (by simpa [TaskFileSend.putCmd] using hpos) hs'
  exact ⟨hinv, by simpa [Act.Safe, h0] using hsafe⟩

/-- `createMem` for the next block: the heap block is as long as the first
block was, which is long enough because what is left never grows. -/
theorem createMem (h : SendInv t) :
    ∃ d, (t.mSendBuffer.createMem (zeros t.nextBlockLen)).data = some d ∧
      (d.length : Int) = (t.mSendBuffer.createMem (zeros t.nextBlockLen)).memLen ∧
      t.nextBlockLen ≤ d.length := by
  unfold FileProcBuffer.createMem
  cases hdata : t.mSendBuffer.data with
  | none => exact ⟨_, rfl, rfl, by simp⟩
  | some d => exact ⟨d, hdata, h.mem d hdata⟩

/-- Reading the next block: `memset` and `fread` stay inside the heap block. -/
theorem nextBlock (h : SendInv t) (h0 : t.mSendBuffer.totalLen = 0)
    (hleft : t.mHasReadLen < t.mFileLen) (fr : List UInt8) :
    SendInv (t.nextBlock fr).1 ∧ 0 < (t.nextBlock fr).1.mSendBuffer.totalLen ∧
      ∀ a ∈ (t.nextBlock fr).2, a.Safe := by
  have hle := t.nextBlockLen_le
  have hleft' := t.nextBlockLen_le_left
  have hfile := h.file
  have hblock : fileMemoryLen = 1048576 := rfl
  have hgot : (fr.take t.nextBlockLen).length ≤ t.nextBlockLen := by
    rw [List.length_take]; omega
  obtain ⟨d, hd, hmem, hdlen⟩ := h.createMem
  have hread : (t.mHasReadLen + (fr.take t.nextBlockLen).length) % 4294967296 =
      t.mHasReadLen + (fr.take t.nextBlockLen).length := Nat.mod_eq_of_lt (by omega)
  have hw : ∀ p n : Nat, writeAt t.mSendBuffer.cmmd 0 (filesHead p n) =
      filesHead p n ++ t.mSendBuffer.cmmd.drop 24 := fun p n =>
    writeAt_zero (by rw [h.cmmd]; exact Nat.le_of_ble_eq_true rfl)
  simp only [TaskFileSend.nextBlock, hread, createMem_cmmd, length_filesHead, hw]
  generalize fr.take t.nextBlockLen = got at *
  refine ⟨⟨by simp [h.cmmd, cmdLen], by simpa using h.has, ?_, ?_, ?_, ?_, ?_, ?_, ?_, ?_, h.file,
    h.queue, h.sending, ?_⟩, ?_, ?_⟩
  · exact Int.natCast_nonneg 24
  · intro _; exact Int.ofNat_le.mpr (Nat.le_of_ble_eq_true rfl)
  · intro hf; exact absurd hf (by simp)
  · exact Int.natCast_nonneg _
  · intro _; exact ⟨rfl, by simp only; omega⟩
  · intro d' hd'
    obtain rfl := Option.some.inj hd'
    refine ⟨by simp [FileProcBuffer.mem, hd, hmem], ?_⟩
    simp only [length_writeAt, FileProcBuffer.mem, hd, Option.getD_some]
    refine Nat.le_trans ?_ hdlen
    simp only [nextBlockLen]
    split <;> split <;> omega
  · intro htot; exact absurd htot (by simp)
  · simp only; omega
  · intro _ _ _
    simp only [dwLength_filesHead, fileGetLength_filesHead, sizeofFileGet]
    omega
  · exact Int.natCast_pos.mpr (by decide)
  · have hcap : (t.nextBlockLen : Int) ≤
        (t.mSendBuffer.createMem (zeros t.nextBlockLen)).memLen := by omega
    simp [Act.Safe, h0, hcap]

/-- The three things `writeBuffer` can do: go on with the frame in flight, read
and send the next block, or send DATAEND. -/
theorem writeBuffer_cases (h : SendInv t) {fr : List UInt8} {outs : List SendResult}
    {s : SendStep} (hs : t.writeBuffer fr outs = some s) :
    (0 < t.mSendBuffer.totalLen ∧ t.tcpSendData outs = some s) ∨
    (t.mSendBuffer.totalLen = 0 ∧ t.mHasReadLen < t.mFileLen ∧
      ∃ s', (t.nextBlock fr).1.tcpSendData outs = some s' ∧
        s = ⟨s'.ret, s'.task, (t.nextBlock fr).2 ++ s'.acts⟩) ∨
    (t.mSendBuffer.totalLen = 0 ∧ t.mHasReadLen = t.mFileLen ∧
      ∃ s', t.putAndSend (netCmd moduleMsgDataEnd 0 0) outs = some s' ∧
        s = ⟨ownSockExit, s'.task, s'.acts⟩) := by
  have htot := h.total
  have hread := h.read
  unfold TaskFileSend.writeBuffer at hs
  split at hs
  · rename_i h0
    split at hs
    · rename_i hlt
      simp only [h.queue, h.sending, Bool.true_eq_false, ↓reduceIte, Option.bind_eq_bind,
        Option.bind_eq_some_iff, Option.some.injEq] at hs
      obtain ⟨s', hs', rfl⟩ := hs
      exact .inr (.inl ⟨h0, hlt, s', hs', rfl⟩)
    · simp only [pushSendCmd, true_or, ↓reduceIte, Option.bind_eq_bind, Option.bind_eq_some_iff,
        Option.some.injEq] at hs
      obtain ⟨s', hs', rfl⟩ := hs
      exact .inr (.inr ⟨h0, by omega, s', hs', rfl⟩)
  · exact .inl ⟨by omega, hs⟩

theorem dataEnd_cmd (x : List UInt8) :
    dwCmd (netCmd moduleMsgDataEnd 0 0 ++ x) ≠ moduleMsgFiles := by
  rw [dwCmd_netCmd]; decide

theorem writeBuffer (h : SendInv t) {fr : List UInt8} {outs : List SendResult}
    {s : SendStep} (hs : t.writeBuffer fr outs = some s) :
    SendInv s.task ∧ ∀ a ∈ s.acts, a.Safe := by
  rcases h.writeBuffer_cases hs with ⟨hpos, hs⟩ | ⟨h0, hlt, s', hs', rfl⟩ | ⟨h0, -, s', hs', rfl⟩
  · exact h.tcpSendData hpos hs
  · obtain ⟨hinv, hpos, hsafe⟩ := h.nextBlock h0 hlt fr
    obtain ⟨hinv', hsafe'⟩ := hinv.tcpSendData hpos hs'
    refine ⟨hinv', fun a ha => ?_⟩
    rcases List.mem_append.mp ha with ha | ha
    · exact hsafe a ha
    · exact hsafe' a ha
  · obtain ⟨hinv, hsafe⟩ := h.putAndSend h0 (by decide) (by decide) dataEnd_cmd hs'
    exact ⟨hinv, hsafe⟩

theorem opened (opens : Bool) (stSize : Nat) : SendInv (TaskFileSend.opened opens stSize) := by
  have hlt : stSize % 4294967296 < 4294967296 := Nat.mod_lt stSize (by decide)
  refine ⟨by simp [TaskFileSend.opened, new, FileProcBuffer.empty], rfl, Int.le_refl 0, fun _ => ?_,
    ?_, Int.le_refl 0, ?_, ?_, fun _ => rfl, Nat.zero_le _, hlt, rfl, rfl, ?_⟩
  · exact Int.natCast_nonneg cmdLen
  all_goals simp [TaskFileSend.opened, new, FileProcBuffer.empty]

theorem length_loginRetFrame_le (tmEnd : Nat) : (loginRetFrame tmEnd).length ≤ cmdLen := by
  simp [cmdLen]

theorem loginRet_cmd (tmEnd : Nat) (x : List UInt8) :
    dwCmd (loginRetFrame tmEnd ++ x) ≠ moduleMsgFiles := by
  rw [dwCmd_loginRetFrame]; decide

theorem setFetchFile {opens : Bool} {stSize : Nat} {outs : List SendResult} {s : SendStep}
    (hs : TaskFileSend.new.setFetchFile opens stSize outs = some s) :
    SendInv s.task ∧ ∀ a ∈ s.acts, a.Safe := by
  rw [setFetchFile_new] at hs
  obtain ⟨s', hs', rfl⟩ := Option.map_eq_some_iff.mp hs
  obtain ⟨hinv, hsafe⟩ := (SendInv.opened opens stSize).putAndSend rfl (by simp)
    (length_loginRetFrame_le _) (loginRet_cmd _) hs'
  exact ⟨hinv, hsafe⟩

/-- `readBuffer` leaves the send buffer and the counters alone. -/
theorem readBuffer (h : SendInv t) (ctl : List UInt8 → Control) (inbox : List UInt8)
    (r₁ r₂ : RecvResult) : SendInv (t.readBuffer ctl inbox r₁ r₂).task := by
  have hkeep : ∀ b, SendInv { t with mRecvBuffer := b } := fun b =>
    ⟨h.cmmd, h.has, h.total, h.header, h.body, h.dataLen, h.data, h.mem, h.idle, h.read, h.file,
      h.queue, h.sending, h.files⟩
  have hsend : ∀ b, SendInv { t with mRecvBuffer := b, mbSendingData := true } := fun b =>
    ⟨h.cmmd, h.has, h.total, h.header, h.body, h.dataLen, h.data, h.mem, h.idle, h.read, h.file,
      h.queue, rfl, h.files⟩
  generalize hg : t.readBuffer ctl inbox r₁ r₂ = g
  cases TaskFileSend.readBuffer_cases hg with
  | more f _ _ step => rw [step]; exact hkeep _
  | whole f _ _ c _ step =>
    rw [step]
    cases c with
    | send => exact hsend _
    | _ => exact hkeep _

/-- A send returns the length of the phase or fails. -/
theorem tcpSendData_ret (h : SendInv t) (hpos : 0 < t.mSendBuffer.totalLen)
    {outs : List SendResult} {s : SendStep} (hs : t.tcpSendData outs = some s) :
    0 < s.ret ∨ s.ret = -1 := by
  rcases (tcpSendData_cases (h.pending hpos) hs).2 with ⟨-, hret, -⟩ | ⟨-, hret, -⟩
  · exact .inl (hret ▸ hpos)
  · exact .inr hret

/-- A phase can always go out at once. -/
theorem tcpSendData_accepted (h : SendInv t) (hpos : 0 < t.mSendBuffer.totalLen) :
    ∃ s, t.tcpSendData [.accepted t.mSendBuffer.totalLen.toNat] = some s ∧
      s.task = { t with mSendBuffer := t.mSendBuffer.advance } := by
  have hsome : (t.tcpSendData [.accepted t.mSendBuffer.totalLen.toNat]).isSome := by
    rw [tcpSendData_eq h.has hpos, Option.isSome_map]
    obtain ⟨o, ho, -⟩ := sendEx_accepted
      (if t.mSendBuffer.bProcCmmd then t.mSendBuffer.cmmd else t.mSendBuffer.mem)
      t.mSendBuffer.totalLen.toNat
    rw [Int.toNat_of_nonneg (Int.le_of_lt hpos)] at ho
    rw [ho]
    rfl
  obtain ⟨s, hs⟩ := Option.isSome_iff_exists.mp hsome
  refine ⟨s, hs, ?_⟩
  rcases (tcpSendData_cases (h.pending hpos) hs).2 with ⟨-, -, htask, -⟩ | ⟨herr, -⟩
  · exact htask
  · exact absurd (by simp [NoError]) herr

/-- A command frame is out exactly if no send of it has failed. -/
theorem putAndSend_idle_iff (h : SendInv t) (h0 : t.mSendBuffer.totalLen = 0) {cmd : List UInt8}
    (hpos : 0 < cmd.length) (hlen : cmd.length ≤ cmdLen)
    (hcmd : ∀ x, dwCmd (cmd ++ x) ≠ moduleMsgFiles) {outs : List SendResult} {s : SendStep}
    (hs : t.putAndSend cmd outs = some s) : s.task.mSendBuffer.totalLen = 0 ↔ NoError outs := by
  rw [putAndSend_eq] at hs
  obtain ⟨s', hs', rfl⟩ := Option.map_eq_some_iff.mp hs
  have hput := h.putCmd h0 hlen hcmd
  have htot : (t.putCmd cmd).mSendBuffer.totalLen = cmd.length := rfl
  rcases (tcpSendData_cases (hput.pending (by omega)) hs').2 with
    ⟨hno, -, htask, -⟩ | ⟨herr, -, htask, -⟩
  · refine iff_of_true ?_ hno
    simp only [htask]
    exact h.idle h0
  · refine iff_of_false ?_ herr
    simp only [htask, htot]
    omega

/-- The LOGINRET is out exactly if no send of it has failed. -/
theorem setFetchFile_idle_iff {opens : Bool} {stSize : Nat} {outs : List SendResult} {s : SendStep}
    (hs : TaskFileSend.new.setFetchFile opens stSize outs = some s) :
    s.task.mSendBuffer.totalLen = 0 ↔ NoError outs := by
  rw [setFetchFile_new] at hs
  obtain ⟨s', hs', rfl⟩ := Option.map_eq_some_iff.mp hs
  have hidle := (SendInv.opened opens stSize).putAndSend_idle_iff rfl (by simp)
    (length_loginRetFrame_le _) (loginRet_cmd _) hs'
  exact hidle

/-- The LOGINRET can go out at once. -/
theorem setFetchFile_accepted (opens : Bool) (stSize : Nat) :
    ∃ s, TaskFileSend.new.setFetchFile opens stSize [.accepted 1048] = some s ∧
      s.task.mSendBuffer.totalLen = 0 := by
  have hput := (SendInv.opened opens stSize).putCmd rfl (length_loginRetFrame_le _)
    (loginRet_cmd (stSize % 4294967296))
  have htot : ((TaskFileSend.opened opens stSize).putCmd
      (loginRetFrame (stSize % 4294967296))).mSendBuffer.totalLen = 1048 := by
    simp [TaskFileSend.putCmd]
  obtain ⟨s, hs, -⟩ := hput.tcpSendData_accepted (by rw [htot]; decide)
  rw [htot, show Int.toNat 1048 = 1048 from rfl] at hs
  have hsome : (TaskFileSend.new.setFetchFile opens stSize [.accepted 1048]).isSome := by
    rw [setFetchFile_new, putAndSend_eq, hs]
    rfl
  obtain ⟨w, hw⟩ := Option.isSome_iff_exists.mp hsome
  exact ⟨w, hw, (setFetchFile_idle_iff hw).mpr (by decide)⟩

end SendInv

/-- Reading leaves the sending side of the task alone. -/
theorem TaskFileSend.readBuffer_keeps (ctl : List UInt8 → Control) (t : TaskFileSend)
    (inbox : List UInt8) (r₁ r₂ : RecvResult) {g : TaskRead}
    (hg : t.readBuffer ctl inbox r₁ r₂ = g) :
    g.task.mSendBuffer = t.mSendBuffer ∧ g.task.mFileLen = t.mFileLen ∧
      g.task.mHasReadLen = t.mHasReadLen ∧ g.task.mpFile = t.mpFile := by
  cases TaskFileSend.readBuffer_cases hg with
  | more f _ _ step => subst step; exact ⟨rfl, rfl, rfl, rfl⟩
  | whole f _ _ c _ step =>
    subst step
    cases c <;> exact ⟨rfl, rfl, rfl, rfl⟩

theorem TaskFileSend.readBuffer_safe (ctl : List UInt8 → Control) (t : TaskFileSend)
    (inbox : List UInt8) (r₁ r₂ : RecvResult) :
    ∀ a ∈ (t.readBuffer ctl inbox r₁ r₂).acts, a.Safe := by
  have hasks : ∀ asks : List Ask, ∀ a ∈ asks.map Act.recv, a.Safe := by
    intro asks a ha
    obtain ⟨k, -, rfl⟩ := List.mem_map.mp ha
    trivial
  generalize hg : t.readBuffer ctl inbox r₁ r₂ = g
  cases TaskFileSend.readBuffer_cases hg with
  | more f _ _ step => rw [step]; exact hasks _
  | whole f _ _ c _ step =>
    rw [step]
    intro a ha
    rcases List.mem_append.mp ha with ha | ha
    · exact hasks _ a ha
    · rcases List.mem_cons.mp ha with rfl | ha
      · trivial
      · cases c <;> simp [TaskFileSend.handle] at ha <;> rw [ha] <;> trivial

/-! ## The representation invariant -/

/-- What holds of the send buffer between two calls. -/
structure BufferOk (t : TaskFileSend) : Prop where
  has_nonneg : 0 ≤ t.mSendBuffer.hasProcLen
  has_le : t.mSendBuffer.hasProcLen ≤ t.mSendBuffer.totalLen
  header : t.mSendBuffer.bProcCmmd = true → t.mSendBuffer.totalLen ≤ cmdLen
  body : t.mSendBuffer.bProcCmmd = false → t.mSendBuffer.totalLen = t.mSendBuffer.dataLen
  data : 0 < t.mSendBuffer.dataLen →
    t.mSendBuffer.data.isSome ∧ t.mSendBuffer.dataLen ≤ t.mSendBuffer.memLen
  alloc : ∀ d, t.mSendBuffer.data = some d → t.mSendBuffer.memLen = d.length
  read : t.mHasReadLen ≤ t.mFileLen
  files : t.mSendBuffer.bProcCmmd = true → 0 < t.mSendBuffer.totalLen →
    dwCmd t.mSendBuffer.cmmd = moduleMsgFiles →
    (dwLength t.mSendBuffer.cmmd : Int) = t.mSendBuffer.dataLen + sizeofFileGet ∧
      (fileGetLength t.mSendBuffer.cmmd : Int) = t.mSendBuffer.dataLen

theorem SendInv.bufferOk {t : TaskFileSend} (h : SendInv t) : BufferOk t where
  has_nonneg := Int.le_of_eq h.has.symm
  has_le := by rw [h.has]; exact h.total
  header := h.header
  body := h.body
  data := h.data
  alloc d hd := (h.mem d hd).1.symm
  read := h.read
  files := h.files

namespace Sender

/-- One call keeps the invariant and does nothing unsafe. -/
theorem step_inv {s s' : Sender} {e : SenderEvent}
    (h : SendInv s.task ∧ ∀ a ∈ s.acts, a.Safe) (hs : s.step e = some s') :
    SendInv s'.task ∧ ∀ a ∈ s'.acts, a.Safe := by
  obtain ⟨hinv, hsafe⟩ := h
  cases e with
  | write fr outs =>
    obtain ⟨w, hw, rfl⟩ := Option.map_eq_some_iff.mp hs
    obtain ⟨hinv', hsafe'⟩ := hinv.writeBuffer hw
    refine ⟨hinv', fun a ha => ?_⟩
    rcases List.mem_append.mp ha with ha | ha
    · exact hsafe a ha
    · exact hsafe' a ha
  | read ctl inbox r₁ r₂ =>
    obtain rfl := Option.some.inj hs
    refine ⟨hinv.readBuffer ctl inbox r₁ r₂, fun a ha => ?_⟩
    rcases List.mem_append.mp ha with ha | ha
    · exact hsafe a ha
    · exact s.task.readBuffer_safe ctl inbox r₁ r₂ a ha

theorem Reachable.inv {opens : Bool} {stSize : Nat} {s : Sender}
    (h : Reachable opens stSize s) : SendInv s.task ∧ ∀ a ∈ s.acts, a.Safe := by
  obtain ⟨outs, s₀, es, h₀, hrun⟩ := h
  obtain ⟨f, hf, rfl⟩ := Option.map_eq_some_iff.mp h₀
  exact run_invariant (fun _ _ _ hI he => step_inv hI he) (SendInv.setFetchFile hf) hrun

/-- In every state that a task which has opened its file can reach, whatever
`fread`, `send` and the client do, the send buffer is well formed, every
`memset` and `fread` so far stayed inside the heap block, and every header was
written over `cmmd` with no frame in flight. -/
theorem bufferOk_of_reachable {stSize : Nat} {s : Sender} (h : Reachable true stSize s) :
    BufferOk s.task ∧ ∀ a ∈ s.acts, a.Safe :=
  ⟨h.inv.1.bufferOk, h.inv.2⟩

/-- A file of three bytes of which `fread` delivers two, with an error before
the data. -/
theorem bufferOk_of_reachable_shortRead :
    ∃ s, ((start true 3 [.accepted 1048]).bind fun s₀ => run step s₀
        [.write [7, 8] [.accepted 24], .write [] [.error]]) = some s ∧
      s.task.mSendBuffer.totalLen = 2 ∧ BufferOk s.task ∧ ∀ a ∈ s.acts, a.Safe := by
  have h : (((start true 3 [.accepted 1048]).bind fun s₀ => run step s₀
      [.write [7, 8] [.accepted 24], .write [] [.error]]).any fun s : Sender =>
        decide (s.task.mSendBuffer.totalLen = 2)) = true := by decide +kernel
  obtain ⟨s, hs, htot⟩ := (Option.any_eq_true _ _).mp h
  obtain ⟨s₀, h₀, hrun⟩ := Option.bind_eq_some_iff.mp hs
  obtain ⟨hok, hsafe⟩ := bufferOk_of_reachable ⟨_, s₀, _, h₀, hrun⟩
  exact ⟨s, hs, of_decide_eq_true htot, hok, hsafe⟩

end Sender

end FilesEvent
