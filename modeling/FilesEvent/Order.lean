import Mathlib.Algebra.GroupWithZero.Nat
import FilesEvent.Serving
import FilesEvent.ServerStream

/-! The order of a transfer on the server. Nothing in the task itself waits for
the "start" control: the order holds as long as the write event does not fire
between the LOGINRET and the control, which the event armed at accept time does. -/

namespace FilesEvent
open Bytes Framing Runs

/-! ## The order -/

/-- The file data in the FILES frames `files`. -/
def filesDataLen (files : List (List UInt8)) : Nat :=
  (files.map fun f => (fileData f).length).sum

@[simp] theorem dataLen_append (fs gs : List (List UInt8)) :
    filesDataLen (fs ++ gs) = filesDataLen fs + filesDataLen gs := by
  simp [filesDataLen]

/-- Only frames of the command LOGINRET are sent before a "start" is processed. -/
def Started (acts : List Act) : Prop :=
  ∀ before cmd bs after, acts = before ++ .sent cmd bs :: after → cmd ≠ moduleMsgLoginRet →
    .start ∈ before

/-- The log of a transfer of a file of `fileLen` bytes: one LOGINRET, then FILES
frames, then at most one DATAEND when they hold the whole file. Each frame is
built when the one before it is out, and the socket is given bytes in this order. -/
structure Ordered (fileLen : Nat) (acts : List Act) : Prop where
  frames : ∃ files ends, Act.builtFrames acts = loginRetFrame fileLen :: (files ++ ends) ∧
    (∀ f ∈ files, dwCmd f = moduleMsgFiles) ∧
    (ends = [] ∨ (ends = [netCmd moduleMsgDataEnd 0 0] ∧ filesDataLen files = fileLen))
  idle : ∀ n f, Act.built n f ∈ acts → n = 0
  sent : ∃ i j k, Act.sentCmds acts = List.replicate i moduleMsgLoginRet ++
    (List.replicate j moduleMsgFiles ++ List.replicate k moduleMsgDataEnd)
  started : Started acts

theorem Started.append {acts new : List Act} (h : Started acts)
    (hnew : .start ∈ acts ∨ ∀ cmd ∈ Act.sentCmds new, cmd = moduleMsgLoginRet) :
    Started (acts ++ new) := by
  intro before cmd bs after heq hcmd
  rcases List.append_eq_append_iff.mp heq with ⟨mid, rfl, hmid⟩ | ⟨mid, rfl, hmid⟩
  · rcases hnew with hmem | hall
    · exact List.mem_append_left _ hmem
    · refine absurd (hall cmd ?_) hcmd
      rw [hmid]
      simp [Act.sentCmds]
  · cases mid with
    | nil =>
      rw [List.nil_append] at hmid
      rcases hnew with hmem | hall
      · simpa using hmem
      · refine absurd (hall cmd ?_) hcmd
        rw [← hmid]
        simp [Act.sentCmds]
    | cons a mid =>
      rw [List.cons_append, List.cons.injEq] at hmid
      obtain ⟨rfl, -⟩ := hmid
      exact h before cmd bs mid rfl hcmd

/-! ## What the calls of the sender send -/

theorem Act.sentCmds_of_forall {acts : List Act} {cmd : Nat}
    (h : ∀ a ∈ acts, ∃ bs, a = .sent cmd bs) :
    Act.sentCmds acts = List.replicate acts.length cmd := by
  induction acts with
  | nil => rfl
  | cons a acts ih =>
    obtain ⟨bs, rfl⟩ := h a List.mem_cons_self
    have htail := ih fun a ha => h a (List.mem_cons_of_mem _ ha)
    rw [List.length_cons, List.replicate_succ, ← htail]
    rfl

namespace SendInv
open TaskFileSend

variable {t : TaskFileSend} {outs : List SendResult} {s : SendStep}

/-- What a send hands to the socket belongs to the frame in `cmmd`, which stays
there until it is out. -/
theorem tcpSendData_cmd (h : SendInv t) (hpos : 0 < t.mSendBuffer.totalLen)
    (hs : t.tcpSendData outs = some s) :
    (∃ n, Act.sentCmds s.acts = List.replicate n (dwCmd t.mSendBuffer.cmmd)) ∧
      (s.task.mSendBuffer.totalLen ≠ 0 →
        dwCmd s.task.mSendBuffer.cmmd = dwCmd t.mSendBuffer.cmmd) := by
  obtain ⟨hacts, hcases⟩ := tcpSendData_cases (h.pending hpos) hs
  refine ⟨⟨_, Act.sentCmds_of_forall hacts⟩, fun hne => ?_⟩
  rcases hcases with ⟨-, -, htask, -⟩ | ⟨-, -, htask, -⟩
  · rw [htask] at hne ⊢
    cases hb : t.mSendBuffer.bProcCmmd with
    | true => simp [FileProcBuffer.advance, FileProcBuffer.setToVideo, hb]
    | false => simp [FileProcBuffer.advance, FileProcBuffer.reset, hb] at hne
  · rw [htask]

theorem putAndSend_cmd (h : SendInv t) (h0 : t.mSendBuffer.totalLen = 0) {cmd : List UInt8}
    (hpos : 0 < cmd.length) (hlen : cmd.length ≤ cmdLen) {c : Nat}
    (hc : ∀ x, dwCmd (cmd ++ x) = c) (hne : c ≠ moduleMsgFiles)
    (hs : t.putAndSend cmd outs = some s) :
    (∃ n, Act.sentCmds s.acts = List.replicate n c) ∧
      (s.task.mSendBuffer.totalLen ≠ 0 → dwCmd s.task.mSendBuffer.cmmd = c) := by
  rw [putAndSend_eq] at hs
  obtain ⟨s', hs', rfl⟩ := Option.map_eq_some_iff.mp hs
  have hput := h.putCmd h0 hlen fun x => (hc x).symm ▸ hne
  have hcmd : dwCmd (t.putCmd cmd).mSendBuffer.cmmd = c := by
    simp only [TaskFileSend.putCmd]
    rw [writeAt_zero (by rw [h.cmmd]; exact hlen), hc]
  have hsend := hput.tcpSendData_cmd (Int.natCast_pos.mpr hpos) hs'
  rw [hcmd] at hsend
  exact hsend

theorem setFetchFile_cmd {opens : Bool} {stSize : Nat}
    (hs : TaskFileSend.new.setFetchFile opens stSize outs = some s) :
    (∃ n, Act.sentCmds s.acts = List.replicate n moduleMsgLoginRet) ∧
      (s.task.mSendBuffer.totalLen ≠ 0 → dwCmd s.task.mSendBuffer.cmmd = moduleMsgLoginRet) := by
  rw [setFetchFile_new] at hs
  obtain ⟨s', hs', rfl⟩ := Option.map_eq_some_iff.mp hs
  have hsend := (SendInv.opened opens stSize).putAndSend_cmd rfl (by simp)
    (length_loginRetFrame_le _) (dwCmd_loginRetFrame _) (by decide) hs'
  exact hsend

/-- The next block is one FILES frame, with the data that has been read. -/
theorem nextBlock_frame (h : SendInv t) (hlt : t.mHasReadLen < t.mFileLen) (fr : List UInt8) :
    ∃ f, Act.builtFrames (t.nextBlock fr).2 = [f] ∧ Act.sentCmds (t.nextBlock fr).2 = [] ∧
      dwCmd f = moduleMsgFiles ∧ dwCmd (t.nextBlock fr).1.mSendBuffer.cmmd = moduleMsgFiles ∧
      (t.nextBlock fr).1.mHasReadLen = t.mHasReadLen + filesDataLen [f] ∧
      (t.nextBlock fr).1.mFileLen = t.mFileLen := by
  have hle := t.nextBlockLen_le_left
  have hfile := h.file
  have hgot : (fr.take t.nextBlockLen).length ≤ t.nextBlockLen := by
    rw [List.length_take]; omega
  refine ⟨_, rfl, rfl, dwCmd_filesHead _ _ _, ?_, ?_, rfl⟩
  · simp only [TaskFileSend.nextBlock, FileProcBuffer.createMem_cmmd]
    rw [writeAt_zero (by rw [h.cmmd]; exact Nat.le_of_ble_eq_true rfl), dwCmd_filesHead]
  · simp only [TaskFileSend.nextBlock, filesDataLen, List.map_cons, List.map_nil, List.sum_cons,
      List.sum_nil, fileData_filesHead]
    omega

end SendInv

/-! ## Progress of a transfer -/

/-- How far a transfer is: at the LOGINRET, in the file, or behind DATAEND, where
the write event is no longer armed. -/
inductive Progress (t : TaskFileSend) (writing : Bool) (acts : List Act) : Prop
  | login (frames : Act.builtFrames acts = [loginRetFrame t.mFileLen]) (read : t.mHasReadLen = 0)
      (i : Nat) (sent : Act.sentCmds acts = List.replicate i moduleMsgLoginRet)
      (cmd : t.mSendBuffer.totalLen ≠ 0 → dwCmd t.mSendBuffer.cmmd = moduleMsgLoginRet)
  | files (fs : List (List UInt8)) (frames : Act.builtFrames acts = loginRetFrame t.mFileLen :: fs)
      (cmds : ∀ f ∈ fs, dwCmd f = moduleMsgFiles) (read : filesDataLen fs = t.mHasReadLen) (i j : Nat)
      (sent : Act.sentCmds acts =
        List.replicate i moduleMsgLoginRet ++ List.replicate j moduleMsgFiles)
      (cmd : t.mSendBuffer.totalLen ≠ 0 → dwCmd t.mSendBuffer.cmmd = moduleMsgFiles)
      (start : .start ∈ acts)
  | done (fs : List (List UInt8)) (frames : Act.builtFrames acts =
        loginRetFrame t.mFileLen :: (fs ++ [netCmd moduleMsgDataEnd 0 0]))
      (cmds : ∀ f ∈ fs, dwCmd f = moduleMsgFiles) (read : filesDataLen fs = t.mFileLen) (i j k : Nat)
      (sent : Act.sentCmds acts = List.replicate i moduleMsgLoginRet ++
        (List.replicate j moduleMsgFiles ++ List.replicate k moduleMsgDataEnd))
      (start : .start ∈ acts) (off : writing = false)

namespace Progress

variable {t : TaskFileSend} {acts : List Act}

theorem ordered {writing : Bool} (h : Progress t writing acts)
    (hidle : ∀ n f, Act.built n f ∈ acts → n = 0) (hstarted : Started acts) :
    Ordered t.mFileLen acts := by
  cases h with
  | login frames _ i sent =>
    exact ⟨⟨[], [], frames, by simp, .inl rfl⟩, hidle, ⟨i, 0, 0, by simpa using sent⟩, hstarted⟩
  | files fs frames cmds _ i j sent =>
    exact ⟨⟨fs, [], by simpa using frames, cmds, .inl rfl⟩, hidle, ⟨i, j, 0, by simpa using sent⟩,
      hstarted⟩
  | done fs frames cmds read i j k sent =>
    exact ⟨⟨fs, _, frames, cmds, .inr ⟨rfl, read⟩⟩, hidle, ⟨i, j, k, sent⟩, hstarted⟩

/-- Reading goes on with the transfer where it is. -/
theorem read {writing writing' : Bool} (h : Progress t writing acts) {g : TaskFileSend}
    (hbuf : g.mSendBuffer = t.mSendBuffer) (hfile : g.mFileLen = t.mFileLen)
    (hread : g.mHasReadLen = t.mHasReadLen) {new : List Act} (hnil : Act.builtFrames new = [])
    (hnil' : Act.sentCmds new = [])
    (hoff : .start ∈ acts → writing = false → writing' = false) :
    Progress g writing' (acts ++ new) := by
  have hb : Act.builtFrames (acts ++ new) = Act.builtFrames acts := by simp [hnil]
  have hs : Act.sentCmds (acts ++ new) = Act.sentCmds acts := by simp [hnil']
  cases h with
  | login frames read i sent cmd =>
    exact .login (by rw [hb, hfile, frames]) (hread.trans read) i (hs.trans sent) (hbuf ▸ cmd)
  | files fs frames cmds read i j sent cmd start =>
    exact .files fs (by rw [hb, hfile, frames]) cmds (read.trans hread.symm) i j (hs.trans sent)
      (hbuf ▸ cmd) (List.mem_append_left _ start)
  | done fs frames cmds read i j k sent start off =>
    exact .done fs (by rw [hb, hfile, frames]) cmds (read.trans hfile.symm) i j k (hs.trans sent)
      (List.mem_append_left _ start) (hoff start off)

/-- Before DATAEND the frames built are the LOGINRET and the part of the file read. -/
theorem armed (h : Progress t true acts) :
    ∃ fs, Act.builtFrames acts = loginRetFrame t.mFileLen :: fs ∧
      (∀ f ∈ fs, dwCmd f = moduleMsgFiles) ∧ filesDataLen fs = t.mHasReadLen ∧
      ∃ i j, Act.sentCmds acts =
        List.replicate i moduleMsgLoginRet ++ List.replicate j moduleMsgFiles := by
  cases h with
  | login frames read i sent =>
    exact ⟨[], frames, by simp, read.symm, i, 0, by simpa using sent⟩
  | files fs frames cmds read i j sent => exact ⟨fs, frames, cmds, read, i, j, sent⟩
  | done _ _ _ _ _ _ _ _ _ off => cases off

/-- A call of `writeBuffer` goes on with the frame in flight or with the next one,
which comes after the "start" control. -/
theorem write (hinv : SendInv t) (h : Progress t true acts) {fr : List UInt8}
    {outs : List SendResult} {w : SendStep} (hw : t.writeBuffer fr outs = some w)
    (hstart : t.mSendBuffer.totalLen = 0 → .start ∈ acts) :
    Progress w.task (decide (¬ (w.ret = ownSockExit ∨ w.ret = 0))) (acts ++ w.acts) ∧
      (.start ∈ acts ∨ ∀ cmd ∈ Act.sentCmds w.acts, cmd = moduleMsgLoginRet) := by
  rcases hinv.writeBuffer_cases hw with
    ⟨hpos, hs⟩ | ⟨h0, hlt, s, hs, rfl⟩ | ⟨h0, hall, s, hs, rfl⟩
  · obtain ⟨⟨n, hn⟩, hcmd⟩ := hinv.tcpSendData_cmd hpos hs
    have hnone := TaskFileSend.tcpSendData_builds_nothing hinv hpos hs
    have htask := TaskFileSend.tcpSendData_task hs
    have hfile : w.task.mFileLen = t.mFileLen := by rw [htask]
    have hread : w.task.mHasReadLen = t.mHasReadLen := by rw [htask]
    have hb : Act.builtFrames (acts ++ w.acts) = Act.builtFrames acts := by simp [hnone]
    cases h with
    | login frames read i sent cmd =>
      have hc := cmd (by omega)
      rw [hc] at hn hcmd
      refine ⟨.login (by rw [hb, hfile, frames]) (hread.trans read) (i + n) ?_ hcmd, .inr ?_⟩
      · rw [Act.sentCmds_append, sent, hn, List.replicate_append_replicate]
      · rw [hn]
        exact fun c hc => List.eq_of_mem_replicate hc
    | files fs frames cmds read i j sent cmd start =>
      have hc := cmd (by omega)
      rw [hc] at hn hcmd
      refine ⟨.files fs (by rw [hb, hfile, frames]) cmds (read.trans hread.symm) i (j + n) ?_ hcmd
        (List.mem_append_left _ start), .inl start⟩
      rw [Act.sentCmds_append, sent, hn, List.append_assoc, List.replicate_append_replicate]
    | done _ _ _ _ _ _ _ _ _ off => cases off
  · obtain ⟨hinv', hpos, -⟩ := hinv.nextBlock h0 hlt fr
    obtain ⟨f, hbuilt, hnil, hf, hblock, hread', hfile'⟩ := hinv.nextBlock_frame hlt fr
    obtain ⟨⟨n, hn⟩, hcmd⟩ := hinv'.tcpSendData_cmd hpos hs
    have hnone := TaskFileSend.tcpSendData_builds_nothing hinv' hpos hs
    have htask := TaskFileSend.tcpSendData_task hs
    have hfile : s.task.mFileLen = t.mFileLen := by rw [htask]; exact hfile'
    have hread : s.task.mHasReadLen = t.mHasReadLen + filesDataLen [f] := by rw [htask]; exact hread'
    rw [hblock] at hn hcmd
    obtain ⟨fs, frames, cmds, read, i, j, sent⟩ := h.armed
    refine ⟨.files (fs ++ [f]) ?_ ?_ ?_ i (j + n) ?_ hcmd (List.mem_append_left _ (hstart h0)),
      .inl (hstart h0)⟩
    · simp [frames, hbuilt, hnone, hfile]
    · intro g hg
      rcases List.mem_append.mp hg with hg | hg
      · exact cmds g hg
      · exact List.mem_singleton.mp hg ▸ hf
    · rw [dataLen_append, read]
      exact hread.symm
    · simp only [Act.sentCmds_append, sent, hnil, hn, List.nil_append, List.append_assoc,
        List.replicate_append_replicate]
  · obtain ⟨⟨n, hn⟩, -⟩ := hinv.putAndSend_cmd h0 (by decide) (by decide)
      (dwCmd_netCmd moduleMsgDataEnd 0 0) (by decide) hs
    have hbuilt := hinv.putAndSend_built h0 (by decide) (by decide) SendInv.dataEnd_cmd hs
    have htask := TaskFileSend.putAndSend_task hs
    have hfile : s.task.mFileLen = t.mFileLen := by rw [htask]
    obtain ⟨fs, frames, cmds, read, i, j, sent⟩ := h.armed
    refine ⟨.done fs ?_ cmds ?_ i j n ?_ (List.mem_append_left _ (hstart h0)) (by simp),
      .inl (hstart h0)⟩
    · simp [frames, hbuilt, hfile]
    · rw [read, hall]
      exact hfile.symm
    · simp only [Act.sentCmds_append, sent, hn, List.append_assoc]
      rfl

end Progress

/-! ## Runs in which the write event waits for the control -/

/-- At most one "start" has been processed, and no "send". -/
def OneStart (acts : List Act) : Prop := acts.count .start ≤ 1 ∧ .resume ∉ acts

theorem OneStart.of_append {acts new : List Act} (h : OneStart (acts ++ new)) : OneStart acts := by
  refine ⟨?_, fun hmem => h.2 (List.mem_append_left _ hmem)⟩
  have := h.1
  rw [List.count_append] at this
  omega

namespace Conn

/-- The write event does not fire on a task with no frame in flight before a
"start" has been processed. -/
def AwaitsStart (c : Conn) : ConnEvent → Prop
  | .onRead _ _ => True
  | .onWrite _ _ => ∀ t, c.sess.mTaskBase = some t → t.mSendBuffer.totalLen = 0 → .start ∈ c.acts

instance (c : Conn) : ∀ e, Decidable (AwaitsStart c e)
  | .onRead _ _ => isTrue trivial
  | .onWrite _ _ => inferInstanceAs (Decidable (∀ t ∈ c.sess.mTaskBase,
      t.mSendBuffer.totalLen = 0 → .start ∈ c.acts))

structure OrderInv (c : Conn) : Prop where
  none : c.sess.mTaskBase = none → Act.builtFrames c.acts = [] ∧ Act.sentCmds c.acts = []
  idle : ∀ n f, Act.built n f ∈ c.acts → n = 0
  started : Started c.acts
  progress : ∀ t, c.sess.mTaskBase = some t → Progress t c.sess.mWriting c.acts

theorem idle_append {acts new : List Act} (h : ∀ n f, Act.built n f ∈ acts → n = 0)
    (hsafe : ∀ a ∈ new, a.Safe) : ∀ n f, Act.built n f ∈ acts ++ new → n = 0 := by
  intro n f hmem
  rcases List.mem_append.mp hmem with hmem | hmem
  · exact h n f hmem
  · exact hsafe _ hmem

theorem safe_of_isQuiet {acts : List Act} (h : ∀ a ∈ acts, a.IsQuiet) : ∀ a ∈ acts, a.Safe := by
  intro a ha
  have := h a ha
  cases a <;> trivial

/-- The log of a step continues the log before it. -/
theorem Serves.acts_eq {c c' : Conn} {e : ConnEvent} (h : Serves c c' e) :
    ∃ new, c'.acts = c.acts ++ new := by
  cases h with
  | request _ _ quiet _ _ _ _ acts => exact ⟨quiet, acts⟩
  | create _ _ quiet w _ _ _ _ acts => exact ⟨_, acts⟩
  | read _ _ _ g _ _ _ _ acts => exact ⟨_, acts⟩
  | idle _ _ _ _ acts => exact ⟨[], by simp [acts]⟩
  | write _ _ _ w _ _ _ _ _ acts => exact ⟨_, acts⟩

theorem OrderInv.step {c c' : Conn} {e : ConnEvent} (hserve : ServeInv c) (h : OrderInv c)
    (he : AwaitsStart c e) (hs : c.step e = some c') (hone : OneStart c'.acts) : OrderInv c' := by
  obtain ⟨-, -, hserves⟩ := step_serves hserve.event hs
  cases hserves with
  | request H env quiet task _ task' _ acts hquiet =>
    have hnil := Act.sentCmds_of_isQuiet hquiet
    refine ⟨fun _ => ?_, acts ▸ idle_append h.idle (safe_of_isQuiet hquiet),
      acts ▸ h.started.append (.inr (by simp [hnil])), fun t ht => by cases task'.symm.trans ht⟩
    obtain ⟨hb, hs⟩ := h.none task
    simp [acts, hb, hs, hnil, Act.builtFrames_of_isQuiet hquiet]
  | create H env quiet w task fetch task' _ acts hquiet _ =>
    obtain ⟨hb, hs⟩ := h.none task
    obtain ⟨hfile, hread, -, hbuilt, -⟩ := SendInv.setFetchFile_built fetch
    obtain ⟨⟨n, hn⟩, hcmd⟩ := SendInv.setFetchFile_cmd fetch
    have hnil := Act.sentCmds_of_isQuiet hquiet
    have hsafe : ∀ a ∈ quiet ++ w.acts, a.Safe := by
      intro a ha
      rcases List.mem_append.mp ha with ha | ha
      · exact safe_of_isQuiet hquiet a ha
      · exact (SendInv.setFetchFile fetch).2 a ha
    refine ⟨fun hnone => (by cases task'.symm.trans hnone), acts ▸ idle_append h.idle hsafe,
      acts ▸ h.started.append (.inr ?_), fun t ht => ?_⟩
    · intro c hc
      simp only [Act.sentCmds_append, hnil, hn, List.nil_append] at hc
      exact List.eq_of_mem_replicate hc
    · obtain rfl := Option.some.inj (task'.symm.trans ht)
      refine .login ?_ hread n ?_ hcmd
      · simp [acts, hb, hbuilt, Act.builtFrames_of_isQuiet hquiet, hfile]
      · simp [acts, hs, hn, hnil]
  | read H env t g task read task' writing acts =>
    obtain ⟨hbuf, hfile, hread, -⟩ := t.readBuffer_keeps H.control c.inbox env.r₁ env.r₂ read
    obtain ⟨quiet, control, hacts, hquiet, hcontrol⟩ :=
      TaskFileSend.readBuffer_controls H.control t c.inbox env.r₁ env.r₂
    have hsafe := TaskFileSend.readBuffer_safe H.control t c.inbox env.r₁ env.r₂
    rw [read] at hacts hcontrol hsafe
    have hnil : Act.builtFrames g.acts = [] ∧ Act.sentCmds g.acts = [] := by
      rw [hacts, Act.builtFrames_append, Act.sentCmds_append, Act.builtFrames_of_isQuiet hquiet,
        Act.sentCmds_of_isQuiet hquiet]
      rcases hcontrol with ⟨rfl, -⟩ | ⟨rfl | rfl, -⟩ <;> exact ⟨rfl, rfl⟩
    refine ⟨fun hnone => (by cases task'.symm.trans hnone), acts ▸ idle_append h.idle hsafe,
      acts ▸ h.started.append (.inr (by simp [hnil.2])), fun t' ht' => ?_⟩
    obtain rfl := Option.some.inj (task'.symm.trans ht')
    rw [acts]
    refine (h.progress t task).read hbuf hfile hread hnil.1 hnil.2 fun hstart hoff => ?_
    -- no second control arms the event again
    rw [writing, hoff, Bool.false_or]
    rw [acts, hacts] at hone
    rcases hcontrol with ⟨-, harm⟩ | ⟨rfl | rfl, -⟩
    · exact harm
    · have hcount := hone.1
      have hpos := List.count_pos_iff.mpr hstart
      simp only [List.count_append, List.count_cons_self, List.count_nil] at hcount
      omega
    · exact absurd (by simp) hone.2
  | idle fr outs task task' acts =>
    refine ⟨fun _ => acts ▸ h.none task, acts ▸ h.idle, acts ▸ h.started, fun t ht => ?_⟩
    cases task'.symm.trans ht
  | write fr outs t w task armed write task' writing acts _ =>
    have hinv := hserve.task t task
    have hprog := h.progress t task
    rw [armed] at hprog
    obtain ⟨hnext, hstart⟩ := hprog.write hinv write (he t task)
    refine ⟨fun hnone => (by cases task'.symm.trans hnone),
      acts ▸ idle_append h.idle (hinv.writeBuffer write).2, acts ▸ h.started.append hstart,
      fun t' ht' => ?_⟩
    obtain rfl := Option.some.inj (task'.symm.trans ht')
    rw [writing, acts]
    exact hnext

/-- In every run in which the write event waits for the one "start" of the client,
whatever the sends do: without a task nothing is sent, and the log of a task is
that of a transfer in order. -/
theorem transfer_ordered {mReadBuff stream : List UInt8} {es : List ConnEvent} {c : Conn}
    (hrun : run step (onAccept mReadBuff stream) es = some c)
    (hwait : Meets step AwaitsStart (onAccept mReadBuff stream) es) (hone : OneStart c.acts) :
    (c.sess.mTaskBase = none → Act.sentCmds c.acts = []) ∧
      ∀ t, c.sess.mTaskBase = some t → Ordered t.mFileLen c.acts := by
  have hinv : OrderInv c := (run_meets
    (I := fun c : Conn => ServeInv c ∧ (OneStart c.acts → OrderInv c))
    (fun c e c' hI he hs => ⟨hI.1.step hs, fun hone => by
      obtain ⟨new, hnew⟩ := (step_serves hI.1.event hs).2.2.acts_eq
      exact (hI.2 (OneStart.of_append (hnew ▸ hone))).step hI.1 he hs hone⟩)
    ⟨serveInv_onAccept mReadBuff stream, fun _ => ⟨fun _ => ⟨rfl, rfl⟩, by simp [onAccept], by
      intro before cmd bs after heq
      simp [onAccept] at heq, fun t ht => by cases ht⟩⟩ hwait hrun).2 hone
  exact ⟨fun hnone => (hinv.none hnone).2,
    fun t ht => (hinv.progress t ht).ordered hinv.idle hinv.started⟩

/-- A request for the file "ab" and the control that starts its transfer. -/
def loginAndStart : List UInt8 :=
  TaskFileRecv.loginFrame (lit "ab") ++ TaskFileRecv.startFrame 3

/-- The callback that reads the request, for a file of three bytes. -/
def readLogin : ConnEvent :=
  .onRead (handlers fun _ => true) ⟨.avail 4095, .avail 4095, true, 3, [.accepted 1048]⟩

/-- The transfer of a file of three bytes, with an error in front of its data. -/
theorem transfer_ordered_whole :
    ∃ c t, run step (onAccept (zeros cmdLen) loginAndStart) [readLogin,
        .onRead (handlers fun _ => true) readAll, .onWrite [7, 8, 9] [.accepted 24],
        .onWrite [] [.error], .onWrite [] [.accepted 3], .onWrite [] [.accepted 16]] = some c ∧
      c.sess.mTaskBase = some t ∧ Act.sentCmds c.acts = [moduleMsgLoginRet, moduleMsgFiles,
        moduleMsgFiles, moduleMsgFiles, moduleMsgDataEnd] ∧ Ordered t.mFileLen c.acts := by
  have h : (run step (onAccept (zeros cmdLen) loginAndStart) [readLogin,
      .onRead (handlers fun _ => true) readAll, .onWrite [7, 8, 9] [.accepted 24],
      .onWrite [] [.error], .onWrite [] [.accepted 3], .onWrite [] [.accepted 16]]).any
        (fun c : Conn => c.sess.mTaskBase.isSome &&
          decide (Act.sentCmds c.acts = [moduleMsgLoginRet, moduleMsgFiles, moduleMsgFiles,
            moduleMsgFiles, moduleMsgDataEnd] ∧ c.acts.count .start ≤ 1 ∧ .resume ∉ c.acts)) =
      true := by decide +kernel
  have hwait : Meets step AwaitsStart (onAccept (zeros cmdLen) loginAndStart) [readLogin,
      .onRead (handlers fun _ => true) readAll, .onWrite [7, 8, 9] [.accepted 24],
      .onWrite [] [.error], .onWrite [] [.accepted 3], .onWrite [] [.accepted 16]] := by
    decide +kernel
  obtain ⟨c, hc, hp⟩ := (Option.any_eq_true _ _).mp h
  obtain ⟨htask, hp⟩ := Bool.and_eq_true_iff.mp hp
  obtain ⟨t, ht⟩ := Option.isSome_iff_exists.mp htask
  obtain ⟨hsent, hone⟩ := of_decide_eq_true hp
  exact ⟨c, t, hc, ht, hsent, (transfer_ordered hc hwait hone).2 t ht⟩

/-- The write event armed at accept time fires between the request and the
control: the header of the first FILES frame goes out before the "start". -/
theorem not_transfer_ordered :
    ∃ c t, run step (onAccept (zeros cmdLen) loginAndStart) [readLogin,
        .onWrite [7, 8, 9] [.accepted 24], .onRead (handlers fun _ => true) readAll] = some c ∧
      OneStart c.acts ∧ c.sess.mTaskBase = some t ∧ ¬ Ordered t.mFileLen c.acts := by
  have h : (run step (onAccept (zeros cmdLen) loginAndStart) [readLogin,
      .onWrite [7, 8, 9] [.accepted 24], .onRead (handlers fun _ => true) readAll]).any
        (fun c : Conn => c.sess.mTaskBase.isSome &&
          decide ((c.acts.count .start ≤ 1 ∧ .resume ∉ c.acts) ∧
            c.acts[10]? = some (.sent moduleMsgFiles (filesHead 0 3)) ∧
            .start ∉ c.acts.take 10)) = true := by decide +kernel
  obtain ⟨c, hc, hp⟩ := (Option.any_eq_true _ _).mp h
  obtain ⟨htask, hp⟩ := Bool.and_eq_true_iff.mp hp
  obtain ⟨t, ht⟩ := Option.isSome_iff_exists.mp htask
  obtain ⟨hone, hsent, hstart⟩ := of_decide_eq_true hp
  refine ⟨c, t, hc, hone, ht, fun hord => hstart ?_⟩
  obtain ⟨hlt, hget⟩ := List.getElem?_eq_some_iff.mp hsent
  refine hord.started (c.acts.take 10) moduleMsgFiles (filesHead 0 3) (c.acts.drop 11) ?_
    (by decide)
  rw [← hget, ← List.drop_eq_getElem_cons hlt, List.take_append_drop]

end Conn

end FilesEvent
