import FilesEvent.SendStream
import FilesEvent.Receivers
import FilesEvent.ShortBuffer
import FilesEvent.Lib.Tiling

/-! A transfer from end to end: a task on the server, the client, and an in-order
byte stream each way between them. What the client has saved is always the
beginning of the file, because the frames built tile it, what has been sent is a
beginning of the frames, and what has been received is a beginning of that. -/

namespace FilesEvent
open Bytes Framing Runs Tiling

/-! ## The two ends -/

/-- `down` and `up` are the bytes that one end has sent and the other has not received. -/
structure Transfer where
  server : TaskFileSend
  client : TaskFileRecv
  down : List UInt8
  up : List UInt8
  serverActs : List Act
  clientActs : List Act

inductive TransferEvent
  | serverWrite (outs : List SendResult)
  | serverRead (r₁ r₂ : RecvResult)
  | clientRead (r₁ r₂ : RecvResult) (outs₁ outs₂ : List SendResult)

namespace Transfer

/-- The server has opened the file `src` and sent its LOGINRET; the client, with
`block` as its buffer, has opened the save file. -/
def start (src block : List UInt8) (outs : List SendResult) : Option Transfer :=
  (TaskFileSend.new.setFetchFile true src.length outs).map fun w =>
    ⟨w.task, { TaskFileRecv.new block with mwFile := true }, Act.sentBytes w.acts, [], w.acts, []⟩

/-- One callback of either end. `fread` delivers what `src` has from the file
position on. -/
def step (src : List UInt8) (s : Transfer) : TransferEvent → Option Transfer
  | .serverWrite outs =>
      (s.server.writeBuffer (src.drop (s.server.mpFile.getD 0)) outs).map fun w =>
        { s with server := w.task, down := s.down ++ Act.sentBytes w.acts,
                 serverActs := s.serverActs ++ w.acts }
  | .serverRead r₁ r₂ =>
      let g := s.server.readBuffer TaskFileSend.control s.up r₁ r₂
      some { s with server := g.task, up := g.inbox, serverActs := s.serverActs ++ g.acts }
  | .clientRead r₁ r₂ outs₁ outs₂ =>
      (s.client.readBuffer s.down r₁ r₂ outs₁ outs₂).map fun g =>
        { s with client := g.task, down := g.inbox, up := s.up ++ Act.sentBytes g.acts,
                 clientActs := s.clientActs ++ g.acts }

end Transfer

/-- No send of the server fails after a part of its block has gone out. -/
def TransferEvent.NoLateError : TransferEvent → Prop
  | .serverWrite outs => FilesEvent.NoLateError outs
  | .serverRead _ _ => True
  | .clientRead _ _ _ _ => True

/-- The sends of the server do not fail, and the client does not find the stream closed. -/
def TransferEvent.Reliable : TransferEvent → Prop
  | .serverWrite outs => NoError outs
  | .serverRead _ _ => True
  | .clientRead r₁ r₂ _ _ => r₁ ≠ .eof ∧ r₂ ≠ .eof

theorem TransferEvent.Reliable.noLateError {e : TransferEvent} (h : e.Reliable) :
    e.NoLateError := by
  cases e with
  | serverWrite outs => exact .inl h
  | serverRead r₁ r₂ => trivial
  | clientRead r₁ r₂ outs₁ outs₂ => trivial

/-! ## The frames of a file -/

/-- A FILES frame that carries a block of a file. -/
structure FilesFrame (f : List UInt8) : Prop where
  frame : netFormat.IsFrame f
  cmd : dwCmd f = moduleMsgFiles
  data : (fileData f).length = fileGetLength f
  pos : 1 ≤ fileGetLength f
  block : fileGetLength f ≤ fileMemoryLen
  length : dwLength f = fileGetLength f + sizeofFileGet

theorem filesFrame_filesHead (p : Nat) {data : List UInt8} (h₁ : 1 ≤ data.length)
    (h : data.length ≤ fileMemoryLen) : FilesFrame (filesHead p data.length ++ data) := by
  have hblock : fileMemoryLen = 1048576 := rfl
  have hlen : fileGetLength (filesHead p data.length ++ data) = data.length := by
    rw [fileGetLength_filesHead]; omega
  refine ⟨isFrame_filesHead p (by omega), dwCmd_filesHead _ _ _, ?_, by omega, by omega, ?_⟩
  · rw [fileData_filesHead, hlen]
  · rw [dwLength_filesHead, hlen, sizeofFileGet]; omega

/-- What the client saves of a frame. -/
def savedOf (f : List UInt8) : List UInt8 :=
  if dwCmd f = moduleMsgFiles then fileData f else []

/-- What a task for the file `src` has built: the LOGINRET, the FILES frames of
the part that has been read, and, when that is all of it, DATAENDs. -/
structure FileSent (src : List UInt8) (t : TaskFileSend) (acts : List Act) : Prop where
  len : t.mFileLen = src.length
  place : t.mpFile = some t.mHasReadLen
  frames : ∃ files k, Act.builtFrames acts = loginRetFrame src.length ::
      (files ++ List.replicate k (netCmd moduleMsgDataEnd 0 0)) ∧
    (∀ f ∈ files, FilesFrame f) ∧ Tiles fileGetPos fileData src 0 files t.mHasReadLen ∧
    (0 < k → t.mHasReadLen = src.length)

namespace FileSent

variable {src : List UInt8} {t : TaskFileSend} {acts : List Act}

/-- The three kinds of frames of the transfer. -/
theorem mem_cases (h : FileSent src t acts) {f : List UInt8} (hf : f ∈ Act.builtFrames acts) :
    f = loginRetFrame src.length ∨ FilesFrame f ∨ f = netCmd moduleMsgDataEnd 0 0 := by
  obtain ⟨files, k, hbuilt, hfiles, -⟩ := h.frames
  rw [hbuilt] at hf
  rcases List.mem_cons.mp hf with hf | hf
  · exact .inl hf
  · rcases List.mem_append.mp hf with hf | hf
    · exact .inr (.inl (hfiles f hf))
    · exact .inr (.inr (List.eq_of_mem_replicate hf))

theorem isFrame (h : FileSent src t acts) :
    ∀ f ∈ Act.builtFrames acts, netFormat.IsFrame f := by
  intro f hf
  rcases h.mem_cases hf with rfl | hf | rfl
  · exact isFrame_loginRetFrame _
  · exact hf.frame
  · exact isFrame_header moduleMsgDataEnd 0

theorem files (h : FileSent src t acts) {f : List UInt8} (hf : f ∈ Act.builtFrames acts)
    (hcmd : dwCmd f = moduleMsgFiles) : FilesFrame f := by
  rcases h.mem_cases hf with rfl | hf | rfl
  · have := dwCmd_loginRetFrame src.length []
    rw [List.append_nil, hcmd] at this
    cases this
  · exact hf
  · cases hcmd

/-- Each frame fits behind a full block and its headers. -/
theorem fits (h : FileSent src t acts) {size : Nat}
    (hcap : sizeofNetCmd + sizeofFileGet + fileMemoryLen ≤ size) :
    ∀ f ∈ Act.builtFrames acts, netFormat.IsFrame f ∧ netFormat.h + netFormat.len f ≤ size := by
  intro f hf
  have hframe := h.isFrame f hf
  have hblock : fileMemoryLen = 1048576 := rfl
  have hnet : sizeofNetCmd = 16 := rfl
  have hget : sizeofFileGet = 8 := rfl
  have hlen : f.length ≤ size := by
    rcases h.mem_cases hf with rfl | hf | rfl
    · rw [length_loginRetFrame]; omega
    · rw [length_of_isFrame hf.frame, hf.length]
      have := hf.block
      omega
    · rw [length_netCmd]; omega
  have := hframe.2
  exact ⟨hframe, by omega⟩

theorem flatMap_savedOf {files : List (List UInt8)} (h : ∀ f ∈ files, FilesFrame f) :
    files.flatMap savedOf = files.flatMap fileData := by
  induction files with
  | nil => rfl
  | cons f files ih =>
    rw [List.flatMap_cons, List.flatMap_cons, ih fun g hg => h g (List.mem_cons_of_mem f hg),
      savedOf, if_pos (h f List.mem_cons_self).cmd]

theorem flatMap_dataEnd {ends : List (List UInt8)}
    (h : ∀ f ∈ ends, f = netCmd moduleMsgDataEnd 0 0) : ends.flatMap savedOf = [] :=
  List.flatMap_eq_nil_iff.mpr fun f hf => by rw [h f hf]; rfl

theorem filter_files {n k : Nat} {files : List (List UInt8)} (h : ∀ f ∈ files, FilesFrame f) :
    (loginRetFrame n :: (files ++ List.replicate k (netCmd moduleMsgDataEnd 0 0))).filter
      (fun f => dwCmd f = moduleMsgFiles) = files := by
  have hlogin : dwCmd (loginRetFrame n) = moduleMsgLoginRet := by
    have := dwCmd_loginRetFrame n []
    rwa [List.append_nil] at this
  have hends : (List.replicate k (netCmd moduleMsgDataEnd 0 0)).filter
      (fun f => dwCmd f = moduleMsgFiles) = [] :=
    List.filter_eq_nil_iff.mpr fun f hf => by rw [List.eq_of_mem_replicate hf]; decide
  rw [List.filter_cons_of_neg (by rw [hlogin]; decide), List.filter_append, hends, List.append_nil]
  exact List.filter_eq_self.mpr fun f hf => decide_eq_true (h f hf).cmd

theorem savedOf_loginRetFrame (n : Nat) : savedOf (loginRetFrame n) = [] := by
  have := dwCmd_loginRetFrame n []
  rw [List.append_nil] at this
  rw [savedOf, this]
  rfl

/-- What the frames carry is the part of the file that has been read. -/
theorem saved_append (h : FileSent src t acts) :
    (Act.builtFrames acts).flatMap savedOf ++ src.drop t.mHasReadLen = src := by
  obtain ⟨files, k, hbuilt, hfiles, htiles, -⟩ := h.frames
  rw [hbuilt, List.flatMap_cons, List.flatMap_append, savedOf_loginRetFrame,
    flatMap_savedOf hfiles, flatMap_dataEnd fun f hf => List.eq_of_mem_replicate hf,
    List.append_nil, List.nil_append]
  exact htiles.flatMap_append

/-- The frames in front of a DATAEND carry the whole file. -/
theorem saved_before_dataEnd (h : FileSent src t acts) {ds rest : List (List UInt8)}
    {q : List UInt8} (hbuilt : Act.builtFrames acts = ds ++ q :: rest)
    (hq : dwCmd q = moduleMsgDataEnd) : ds.flatMap savedOf = src := by
  obtain ⟨files, k, hframes, hfiles, htiles, hall⟩ := h.frames
  -- no DATAEND is among the frames of the file
  have hnot : q ∉ loginRetFrame src.length :: files := by
    intro hmem
    rcases List.mem_cons.mp hmem with rfl | hmem
    · have := dwCmd_loginRetFrame src.length []
      rw [List.append_nil, hq] at this
      cases this
    · have := (hfiles q hmem).cmd
      rw [hq] at this
      cases this
  rw [hframes, ← List.cons_append] at hbuilt
  have hmid : ∃ mid rest', ds = (loginRetFrame src.length :: files) ++ mid ∧
      List.replicate k (netCmd moduleMsgDataEnd 0 0) = mid ++ q :: rest' := by
    rcases List.append_eq_append_iff.mp hbuilt with ⟨mid, hds, hmid⟩ | ⟨mid, hds, hmid⟩
    · exact ⟨mid, rest, hds, hmid⟩
    · cases mid with
      | nil => exact ⟨[], rest, by simpa using hds.symm, by simpa using hmid.symm⟩
      | cons m mid =>
        rw [List.cons_append, List.cons.injEq] at hmid
        exact absurd (by rw [hds, hmid.1]; simp) hnot
  obtain ⟨mid, rest', rfl, hrep⟩ := hmid
  have hk : 0 < k := by
    have := congrArg List.length hrep
    simp only [List.length_replicate, List.length_append, List.length_cons] at this
    omega
  have hmids : ∀ f ∈ mid, f = netCmd moduleMsgDataEnd 0 0 := by
    intro f hf
    apply List.eq_of_mem_replicate (n := k)
    rw [hrep]
    exact List.mem_append_left _ hf
  have htile := htiles.flatMap_append
  rw [hall hk, List.drop_length, List.append_nil, List.drop_zero] at htile
  rw [List.flatMap_append, List.flatMap_cons, savedOf_loginRetFrame, flatMap_savedOf hfiles,
    flatMap_dataEnd hmids, htile]
  simp

/-- A call of `writeBuffer` goes on with the frames of the file. -/
theorem writeBuffer (hn : src.length < 2147483648) (hinv : SendInv t) (h : FileSent src t acts)
    {outs : List SendResult} {w : SendStep}
    (hw : t.writeBuffer (src.drop (t.mpFile.getD 0)) outs = some w) :
    FileSent src w.task (acts ++ w.acts) := by
  obtain ⟨files, k, hbuilt, hfiles, htiles, hall⟩ := h.frames
  have hlen := h.len
  have hread := hinv.read
  rcases hinv.writeBuffer_cases hw with
    ⟨hpos, hs⟩ | ⟨h0, hlt, s, hs, rfl⟩ | ⟨h0, heq, s, hs, rfl⟩
  · have htask := TaskFileSend.tcpSendData_task hs
    have hnone := TaskFileSend.tcpSendData_builds_nothing hinv hpos hs
    rw [htask]
    exact ⟨hlen, h.place, files, k, by simp [hbuilt, hnone], hfiles, htiles, hall⟩
  · obtain ⟨hinv', hpos, -⟩ := hinv.nextBlock h0 hlt (src.drop (t.mpFile.getD 0))
    have htask := TaskFileSend.tcpSendData_task hs
    have hnone := TaskFileSend.tcpSendData_builds_nothing hinv' hpos hs
    have hplace : t.mpFile.getD 0 = t.mHasReadLen := by rw [h.place]; rfl
    have hle := t.nextBlockLen_le
    have hleft := t.nextBlockLen_le_left
    have hblock : 1 ≤ t.nextBlockLen := by
      have : fileMemoryLen = 1048576 := rfl
      simp only [TaskFileSend.nextBlockLen]
      split <;> omega
    -- `fread` delivers all that it is asked for
    have hgot : ((src.drop (t.mpFile.getD 0)).take t.nextBlockLen).length = t.nextBlockLen := by
      rw [hplace, List.length_take, List.length_drop]
      omega
    have hk : k = 0 := by
      cases k with
      | zero => rfl
      | succ k => have := hall (Nat.succ_pos k); omega
    subst hk
    have hfile' : s.task.mFileLen = t.mFileLen := by rw [htask]; rfl
    have hplace' : s.task.mpFile =
        (t.nextBlock (src.drop (t.mpFile.getD 0))).1.mpFile := by rw [htask]
    have hread' : s.task.mHasReadLen =
        (t.nextBlock (src.drop (t.mpFile.getD 0))).1.mHasReadLen := by rw [htask]
    have hmod : (t.mHasReadLen + t.nextBlockLen) % 4294967296 = t.mHasReadLen + t.nextBlockLen :=
      Nat.mod_eq_of_lt (by omega)
    refine ⟨hfile'.trans hlen, ?_, files ++ [filesHead (t.mpFile.getD 0 % 4294967296)
      ((src.drop (t.mpFile.getD 0)).take t.nextBlockLen).length ++
        (src.drop (t.mpFile.getD 0)).take t.nextBlockLen], 0, ?_, ?_, ?_,
      fun hpos => absurd hpos (Nat.lt_irrefl 0)⟩
    · simp only [hplace', hread', TaskFileSend.nextBlock, hgot, hmod]
      rw [h.place]
      rfl
    · have hnext : Act.builtFrames (t.nextBlock (src.drop (t.mpFile.getD 0))).2 =
          [filesHead (t.mpFile.getD 0 % 4294967296)
            ((src.drop (t.mpFile.getD 0)).take t.nextBlockLen).length ++
              (src.drop (t.mpFile.getD 0)).take t.nextBlockLen] := rfl
      simp only [Act.builtFrames_append, hbuilt, hnone, hnext]
      simp
    · intro f hf
      rcases List.mem_append.mp hf with hf | hf
      · exact hfiles f hf
      · rw [List.mem_singleton.mp hf]
        exact filesFrame_filesHead _ (by omega) (by omega)
    · have hsnoc := htiles.snoc (b := filesHead (t.mpFile.getD 0 % 4294967296)
        ((src.drop (t.mpFile.getD 0)).take t.nextBlockLen).length ++
          (src.drop (t.mpFile.getD 0)).take t.nextBlockLen)
        (by rw [fileGetPos_filesHead, hplace]; omega)
        (by rw [fileData_filesHead, hplace]; exact List.take_prefix _ _)
      rw [fileData_filesHead, hgot] at hsnoc
      simpa only [hread', TaskFileSend.nextBlock, hgot, hmod] using hsnoc
  · have htask := TaskFileSend.putAndSend_task hs
    have hnew := hinv.putAndSend_built h0 (by decide) (by decide) SendInv.dataEnd_cmd hs
    have hkeep : s.task.mFileLen = t.mFileLen ∧ s.task.mpFile = t.mpFile ∧
        s.task.mHasReadLen = t.mHasReadLen := by
      rw [htask]
      exact ⟨rfl, rfl, rfl⟩
    obtain ⟨hfile', hplace', hread'⟩ := hkeep
    refine ⟨hfile'.trans hlen, by simp only [hplace', hread', h.place], files, k + 1, ?_, hfiles, ?_,
      fun _ => hread'.trans (heq.trans hlen)⟩
    · rw [Act.builtFrames_append, hbuilt, hnew, List.replicate_succ', List.cons_append,
        List.append_assoc]
    · simp only [hread']
      exact htiles

theorem readBuffer (h : FileSent src t acts) (ctl : List UInt8 → Control) (inbox : List UInt8)
    (r₁ r₂ : RecvResult) : FileSent src (t.readBuffer ctl inbox r₁ r₂).task
      (acts ++ (t.readBuffer ctl inbox r₁ r₂).acts) := by
  obtain ⟨-, hfile, hread, hplace⟩ := t.readBuffer_keeps ctl inbox r₁ r₂ rfl
  obtain ⟨hnone, -, -⟩ := SendInv.readBuffer_flow (t := t) ctl inbox r₁ r₂
  refine ⟨hfile.trans h.len, by rw [hplace, hread]; exact h.place, ?_⟩
  rw [hread, Act.builtFrames_append, hnone, List.append_nil]
  exact h.frames

theorem setFetchFile (hn : src.length < 2147483648) {outs : List SendResult} {w : SendStep}
    (hw : TaskFileSend.new.setFetchFile true src.length outs = some w) :
    FileSent src w.task w.acts := by
  obtain ⟨hlen, hread, hplace, hbuilt, -⟩ := SendInv.setFetchFile_built hw
  have hmod : src.length % 4294967296 = src.length := Nat.mod_eq_of_lt (by omega)
  rw [hmod] at hlen hbuilt
  exact ⟨hlen, by rw [hplace, hread]; rfl, [], 0, hbuilt, by simp, hread.symm,
    fun hpos => absurd hpos (Nat.lt_irrefl 0)⟩

end FileSent

/-! ## What the client makes of a frame -/

namespace TaskFileRecv

/-- Handling the frame `f` saves its data and counts it. -/
theorem handle_saved {c c' : TaskFileRecv} {outs₁ outs₂ : List SendResult} {after : List Act}
    {f : List UInt8} (hf : c.mRecvBuffer.mem.take f.length = f) (hframe : netFormat.IsFrame f)
    (hfiles : dwCmd f = moduleMsgFiles → FilesFrame f) (h₀ : 0 ≤ c.mRecvDataLen)
    (hmax : c.mRecvDataLen + (savedOf f).length < 2147483648)
    (h : c.handle outs₁ outs₂ = some (c', after)) :
    Act.savedBytes after = savedOf f ∧ c'.mRecvDataLen = c.mRecvDataLen + (savedOf f).length ∧
      .dataEnd ∉ after := by
  have h16 : 16 ≤ f.length := hframe.1
  have hcmd : dwCmd c.mRecvBuffer.mem = dwCmd f := by
    rw [← dwCmd_take c.mRecvBuffer.mem (n := f.length) (by omega), hf]
  unfold handle at h
  simp only [hcmd] at h
  split at h
  · -- LOGINRET: the answer is a control
    rename_i hret
    simp only [Option.bind_eq_bind, Option.bind_eq_some_iff, Option.some.injEq,
      Prod.mk.injEq] at h
    obtain ⟨o, ho, rfl, rfl⟩ := h
    have hsaved : savedOf f = [] := by rw [savedOf, hret]; rfl
    have hsend := sendCmd_isSend ho
    refine ⟨?_, by simp [hsaved], fun hmem => hsend _ hmem⟩
    rw [hsaved]
    exact List.flatMap_eq_nil_iff.mpr fun a ha => by
      have := hsend a ha
      cases a <;> first | rfl | cases this
  · split at h
    · split at h
      · rename_i hcmdf
        have hff := hfiles hcmdf
        have hlen := hff.data
        have hdata := hff.block
        have hblock : fileMemoryLen = 1048576 := rfl
        have hsaved : savedOf f = fileData f := by rw [savedOf, if_pos hcmdf]
        have hfl : f.length = 24 + fileGetLength f := by
          have h24 : (fileData f).length = f.length - 24 := List.length_drop
          have := hff.pos
          omega
        have hget : fileGetLength c.mRecvBuffer.mem = fileGetLength f := by
          rw [← fileGetLength_take c.mRecvBuffer.mem (n := f.length) (by omega), hf]
        have hcount : asSize (asInt (fileGetLength f)) = fileGetLength f := by
          rw [asInt_of_lt (by omega), asSize_of_nonneg (by omega) (by omega)]
          rfl
        have hbytes : (c.mRecvBuffer.mem.drop 24).take (fileGetLength f) = fileData f := by
          have hdrop : (c.mRecvBuffer.mem.take f.length).drop 24 = fileData f := by rw [hf]; rfl
          rw [List.drop_take, show f.length - 24 = fileGetLength f by omega] at hdrop
          exact hdrop
        have hwrap : wrapInt (c.mRecvDataLen + asInt (fileGetLength f)) =
            c.mRecvDataLen + (fileData f).length := by
          rw [hsaved, hlen] at hmax
          rw [asInt_of_lt (by omega), wrapInt_of_bounds (by omega) (by omega), hlen]
        simp only [Option.some.injEq, Prod.mk.injEq, hget, hcount, hbytes] at h
        obtain ⟨rfl, rfl⟩ := h
        rw [hsaved]
        refine ⟨?_, hwrap, ?_⟩
        · split <;> simp [Act.savedBytes]
        · split <;> simp
      · rename_i hcmdf
        simp only [Option.some.injEq, Prod.mk.injEq] at h
        obtain ⟨rfl, rfl⟩ := h
        have hsaved : savedOf f = [] := if_neg hcmdf
        exact ⟨hsaved.symm, by simp [hsaved], List.not_mem_nil⟩
    · cases h

end TaskFileRecv

/-! ## What the client has received -/

section Splits

variable {acts new before after : List Act}

/-- Where a log has a DATAEND, when none is among its last entries. -/
theorem split_dataEnd (hnew : .dataEnd ∉ new) (h : acts ++ new = before ++ .dataEnd :: after) :
    ∃ rest, acts = before ++ .dataEnd :: rest := by
  rcases List.append_eq_append_iff.mp h with ⟨mid, -, hmid⟩ | ⟨mid, hacts, hmid⟩
  · exact absurd (by rw [hmid]; simp) hnew
  · cases mid with
    | nil => exact absurd (by rw [← show .dataEnd :: after = new from hmid]; simp) hnew
    | cons a mid =>
      rw [List.cons_append, List.cons.injEq] at hmid
      exact ⟨mid, by rw [hacts, hmid.1]⟩

/-- The first DATAEND of a log that ends with it. -/
theorem split_last (hacts : .dataEnd ∉ acts) (h : acts ++ [.dataEnd] = before ++ .dataEnd :: after) :
    before = acts := by
  rcases List.append_eq_append_iff.mp h with ⟨mid, hbefore, hmid⟩ | ⟨mid, hacts', hmid⟩
  · cases mid with
    | nil => simpa using hbefore
    | cons a mid => simp at hmid
  · cases mid with
    | nil => simpa using hacts'.symm
    | cons a mid =>
      rw [List.cons_append, List.cons.injEq] at hmid
      exact absurd (by rw [hacts', ← hmid.1]; simp) hacts

end Splits

namespace Transfer

/-- The receiver of the client. -/
def view (s : Transfer) : View := logView s.client.mRecvBuffer.rx s.down s.clientActs true

/-- What the client has made of the bytes `x` received so far: it has saved what
the frames handled carry, and it has stopped for good once it has read a DATAEND. -/
structure Received (src : List UInt8) (size : Nat) (s : Transfer) : Prop where
  saved : Act.savedBytes s.clientActs = s.view.frames.flatMap savedOf
  count : s.client.mRecvDataLen = (Act.savedBytes s.clientActs).length
  place : ∃ x, Act.sentBytes s.serverActs = x ++ s.down ∧
    ((.dataEnd ∉ s.clientActs ∧ ∃ p, Synced netFormat size s.view x p) ∨
      ∃ q, Stuck netFormat size s.view x q)
  ends : ∀ before after, s.clientActs = before ++ .dataEnd :: after → Act.savedBytes before = src

structure Inv (src : List UInt8) (size : Nat) (s : Transfer) : Prop where
  flow : Sender.Flow ⟨s.server, s.serverActs⟩
  file : FileSent src s.server s.serverActs
  received : Received src size s

variable {src : List UInt8} {size : Nat} {s : Transfer}

/-- Whole frames found in front of what has been sent are frames that were built. -/
theorem Inv.built_of_frames (h : Inv src size s) {ds : List (List UInt8)} {p down : List UInt8}
    (hsent : Act.sentBytes s.serverActs = ds.flatten ++ p ++ down)
    (hds : ∀ d ∈ ds, netFormat.IsFrame d) :
    ∃ rest, Act.builtFrames s.serverActs = ds ++ rest ∧
      rest.flatten = p ++ (down ++ s.server.inFlight) := by
  have hflow := h.flow.flow
  simp only [hsent] at hflow
  obtain ⟨rest, hrest, hp⟩ := netFormat.prefixFree.flatten_split
    (x := p ++ (down ++ s.server.inFlight)) hds h.file.isFrame (by rw [hflow]; simp)
  exact ⟨rest, hrest, hp.symm⟩

/-- The frames handled are the first ones built. -/
theorem Inv.frames_built (h : Inv src size s) :
    ∃ rest, Act.builtFrames s.serverActs = s.view.frames ++ rest := by
  obtain ⟨x, hsent, hplace⟩ := h.received.place
  have hframes : ∃ p, x = s.view.frames.flatten ++ p ∧
      ∀ d ∈ s.view.frames, netFormat.IsFrame d := by
    rcases hplace with ⟨-, p, hp⟩ | ⟨q, hq⟩
    · exact ⟨p, hp.bytes, fun d hd => (hp.frames d hd).1⟩
    · exact ⟨q, hq.bytes, fun d hd => (hq.frames d hd).1⟩
  obtain ⟨p, hx, hd⟩ := hframes
  obtain ⟨rest, hbuilt, -⟩ := h.built_of_frames (hx ▸ hsent) hd
  exact ⟨rest, hbuilt⟩

/-- Frames that were built carry a beginning of the file. -/
theorem Inv.saved_prefix (h : Inv src size s) {ds rest : List (List UInt8)}
    (hbuilt : Act.builtFrames s.serverActs = ds ++ rest) : ds.flatMap savedOf <+: src := by
  have hall := h.file.saved_append
  rw [hbuilt, List.flatMap_append, List.append_assoc] at hall
  exact ⟨_, hall⟩

section ClientRead

variable {r₁ r₂ : RecvResult} {outs₁ outs₂ : List SendResult} {g : RecvStep} {up : List UInt8}

/-- Where the client is after a read callback: its buffer holds the frames that
were built, so it is never overrun. -/
theorem Inv.clientRead_place (hcap : sizeofNetCmd + sizeofFileGet + fileMemoryLen ≤ size)
    (hsz : size < 9223372036854775808) (h : Inv src size s)
    (hs : s.client.readBuffer s.down r₁ r₂ outs₁ outs₂ = some g) {x p : List UInt8}
    (hsent : Act.sentBytes s.serverActs = x ++ s.down) (hp : Synced netFormat size s.view x p)
    {v : View} (hv : logView g.task.mRecvBuffer.rx g.inbox (s.clientActs ++ g.acts) true = v) :
    ∃ y, Act.sentBytes s.serverActs = y ++ g.inbox ∧
      ((∃ p', Synced netFormat size v y p') ∨ ∃ q, Stuck netFormat size v y q) := by
  have hr := TaskFileRecv.readBuffer_reads hs False s.clientActs
  obtain ⟨bs, hbs, hout⟩ := hp.reads rfl hsz hr
  have hbs' : s.down = bs ++ g.inbox := hbs
  have hsent' : Act.sentBytes s.serverActs = x ++ bs ++ g.inbox := by
    rw [hsent, hbs', List.append_assoc]
  refine ⟨x ++ bs, hsent', ?_⟩
  subst hv
  rcases hout with ⟨p', hp', -, -, hkept⟩ | ⟨-, q, hq⟩ | ho
  · have hkept := hkept.resolve_right id
    exact .inl ⟨p', hp'.bytes, hp'.frames, hp'.open_, hp'.header, fun _ => hkept, hp'.inside⟩
  · exact .inr ⟨q, hq.bytes, hq.frames, hq.opened, hq.len, hq.cap, hq.inside⟩
  · have hflow : (Act.builtFrames s.serverActs).flatten =
        (x ++ bs) ++ (g.inbox ++ s.server.inFlight) := by
      rw [h.flow.flow, hsent', List.append_assoc]
    exact absurd (headersFit_of_stream (h.file.fits hcap) hflow) ho.not_headersFit

/-- When the header of a DATAEND has come, the frames in front of it hold the file. -/
theorem Inv.saved_of_stuck (h : Inv src size s) {v : View} {y q rest : List UInt8}
    (hsent : Act.sentBytes s.serverActs = y ++ rest) (hframes : ∀ d ∈ v.frames, netFormat.IsFrame d)
    (hq : Stuck netFormat size v y q) (hend : dwCmd v.rx.buf = moduleMsgDataEnd) :
    v.frames.flatMap savedOf = src := by
  have hqcmd : dwCmd q = moduleMsgDataEnd := by
    rw [← hq.opened.buf, dwCmd_take _ (by decide)]
    exact hend
  have hqframe : netFormat.IsFrame q := by
    refine ⟨Nat.le_of_eq hq.opened.len.symm, ?_⟩
    rw [hq.opened.len, hq.len]
    rfl
  have hsent' : Act.sentBytes s.serverActs = (v.frames ++ [q]).flatten ++ [] ++ rest := by
    rw [hsent, hq.bytes]
    simp
  obtain ⟨rest', hbuilt, -⟩ := h.built_of_frames hsent' fun d hd =>
    (List.mem_append.mp hd).elim (hframes d) fun hd => List.mem_singleton.mp hd ▸ hqframe
  rw [List.append_assoc, List.singleton_append] at hbuilt
  exact h.file.saved_before_dataEnd hbuilt hqcmd

/-- A read callback of a client that has not read a DATAEND. -/
theorem Inv.clientRead_synced (hn : src.length < 2147483648)
    (hcap : sizeofNetCmd + sizeofFileGet + fileMemoryLen ≤ size)
    (hsz : size < 9223372036854775808) (h : Inv src size s)
    (hs : s.client.readBuffer s.down r₁ r₂ outs₁ outs₂ = some g) {x p : List UInt8}
    (hsent : Act.sentBytes s.serverActs = x ++ s.down) (hnot : .dataEnd ∉ s.clientActs)
    (hp : Synced netFormat size s.view x p) :
    Received src size ⟨s.server, g.task, g.inbox, up, s.serverActs, s.clientActs ++ g.acts⟩ := by
  generalize hv : logView g.task.mRecvBuffer.rx g.inbox (s.clientActs ++ g.acts) true = v
  have hview : view ⟨s.server, g.task, g.inbox, up, s.serverActs, s.clientActs ++ g.acts⟩ = v := hv
  obtain ⟨y, hy, hplace⟩ := h.clientRead_place hcap hsz hs hsent hp hv
  have hframes : ∃ p', y = v.frames.flatten ++ p' ∧ ∀ d ∈ v.frames, netFormat.IsFrame d := by
    rcases hplace with ⟨p', hp'⟩ | ⟨q, hq⟩
    · exact ⟨p', hp'.bytes, fun d hd => (hp'.frames d hd).1⟩
    · exact ⟨q, hq.bytes, fun d hd => (hq.frames d hd).1⟩
  obtain ⟨p', hyp, hframes⟩ := hframes
  obtain ⟨rest, hbuilt, -⟩ := h.built_of_frames (hyp ▸ hy) hframes
  -- all but the log is settled by the place in the stream
  have hrest : .dataEnd ∉ g.acts →
      Act.savedBytes (s.clientActs ++ g.acts) = v.frames.flatMap savedOf →
      g.task.mRecvDataLen = (Act.savedBytes (s.clientActs ++ g.acts)).length →
      Received src size
        ⟨s.server, g.task, g.inbox, up, s.serverActs, s.clientActs ++ g.acts⟩ := by
    intro hnew hsaved hcount
    refine ⟨hview ▸ hsaved, hcount, ⟨y, hy, hview ▸ ?_⟩, fun before after heq => ?_⟩
    · refine hplace.imp_left fun hp' => ⟨fun hmem => ?_, hp'⟩
      exact (List.mem_append.mp hmem).elim hnot hnew
    · obtain ⟨rest, hacts⟩ := split_dataEnd hnew heq
      exact h.received.ends before rest hacts
  have hsaved := h.received.saved
  have hcount := h.received.count
  cases TaskFileRecv.readBuffer_cases hs with
  | more f frame done step =>
    subst step
    have hsame : v.frames = s.view.frames := by
      rw [← hv]
      simp [View.frames, logView, view]
    apply hrest (by simp)
    · rw [hsame, ← hsaved]; simp
    · simpa using hcount
  | whole f frame done c' after handle step =>
    subst step
    obtain ⟨-, -, hquiet⟩ := TaskFileRecv.handle_quiet handle
    have hsnoc : v.frames = s.view.frames ++
        [f.rx.buf.take (sizeofNetCmd + f.rx.total.toNat)] := by
      rw [← hv]
      simp [View.frames, logView, view, hquiet]
    generalize hf : f.rx.buf.take (sizeofNetCmd + f.rx.total.toNat) = fr at hsnoc
    have hmem : fr ∈ v.frames := by rw [hsnoc]; simp
    have htake : f.rx.buf.take fr.length = fr := by
      rw [← hf, List.length_take, List.take_eq_take_iff]
      omega
    have hlen : (s.view.frames.flatMap savedOf).length + (savedOf fr).length ≤ src.length := by
      have := (h.saved_prefix hbuilt).length_le
      rw [hsnoc, List.flatMap_append, List.length_append] at this
      simpa using this
    obtain ⟨hsaved', hcount', hnew⟩ := TaskFileRecv.handle_saved htake (hframes fr hmem)
      (fun hcmd => h.file.files (by rw [hbuilt]; exact List.mem_append_left _ hmem) hcmd)
      (by simp only [hcount]; omega) (by simp only [hcount, hsaved]; omega) handle
    have hnewsaved : Act.savedBytes (f.asks.map .recv ++ .frame .receiver fr f.inbox :: after) =
        savedOf fr := by
      simp [hsaved']
    rw [hf] at hrest
    apply hrest
    · simp [hnew]
    · rw [Act.savedBytes_append, hnewsaved, hsaved, hsnoc]
      simp
    · simp only [hcount', hcount, Act.savedBytes_append, hnewsaved, List.length_append]
      omega
  | header r read head done len step =>
    subst step
    have hsame : v.frames = s.view.frames := by
      rw [← hv]
      simp only [View.frames, logView, view, Act.handled_append, Act.handled_recv]
      split <;> simp [Act.handled]
    by_cases hend : dwCmd r.rx.buf = moduleMsgDataEnd
    · -- the header of a DATAEND: all frames in front of it have been handled
      have hrx : v.rx = r.rx := by rw [← hv]; rfl
      have hat : AtHead netFormat s.client.mRecvBuffer.rx p :=
        (hp.holds rfl).1.resolve_right fun hb => absurd (hb.head.symm.trans head) (by decide)
      obtain ⟨bs, -, -, -, hcase⟩ := readHead_cases hat (by decide) s.down r₁
      rw [read] at hcase
      rcases hcase with ⟨hdone, -⟩ | ⟨-, hop, -⟩
      · exact absurd (hdone.symm.trans done) (by decide)
      · have hlen : netFormat.len (p ++ bs) = 0 := by
          rw [← hop.buf, netFormat.len_take]
          exact len
        rcases hplace with ⟨p', hp'⟩ | ⟨q, hq⟩
        · exact (hop.not_holds hlen (hrx ▸ (hp'.holds (by rw [← hv]; rfl)).1)).elim
        have hall := h.saved_of_stuck hy hframes hq (by rw [hrx]; exact hend)
        have hlog : Act.savedBytes s.clientActs = src := by rw [hsaved, ← hsame, hall]
        refine ⟨?_, ?_, ⟨y, hy, .inr ⟨q, hview ▸ hq⟩⟩, fun before after heq => ?_⟩
        · rw [hview, hall]
          simp [hend, hlog]
        · simpa [hend] using hcount
        · simp only [if_pos hend] at heq
          have hbefore : before = s.clientActs ++ [.recv r.ask] :=
            split_last (by simp [hnot]) (by simpa using heq)
          simp [hbefore, hlog]
    · rw [if_neg hend] at hrest ⊢
      apply hrest (by simp)
      · rw [hsame, ← hsaved]; simp
      · simpa using hcount

/-- Behind a DATAEND the client reads nothing more. -/
theorem Inv.clientRead_stuck (h : Inv src size s)
    (hs : s.client.readBuffer s.down r₁ r₂ outs₁ outs₂ = some g) {x q : List UInt8}
    (hsent : Act.sentBytes s.serverActs = x ++ s.down) (hq : Stuck netFormat size s.view x q) :
    Received src size ⟨s.server, g.task, g.inbox, up, s.serverActs, s.clientActs ++ g.acts⟩ := by
  have hr := TaskFileRecv.readBuffer_reads hs False s.clientActs
  obtain ⟨hin, hq'⟩ := hq.reads hr
  have hin' : g.inbox = s.down := hin
  have hframe : readFrame netFormat s.client.mRecvBuffer.rx s.down r₁ r₂ = _ :=
    hq.readFrame_eq s.down r₁ r₂
  have hplace : Stuck netFormat size
      (logView g.task.mRecvBuffer.rx g.inbox (s.clientActs ++ g.acts) true) x q :=
    ⟨hq'.bytes, hq'.frames, hq'.opened, hq'.len, hq'.cap, hq'.inside⟩
  cases TaskFileRecv.readBuffer_cases hs with
  | more f frame done step =>
    subst step
    refine ⟨?_, ?_, ⟨x, hin' ▸ hsent, .inr ⟨q, hplace⟩⟩, fun before after heq => ?_⟩
    · simpa [view, View.frames, logView] using h.received.saved
    · simpa using h.received.count
    · obtain ⟨rest, hacts⟩ := split_dataEnd (by simp) heq
      exact h.received.ends before rest hacts
  | whole f frame done =>
    rw [hframe] at frame
    rw [← frame] at done
    cases done
  | header r read head => exact absurd (head.symm.trans hq.opened.head) (by decide)

end ClientRead

/-- One callback of either end keeps the invariant. -/
theorem Inv.step (hn : src.length < 2147483648)
    (hcap : sizeofNetCmd + sizeofFileGet + fileMemoryLen ≤ size)
    (hsz : size < 9223372036854775808) (h : Inv src size s) {e : TransferEvent}
    (he : e.NoLateError) {s' : Transfer} (hs : s.step src e = some s') : Inv src size s' := by
  cases e with
  | serverWrite outs =>
    obtain ⟨w, hw, rfl⟩ := Option.map_eq_some_iff.mp hs
    have hstep : Sender.step ⟨s.server, s.serverActs⟩
        (.write (src.drop (s.server.mpFile.getD 0)) outs) =
          some ⟨w.task, s.serverActs ++ w.acts⟩ := by
      rw [Sender.step, hw]
      rfl
    have hlate : SenderEvent.NoLateError (.write (src.drop (s.server.mpFile.getD 0)) outs) := he
    refine ⟨Sender.flow_step h.flow hlate hstep, h.file.writeBuffer hn h.flow.inv hw, ?_⟩
    obtain ⟨hsaved, hcount, ⟨x, hsent, hplace⟩, hends⟩ := h.received
    refine ⟨hsaved, hcount, ⟨x, by simp [hsent], ?_⟩, hends⟩
    rcases hplace with ⟨hnot, p, hp⟩ | ⟨q, hq⟩
    · exact .inl ⟨hnot, p, hp.bytes, hp.frames, hp.open_, hp.header, hp.holds, hp.inside⟩
    · exact .inr ⟨q, hq.bytes, hq.frames, hq.opened, hq.len, hq.cap, hq.inside⟩
  | serverRead r₁ r₂ =>
    obtain rfl := Option.some.inj hs
    have hstep : Sender.step ⟨s.server, s.serverActs⟩ (.read TaskFileSend.control s.up r₁ r₂) =
        some ⟨_, _⟩ := rfl
    obtain ⟨-, hnone, -⟩ :=
      SendInv.readBuffer_flow (t := s.server) TaskFileSend.control s.up r₁ r₂
    have hlate : SenderEvent.NoLateError (.read TaskFileSend.control s.up r₁ r₂) := trivial
    refine ⟨Sender.flow_step h.flow hlate hstep,
      h.file.readBuffer TaskFileSend.control s.up r₁ r₂, ?_⟩
    obtain ⟨hsaved, hcount, ⟨x, hsent, hplace⟩, hends⟩ := h.received
    exact ⟨hsaved, hcount, ⟨x, by simpa [hnone] using hsent, hplace⟩, hends⟩
  | clientRead r₁ r₂ outs₁ outs₂ =>
    obtain ⟨g, hg, rfl⟩ := Option.map_eq_some_iff.mp hs
    refine ⟨h.flow, h.file, ?_⟩
    obtain ⟨x, hsent, ⟨hnot, p, hp⟩ | ⟨q, hq⟩⟩ := h.received.place
    · exact h.clientRead_synced hn hcap hsz hg hsent hnot hp
    · exact h.clientRead_stuck hg hsent hq

theorem inv_start (hn : src.length < 2147483648) {block : List UInt8}
    (hcap : sizeofNetCmd + sizeofFileGet + fileMemoryLen ≤ block.length)
    {outs : List SendResult} (hlate : NoLateError outs) (hs : start src block outs = some s) :
    Inv src block.length s := by
  obtain ⟨w, hw, rfl⟩ := Option.map_eq_some_iff.mp hs
  have h₀ : Sender.start true src.length outs = some ⟨w.task, w.acts⟩ := by
    rw [Sender.start, hw]
    rfl
  have hfresh : Fresh netFormat block.length
      (view ⟨w.task, { TaskFileRecv.new block with mwFile := true }, Act.sentBytes w.acts, [],
        w.acts, []⟩) :=
    ⟨rfl, rfl, Nat.le_trans (by decide) hcap, rfl, rfl, rfl, rfl⟩
  exact ⟨Sender.flow_start h₀ hlate, FileSent.setFetchFile hn hw, rfl, rfl,
    ⟨[], rfl, .inl ⟨List.not_mem_nil, [], hfresh.synced⟩⟩, fun before after heq => by
      simp at heq⟩

/-- At every moment of every run, for a file `src` of less than 2 GiB and a buffer
of the client in memory that holds a full block: the save file holds a beginning of `src`, as
long as `mRecvDataLen` says; the FILES frames built tile `src`; and when a DATAEND
is handled the save file is `src`. -/
theorem transfer_correct (hn : src.length < 2147483648) {block : List UInt8}
    (hcap : sizeofNetCmd + sizeofFileGet + fileMemoryLen ≤ block.length)
    (hsz : block.length < 9223372036854775808) {outs : List SendResult} (houts : NoError outs)
    {es : List TransferEvent} (hes : ∀ e ∈ es, e.Reliable) {s t : Transfer}
    (hstart : start src block outs = some s) (hrun : run (step src) s es = some t) :
    Act.savedBytes t.clientActs <+: src ∧
      t.client.mRecvDataLen = (Act.savedBytes t.clientActs).length ∧
      (∀ before f after, (Act.builtFrames t.serverActs).filter
          (fun f => dwCmd f = moduleMsgFiles) = before ++ f :: after →
        fileGetPos f = (before.map fileGetLength).sum ∧ 1 ≤ fileGetLength f ∧
          fileGetLength f ≤ fileMemoryLen ∧ dwLength f = fileGetLength f + sizeofFileGet) ∧
      ∀ before after, t.clientActs = before ++ .dataEnd :: after → Act.savedBytes before = src := by
  have hinv : Inv src block.length t := run_meets
    (fun _ _ _ hI he hs => Inv.step hn hcap hsz hI he hs)
    (inv_start hn hcap (.inl houts) hstart)
    (meets_of_forall (fun e he _ => (hes e he).noLateError) s) hrun
  refine ⟨?_, hinv.received.count, ?_, hinv.received.ends⟩
  · obtain ⟨rest, hbuilt⟩ := hinv.frames_built
    rw [hinv.received.saved]
    exact hinv.saved_prefix hbuilt
  · -- the FILES frames are the pieces of the tiling
    intro before f after hsplit
    obtain ⟨files, k, hbuilt, hfiles, htiles, -⟩ := hinv.file.frames
    rw [hbuilt, FileSent.filter_files hfiles] at hsplit
    subst hsplit
    have hf := hfiles f (by simp)
    refine ⟨?_, hf.pos, hf.block, hf.length⟩
    rw [htiles.pos_eq]
    congr 1
    exact List.map_congr_left fun a ha => (hfiles a (by simp [ha])).data

/-! ## A shorter receive buffer -/

section Cut

variable {k : Nat} {t u : Transfer}

/-- The transfer `s` is `u` with a shorter receive buffer. -/
structure Cut (k : Nat) (s u : Transfer) : Prop where
  server : s.server = u.server
  client : s.client = u.client.cut k
  down : s.down = u.down
  up : s.up = u.up
  serverActs : s.serverActs = u.serverActs
  clientActs : SameFlow s.clientActs u.clientActs

theorem cut_start {block outs} (h : start src block outs = some s) (more : List UInt8) :
    ∃ u, start src (block ++ more) outs = some u ∧ Cut block.length s u := by
  obtain ⟨w, hw, rfl⟩ := Option.map_eq_some_iff.mp h
  have hnew : TaskFileRecv.new block = (TaskFileRecv.new (block ++ more)).cut block.length := by
    simp [TaskFileRecv.new, TaskFileRecv.cut, FileProcBuffer.createMem, FileProcBuffer.reset,
      FileProcBuffer.empty]
  refine ⟨_, Option.map_eq_some_iff.mpr ⟨w, hw, rfl⟩, rfl, ?_, rfl, rfl, rfl, .refl _⟩
  simp only [hnew]
  rfl

/-- The steps of the program are steps with a larger buffer. -/
theorem Cut.step (hk : 32 ≤ k) (h : Cut k s u) {e : TransferEvent} (hs : step src s e = some t) :
    ∃ v, Transfer.step src u e = some v ∧ Cut k t v := by
  obtain ⟨hserver, hclient, hdown, hup, hacts, hflow⟩ := h
  cases e with
  | serverWrite outs =>
    obtain ⟨w, hw, rfl⟩ := Option.map_eq_some_iff.mp hs
    rw [hserver] at hw
    refine ⟨_, Option.map_eq_some_iff.mpr ⟨w, hw, rfl⟩, rfl, hclient, ?_, hup, ?_, hflow⟩
    · simp only [hdown]
    · simp only [hacts]
  | serverRead r₁ r₂ =>
    obtain rfl := Option.some.inj hs
    refine ⟨_, rfl, ?_, hclient, hdown, ?_, ?_, hflow⟩
    · simp only [hserver, hup]
    · simp only [hserver, hup]
    · simp only [hserver, hup, hacts]
  | clientRead r₁ r₂ outs₁ outs₂ =>
    obtain ⟨g, hg, rfl⟩ := Option.map_eq_some_iff.mp hs
    rw [hclient, hdown] at hg
    obtain ⟨q, hq, hcut⟩ := TaskFileRecv.readBuffer_cut hk hg
    refine ⟨_, Option.map_eq_some_iff.mpr ⟨q, hq, rfl⟩, hserver, hcut.task, hcut.inbox, ?_, hacts,
      hflow.append hcut.flow⟩
    simp only [hup, hcut.flow.sent]

theorem Cut.run (hk : 32 ≤ k) (h : Cut k s u) {es : List TransferEvent}
    (hrun : run (Transfer.step src) s es = some t) :
    ∃ v, run (Transfer.step src) u es = some v ∧ Cut k t v :=
  run_simulates (fun _ _ _ _ hR hs => hR.step hk hs) h hrun

end Cut

/-- A file of three bytes, up to the first DATAEND: LOGINRET and start control, then
the only block in two pieces. The buffer is zeroed memory, of which 1100 bytes are used. -/
theorem transfer_correct_wholeFile :
    ∃ es s t before after, start [7, 8, 9] (zeros 1048600) [.accepted 1048] = some s ∧
      run (step [7, 8, 9]) s es = some t ∧ t.clientActs = before ++ .dataEnd :: after ∧
      Act.savedBytes before = [7, 8, 9] ∧
      t.client.mRecvDataLen = (Act.savedBytes t.clientActs).length := by
  obtain ⟨es, hes⟩ : ∃ es : List TransferEvent, es = [.clientRead (.avail 4) .eagain [] [],
    .clientRead (.avail 99) (.avail 2000) [.accepted 16] [.accepted 47],
    .serverRead (.avail 99) (.avail 99), .serverWrite [.eagain, .accepted 20, .accepted 4],
    .serverWrite [.accepted 3], .clientRead (.avail 99) (.avail 99) [] [],
    .serverWrite [.accepted 16], .clientRead (.avail 99) (.avail 99) [] []] := ⟨_, rfl⟩
  have h : ((start [7, 8, 9] (zeros 1100) [.accepted 1048]).bind fun s =>
      (run (step [7, 8, 9]) s es).map fun t => (s, t)).any
        (fun x => decide (.dataEnd ∈ x.2.clientActs)) = true := by
    rw [hes]
    decide +kernel
  obtain ⟨⟨s, t⟩, hst, hend⟩ := (Option.any_eq_true _ _).mp h
  obtain ⟨s', hs, ht⟩ := Option.bind_eq_some_iff.mp hst
  obtain ⟨t', ht', heq⟩ := Option.map_eq_some_iff.mp ht
  obtain ⟨rfl, rfl⟩ := Prod.mk.inj heq
  -- the same run with the whole buffer
  obtain ⟨u, hu, hcut⟩ := cut_start hs (zeros 1047500)
  have hzeros : zeros 1100 ++ zeros 1047500 = zeros 1048600 := List.replicate_append_replicate
  rw [hzeros] at hu
  obtain ⟨v, hv, hcut'⟩ := hcut.run (by rw [length_zeros]; decide) ht'
  have hreliable : ∀ e ∈ es, e.Reliable := by
    intro e he
    simp only [hes, List.mem_cons, List.not_mem_nil, or_false] at he
    rcases he with rfl | rfl | rfl | rfl | rfl | rfl | rfl | rfl
    · exact ⟨by simp, by simp⟩
    · exact ⟨by simp, by simp⟩
    · trivial
    · show NoError [.eagain, .accepted 20, .accepted 4]
      decide
    · show NoError [.accepted 3]
      decide
    · exact ⟨by simp, by simp⟩
    · show NoError [.accepted 16]
      decide
    · exact ⟨by simp, by simp⟩
  obtain ⟨-, hcount, -, hall⟩ := transfer_correct (by decide) (by rw [length_zeros]; decide)
    (by rw [length_zeros]; decide) (by decide) hreliable hu hv
  obtain ⟨before, after, hacts⟩ := List.append_of_mem
    (hcut'.clientActs.ends.mp (of_decide_eq_true hend))
  exact ⟨es, u, v, before, after, hu, hv, hacts, hall before after hacts, hcount⟩

end Transfer

end FilesEvent
