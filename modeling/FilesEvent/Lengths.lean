import FilesEvent.Transfer
import FilesEvent.EmptyFrames

/-! The length counters of a transfer: `st_size` is stored into an `unsigned int`
on the server, goes over the wire in 32 bits and ends in an `int` on the client.
What the counters say does not depend on whether a frame fits the client's
buffer, so the runs of the program follow those with a larger buffer. -/

namespace FilesEvent
open Bytes Framing Runs Tiling

theorem loginRetTmEnd_loginRetFrame (t : Nat) : loginRetTmEnd (loginRetFrame t) = t % 4294967296 := by
  have h : (loginRetFrame t).drop 28 = le32 t ++ zeros 1016 := by
    simp [loginRetFrame, netCmd, loginRet, le32]
  rw [loginRetTmEnd, h, rd32_le32]

namespace TaskFileRecv

variable {c d : TaskFileRecv} {outs₁ outs₂ : List SendResult} {acts : List Act}

/-- Only a LOGINRET sets the length of the file. -/
theorem handle_mTotalLen (h : c.handle outs₁ outs₂ = some (d, acts)) :
    d.mTotalLen = if dwCmd c.mRecvBuffer.mem = moduleMsgLoginRet then
      asInt (loginRetTmEnd c.mRecvBuffer.mem) else c.mTotalLen := by
  unfold handle at h
  simp only at h
  split at h
  · rename_i hret
    simp only [Option.bind_eq_bind, Option.bind_eq_some_iff, Option.some.injEq,
      Prod.mk.injEq] at h
    obtain ⟨o, -, rfl, -⟩ := h
    rw [if_pos hret]
  · rename_i hret
    rw [if_neg hret]
    split at h
    · split at h
      · simp only [Option.some.injEq, Prod.mk.injEq] at h
        obtain ⟨rfl, -⟩ := h
        rfl
      · simp only [Option.some.injEq, Prod.mk.injEq] at h
        obtain ⟨rfl, -⟩ := h
        rfl
    · cases h

end TaskFileRecv

namespace Transfer

variable {src : List UInt8} {size k : Nat} {s t u : Transfer}

/-! ## Exact lengths -/

/-- The FILES frames built. -/
def filesFrames (t : Transfer) : List (List UInt8) :=
  (Act.builtFrames t.serverActs).filter fun f => dwCmd f = moduleMsgFiles

/-- The file data in the frames that the client has handled. -/
def arrived (t : Transfer) : List UInt8 :=
  ((Act.builtFrames t.serverActs).take (Act.handled t.clientActs).length).flatMap savedOf

/-- Every length says what it stands for: the one in the LOGINRET, `mFileLen`,
`mHasReadLen`, the `dwPos` of each FILES frame, the `nLength`s in front of a
DATAEND, and on the client `mTotalLen` and `mRecvDataLen`. -/
structure Exact (src : List UInt8) (t : Transfer) : Prop where
  announced : ∀ f ∈ Act.builtFrames t.serverActs, dwCmd f = moduleMsgLoginRet →
    loginRetTmEnd f = src.length
  mFileLen : t.server.mFileLen = src.length
  mHasReadLen : t.server.mHasReadLen = (t.filesFrames.map fileGetLength).sum
  dwPos : ∀ before f after, t.filesFrames = before ++ f :: after →
    fileGetPos f = (before.flatMap fileData).length ∧ fileData f <+: src.drop (fileGetPos f)
  nLength : ∀ before f after, Act.builtFrames t.serverActs = before ++ f :: after →
    dwCmd f = moduleMsgDataEnd →
      ((before.filter fun f => dwCmd f = moduleMsgFiles).map fileGetLength).sum = src.length
  mTotalLen : Act.handled t.clientActs ≠ [] → t.client.mTotalLen = src.length
  mRecvDataLen : t.client.mRecvDataLen = t.arrived.length

/-- Exact lengths at every moment of every run of a transfer of any file of `n`
bytes in which no send of the server fails late. -/
def LengthsExact (n : Nat) : Prop :=
  ∀ src block outs es s t, src.length = n → block.length = TaskFileRecv.memLen →
    NoLateError outs → (∀ e ∈ es, TransferEvent.NoLateError e) → start src block outs = some s →
    run (step src) s es = some t → Exact src t

/-- What the lengths say does not depend on the size of the buffer. -/
theorem Exact.of_cut (h : Cut k s u) (hu : Exact src u) : Exact src s := by
  obtain ⟨hserver, hclient, -, -, hacts, ⟨-, hhandled, -⟩⟩ := h
  have hfiles : s.filesFrames = u.filesFrames := by rw [filesFrames, filesFrames, hacts]
  have harrived : s.arrived = u.arrived := by rw [arrived, arrived, hacts, hhandled]
  constructor
  · rw [hacts]; exact hu.announced
  · rw [hserver]; exact hu.mFileLen
  · rw [hserver, hfiles]; exact hu.mHasReadLen
  · rw [hfiles]; exact hu.dwPos
  · rw [hacts]; exact hu.nLength
  · intro hne
    rw [hclient]
    apply hu.mTotalLen
    intro hnil
    rw [hnil, List.length_nil] at hhandled
    exact hne (List.length_eq_zero_iff.mp hhandled)
  · rw [hclient, harrived]; exact hu.mRecvDataLen

/-! ## Files of less than 2 GiB -/

/-- The LOGINRET is the first frame and the only one of its kind. -/
theorem Inv.eq_loginRetFrame (h : Inv src size s) {f : List UInt8}
    (hf : f ∈ Act.builtFrames s.serverActs) (hcmd : dwCmd f = moduleMsgLoginRet) :
    f = loginRetFrame src.length := by
  rcases h.file.mem_cases hf with hf | hf | rfl
  · exact hf
  · cases hf.cmd.symm.trans hcmd
  · cases hcmd

theorem asInt_loginRetTmEnd (hn : src.length < 2147483648) :
    asInt (loginRetTmEnd (loginRetFrame src.length)) = src.length := by
  rw [loginRetTmEnd_loginRetFrame, Nat.mod_eq_of_lt (by omega), asInt_of_lt hn]

/-- Once the client has handled a frame it knows the length of the file. -/
def Knows (src : List UInt8) (s : Transfer) : Prop :=
  Act.handled s.clientActs ≠ [] → s.client.mTotalLen = src.length

theorem Knows.step (hn : src.length < 2147483648) (h : Knows src s) {e : TransferEvent}
    (hs : s.step src e = some t) (hinv : Inv src size t) : Knows src t := by
  cases e with
  | serverWrite outs =>
    obtain ⟨w, -, rfl⟩ := Option.map_eq_some_iff.mp hs
    exact h
  | serverRead r₁ r₂ =>
    obtain rfl := Option.some.inj hs
    exact h
  | clientRead r₁ r₂ outs₁ outs₂ =>
    obtain ⟨g, hg, rfl⟩ := Option.map_eq_some_iff.mp hs
    cases TaskFileRecv.readBuffer_cases hg with
    | more f frame done step =>
      subst step
      intro hne
      exact h (by simpa using hne)
    | whole f frame done c' after handle step =>
      subst step
      intro _
      obtain ⟨-, -, hquiet⟩ := TaskFileRecv.handle_quiet handle
      obtain ⟨rest, hbuilt⟩ := hinv.frames_built
      have htotal := TaskFileRecv.handle_mTotalLen handle
      generalize hfr : f.rx.buf.take (sizeofNetCmd + f.rx.total.toNat) = fr at hbuilt hinv
      simp only [view, View.frames, logView, Act.handled_append, Act.handled_map_recv,
        List.nil_append, Act.handled_frame, hquiet, List.map_append, List.map_cons,
        List.map_nil] at hbuilt
      have hmem : fr ∈ Act.builtFrames s.serverActs := by rw [hbuilt]; simp
      have h16 : 16 ≤ fr.length := (hinv.file.isFrame fr hmem).1
      have hcmd : dwCmd f.rx.buf = dwCmd fr := by
        rw [← hfr]
        exact (dwCmd_take _ (by have : sizeofNetCmd = 16 := rfl; omega)).symm
      have hmem' : ({ s.client with mRecvBuffer := s.client.mRecvBuffer.setRx f.rx } :
          TaskFileRecv).mRecvBuffer.mem = f.rx.buf := rfl
      rw [hmem', hcmd] at htotal
      by_cases hret : dwCmd fr = moduleMsgLoginRet
      · have hlogin := hinv.eq_loginRetFrame hmem hret
        have hlen : 32 ≤ sizeofNetCmd + f.rx.total.toNat := by
          have hlen := congrArg List.length hfr
          rw [hlogin, length_loginRetFrame, List.length_take] at hlen
          omega
        rw [if_pos hret, ← loginRetTmEnd_take _ hlen, hfr, hlogin, asInt_loginRetTmEnd hn] at htotal
        exact htotal
      · rw [if_neg hret] at htotal
        refine htotal.trans (h fun hnil => ?_)
        -- the first frame of all is the LOGINRET
        obtain ⟨files, k, hframes, -⟩ := hinv.file.frames
        rw [hnil, List.map_nil, List.nil_append, List.cons_append, hframes,
          List.cons.injEq] at hbuilt
        apply hret
        rw [← hbuilt.1, ← List.append_nil (loginRetFrame src.length), dwCmd_loginRetFrame]
    | header r read head done len step =>
      subst step
      intro hne
      apply h
      intro hnil
      apply hne
      simp only [Act.handled_append, hnil, Act.handled_recv, List.nil_append]
      split <;> rfl

theorem length_flatMap_savedOf {ds : List (List UInt8)}
    (h : ∀ f ∈ ds, dwCmd f = moduleMsgFiles → FilesFrame f) :
    (ds.flatMap savedOf).length =
      ((ds.filter fun f => dwCmd f = moduleMsgFiles).map fileGetLength).sum := by
  induction ds with
  | nil => rfl
  | cons f ds ih =>
    have ih := ih fun g hg => h g (List.mem_cons_of_mem f hg)
    rw [List.flatMap_cons, List.length_append, ih, savedOf]
    by_cases hcmd : dwCmd f = moduleMsgFiles
    · rw [if_pos hcmd, List.filter_cons_of_pos (by simpa using hcmd), List.map_cons, List.sum_cons,
        (h f List.mem_cons_self hcmd).data]
    · rw [if_neg hcmd, List.filter_cons_of_neg (by simpa using hcmd), List.length_nil, Nat.zero_add]

/-- The invariant of the transfer makes every length exact. -/
theorem Inv.exact (hn : src.length < 2147483648) (h : Inv src size t) (hk : Knows src t) :
    Exact src t := by
  obtain ⟨files, k, hbuilt, hfiles, htiles, -⟩ := h.file.frames
  have hff : t.filesFrames = files := by rw [filesFrames, hbuilt, FileSent.filter_files hfiles]
  have hsum : ∀ fs : List (List UInt8), (∀ f ∈ fs, FilesFrame f) →
      (fs.map fun f => (fileData f).length) = fs.map fileGetLength :=
    fun fs hfs => List.map_congr_left fun f hf => (hfs f hf).data
  constructor
  · intro f hf hcmd
    rw [h.eq_loginRetFrame hf hcmd, loginRetTmEnd_loginRetFrame, Nat.mod_eq_of_lt (by omega)]
  · exact h.file.len
  · have := htiles.hi_eq
    rw [hsum files hfiles, Nat.zero_add] at this
    rw [hff, this]
  · intro before f after heq
    rw [hff] at heq
    rw [heq] at htiles
    obtain ⟨mid, -, hpos, hdata, -⟩ := tiles_append.mp htiles
    refine ⟨?_, by rw [hpos]; exact hdata⟩
    rw [htiles.pos_eq, List.length_flatMap]
  · intro before f after heq hcmd
    have hall := h.file.saved_before_dataEnd heq hcmd
    rw [← length_flatMap_savedOf, hall]
    intro g hg hgcmd
    exact h.file.files (by rw [heq]; exact List.mem_append_left _ hg) hgcmd
  · exact hk
  · obtain ⟨rest, hframes⟩ := h.frames_built
    have hlen : (Act.handled t.clientActs).length = t.view.frames.length := by
      simp [view, View.frames, logView]
    rw [h.received.count, h.received.saved, arrived, hframes, hlen, List.take_left]

theorem lengthsExact_of_lt {n : Nat} (hn : n < 2147483648) : LengthsExact n := by
  intro src block outs es s t hlen hblock hlate hes hstart hrun
  subst hlen
  -- the run with room for a full block behind the headers
  obtain ⟨u, hustart, hcut⟩ := cut_start hstart (zeros 8)
  have hmem : TaskFileRecv.memLen = 1048592 := rfl
  have hsize : (block ++ zeros 8).length = 1048600 := by
    rw [List.length_append, length_zeros, hblock, hmem]
  obtain ⟨v, hurun, hcut'⟩ := hcut.run (by omega) hrun
  have hcap : sizeofNetCmd + sizeofFileGet + fileMemoryLen ≤ (block ++ zeros 8).length := by
    rw [hsize]; decide
  have hv := run_meets (C := fun _ e => e ∈ es)
    (I := fun v => Inv src (block ++ zeros 8).length v ∧ Knows src v)
    (fun v e v' hI he hs =>
      have hinv := hI.1.step hn hcap (by rw [hsize]; decide) (hes e he) hs
      ⟨hinv, hI.2.step hn hs hinv⟩)
    ⟨inv_start hn hcap hlate hustart, fun hne => ?_⟩ (meets_of_forall (fun _ he _ => he) _) hurun
  · exact Exact.of_cut hcut' (hv.1.exact hn hv.2)
  · obtain ⟨w, -, rfl⟩ := Option.map_eq_some_iff.mp hustart
    exact absurd rfl hne

/-! ## Larger files -/

/-- A client that reads the LOGINRET of a file of 2 GiB or more, but less than 4
GiB, in one callback: the length is negative in its `int`. -/
theorem clientRead_negative {n : Nat} (hn : 2147483648 ≤ n) (hlt : n < 4294967296)
    {c : TaskFileRecv} (hc : AtHead netFormat c.mRecvBuffer.rx [])
    (hcap : 1048 ≤ c.mRecvBuffer.rx.buf.length)
    (hsz : c.mRecvBuffer.rx.buf.length < 9223372036854775808) {outs₁ outs₂ : List SendResult}
    {g : RecvStep}
    (h : c.readBuffer (loginRetFrame n) (.avail 1048) (.avail 1048) outs₁ outs₂ = some g) :
    Act.handled g.acts ≠ [] ∧ g.task.mTotalLen = (n : Int) - 4294967296 := by
  have hlen : netFormat.len (loginRetFrame n) = 1032 := by
    have := (isFrame_loginRetFrame n).2
    rw [length_loginRetFrame, netFormat_h] at this
    omega
  have hfit : Fits netFormat c.mRecvBuffer.rx.buf.length (loginRetFrame n) := by
    rw [Fits, hlen, netFormat_h]
    omega
  have hle : (loginRetFrame n).length ≤ 1048 := Nat.le_of_eq (length_loginRetFrame n)
  have hin : loginRetFrame n = loginRetFrame n ++ [] := (List.append_nil _).symm
  obtain ⟨hdone, -, -, htake⟩ := readFrame_whole hc hsz (isFrame_loginRetFrame n) hfit hle hle
  rw [← hin] at hdone
  rw [← hin, length_loginRetFrame] at htake
  cases TaskFileRecv.readBuffer_cases h with
  | more f frame done step =>
    rw [frame, done] at hdone
    cases hdone
  | whole f frame done c' after handle step =>
    subst step
    rw [frame] at htake
    have htotal := TaskFileRecv.handle_mTotalLen handle
    have hmem : ({ c with mRecvBuffer := c.mRecvBuffer.setRx f.rx } :
        TaskFileRecv).mRecvBuffer.mem = f.rx.buf := rfl
    have hcmd : dwCmd f.rx.buf = moduleMsgLoginRet := by
      rw [← dwCmd_take f.rx.buf (n := 1048) (by decide), htake,
        ← List.append_nil (loginRetFrame n), dwCmd_loginRetFrame]
    rw [hmem, if_pos hcmd, ← loginRetTmEnd_take f.rx.buf (n := 1048) (by decide), htake,
      loginRetTmEnd_loginRetFrame, Nat.mod_eq_of_lt hlt, asInt_neg hn hlt] at htotal
    exact ⟨by simp, htotal⟩
  | header r read head done len step =>
    obtain ⟨bs, -, -, -, ⟨hd, -⟩ | ⟨-, ho, -⟩⟩ :=
      readHead_cases hc (by decide) (loginRetFrame n) (.avail 1048)
    · rw [read, done] at hd
      cases hd
    · -- the header announces a payload
      rw [List.nil_append] at ho
      have h0 : netFormat.len bs = 0 := by
        rw [read] at ho
        rw [← ho.buf, netFormat.len_take]
        exact len
      rw [readFrame_of_head_done head (by rw [read]; exact done) rfl,
        readPack_of_empty ho h0] at hdone
      cases hdone

/-- The run that reads the LOGINRET. -/
theorem run_clientRead_negative {n : Nat} (hn : 2147483648 ≤ n) (hlt : n < 4294967296)
    (hdown : s.down = loginRetFrame n) (hc : AtHead netFormat s.client.mRecvBuffer.rx [])
    (hcap : 1048 ≤ s.client.mRecvBuffer.rx.buf.length)
    (hsz : s.client.mRecvBuffer.rx.buf.length < 9223372036854775808) :
    ∃ e t, e.NoLateError ∧ run (step src) s [e] = some t ∧ Act.handled t.clientActs ≠ [] ∧
      t.client.mTotalLen = (n : Int) - 4294967296 := by
  obtain ⟨o₁, o₂, ho⟩ :=
    TaskFileRecv.readBuffer_total s.client s.down (.avail 1048) (.avail 1048)
  obtain ⟨g, hg⟩ := Option.isSome_iff_exists.mp ho
  obtain ⟨hhandled, htotal⟩ := clientRead_negative hn hlt hc hcap hsz (hdown ▸ hg)
  refine ⟨.clientRead (.avail 1048) (.avail 1048) o₁ o₂, _, trivial,
    run_cons.mpr ⟨_, Option.map_eq_some_iff.mpr ⟨g, hg, rfl⟩, rfl⟩, ?_, htotal⟩
  rw [Act.handled_append]
  exact List.append_ne_nil_of_right_ne_nil _ hhandled

theorem lt_of_lengthsExact {n : Nat} (h : LengthsExact n) : n < 2147483648 := by
  refine Nat.lt_of_not_le fun hge => ?_
  obtain ⟨w, hw, h0⟩ := SendInv.setFetchFile_accepted true n
  obtain ⟨hlen, -, -, -, hflow⟩ := SendInv.setFetchFile_built hw
  have hlate : NoLateError [.accepted 1048] := .inl (by decide)
  obtain ⟨s, hs⟩ : ∃ s : Transfer, s = ⟨w.task, { TaskFileRecv.new (zeros TaskFileRecv.memLen) with
    mwFile := true }, Act.sentBytes w.acts, [], w.acts, []⟩ := ⟨_, rfl⟩
  have hstart : start (zeros n) (zeros TaskFileRecv.memLen) [.accepted 1048] = some s := by
    rw [start, length_zeros, hw, hs]
    rfl
  -- `mFileLen` is the size modulo 2 ^ 32
  have hfile := (h _ _ _ [] _ _ (length_zeros n) (length_zeros _) hlate
    (fun e he => by cases he) hstart rfl).mFileLen
  rw [length_zeros, hs] at hfile
  simp only at hfile
  have hlt : n < 4294967296 := by omega
  have hdown : s.down = loginRetFrame n := by
    have := hflow hlate
    rw [TaskFileSend.inFlight, if_pos h0, List.append_nil, Nat.mod_eq_of_lt hlt] at this
    rw [hs]
    exact this.symm
  have hbuf : s.client.mRecvBuffer.rx.buf = zeros TaskFileRecv.memLen := by rw [hs]; rfl
  have hat : AtHead netFormat s.client.mRecvBuffer.rx [] :=
    ⟨by rw [hs]; rfl, by rw [hs]; rfl, by decide, by rw [hbuf, length_zeros]; decide,
      List.take_zero⟩
  obtain ⟨e, t, he, hrun, hhandled, htotal⟩ := run_clientRead_negative hge hlt hdown hat
    (by rw [hbuf, length_zeros]; decide) (by rw [hbuf, length_zeros]; decide)
  have hexact := (h _ _ _ [e] _ _ (length_zeros n) (length_zeros _) hlate
    (fun e' he' => by rw [List.mem_singleton.mp he']; exact he) hstart hrun).mTotalLen hhandled
  rw [length_zeros, htotal] at hexact
  omega

/-- Every length is exact in every run of a transfer of `n` bytes if and only if
`n` is less than 2 GiB. -/
theorem lengthsExact_iff (n : Nat) : LengthsExact n ↔ n < 2147483648 :=
  ⟨lt_of_lengthsExact, lengthsExact_of_lt⟩

/-- A file of 2 GiB. -/
theorem not_lengthsExact_2GiB : ¬ LengthsExact 2147483648 := fun h =>
  absurd (lt_of_lengthsExact h) (by decide)

end Transfer

end FilesEvent
