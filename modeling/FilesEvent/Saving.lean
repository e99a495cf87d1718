import FilesEvent.EmptyFrames

/-! What the client writes to its save file. `recvPackData` takes the number of
bytes from the `FILE_GET` of a FILES frame, an `int` that the server chooses apart
from the length in the header. If it is larger than the rest of the frame,
`fwrite` goes on into what earlier frames left in the buffer. -/

namespace FilesEvent
open Bytes Framing Runs

namespace Act

/-- The frame being handled after `acts`, when it was `f` before. -/
def lastFrame : List UInt8 → List Act → List UInt8
  | f, [] => f
  | _, .frame _ g _ :: acts => lastFrame g acts
  | f, _ :: acts => lastFrame f acts

/-- The writes to the save file, each with the frame being handled. -/
def fwrites : List UInt8 → List Act → List (List UInt8 × List UInt8)
  | _, [] => []
  | _, .frame _ g _ :: acts => fwrites g acts
  | f, .saved bs :: acts => (f, bs) :: fwrites f acts
  | f, _ :: acts => fwrites f acts

theorem fwrites_append (f : List UInt8) (a b : List Act) :
    fwrites f (a ++ b) = fwrites f a ++ fwrites (lastFrame f a) b := by
  induction a generalizing f with
  | nil => rfl
  | cons x a ih => cases x <;> simp [fwrites, lastFrame, ih]

@[simp] theorem fwrites_map_recv (f : List UInt8) (l : List Ask) (b : List Act) :
    fwrites f (l.map recv ++ b) = fwrites f b := by
  induction l with
  | nil => rfl
  | cons x l ih => exact ih

theorem fwrites_of_isSend {acts : List Act} (h : ∀ a ∈ acts, a.IsSend) (f : List UInt8) :
    fwrites f acts = [] := by
  induction acts generalizing f with
  | nil => rfl
  | cons a acts ih =>
    have ha := h a (by simp)
    have := ih fun b hb => h b (by simp [hb])
    cases a <;> first | exact this f | cases ha

theorem overrun_notMem_of_isSend {acts : List Act} (h : ∀ a ∈ acts, a.IsSend) :
    .overrun ∉ acts := fun ho => h _ ho

end Act

/-- Each `fwrite` gets payload bytes of the frame it is made for: it reads inside
the buffer, and inside the `dwLength - sizeof(FILE_GET)` bytes of file data. -/
structure SavesPayload (acts : List Act) : Prop where
  payload : ∀ w ∈ Act.fwrites [] acts,
    sizeofNetCmd + sizeofFileGet + w.2.length ≤ w.1.length ∧ w.2 <+: fileData w.1
  inside : .overrun ∉ acts

/-- The two lengths of a FILES frame agree: `0 ≤ nLength ≤ dwLength - sizeof(FILE_GET)`. -/
def LengthsAgree (f : List UInt8) : Prop :=
  sizeofFileGet ≤ dwLength f ∧ 0 ≤ asInt (fileGetLength f) ∧
    asInt (fileGetLength f) + sizeofFileGet ≤ dwLength f

instance (f : List UInt8) : Decidable (LengthsAgree f) :=
  inferInstanceAs (Decidable (_ ∧ _ ∧ _))

theorem asInt_bounds {n : Nat} (h : n < 4294967296) :
    -2147483648 ≤ asInt n ∧ asInt n < 2147483648 := by
  rcases Nat.lt_or_ge n 2147483648 with hlt | hge
  · rw [asInt_of_lt hlt]
    omega
  · rw [asInt_neg hge h]
    omega

theorem fileGetLength_lt (f : List UInt8) : fileGetLength f < 4294967296 := rd32_lt _

/-! ## One frame -/

namespace TaskFileRecv

variable {c c' : TaskFileRecv} {outs₁ outs₂ : List SendResult} {after : List Act} {f : List UInt8}

/-- What handling the frame `f` writes to the save file. -/
def fwritesOf (c : TaskFileRecv) (f : List UInt8) : List (List UInt8 × List UInt8) :=
  if dwCmd f = moduleMsgFiles then
    [(f, (c.mRecvBuffer.mem.drop 24).take (asSize (asInt (fileGetLength c.mRecvBuffer.mem))))]
  else []

theorem handle_fwrites (hf : 8 ≤ f.length) (htake : c.mRecvBuffer.mem.take f.length = f)
    (h : c.handle outs₁ outs₂ = some (c', after)) :
    Act.fwrites f after = c.fwritesOf f ∧ (.overrun ∈ after ↔ dwCmd f = moduleMsgFiles ∧
      c.mRecvBuffer.mem.length < 24 + asSize (asInt (fileGetLength c.mRecvBuffer.mem))) := by
  have hcmd : dwCmd c.mRecvBuffer.mem = dwCmd f := by
    rw [← dwCmd_take c.mRecvBuffer.mem hf, htake]
  unfold handle at h
  simp only [hcmd] at h
  split at h
  · rename_i hlogin
    have hfiles : dwCmd f ≠ moduleMsgFiles := by rw [hlogin]; decide
    obtain ⟨o, ho, heq⟩ := Option.bind_eq_some_iff.mp h
    obtain ⟨-, rfl⟩ := Prod.mk.inj (Option.some.inj heq)
    have hsend := sendCmd_isSend ho
    refine ⟨?_, iff_of_false (Act.overrun_notMem_of_isSend hsend) fun hand => hfiles hand.1⟩
    rw [fwritesOf, if_neg hfiles]
    exact Act.fwrites_of_isSend hsend f
  · split at h
    · split at h
      · rename_i hfiles
        obtain ⟨-, rfl⟩ := Prod.mk.inj (Option.some.inj h)
        rw [fwritesOf, if_pos hfiles]
        split
        · rename_i hle
          exact ⟨rfl, by simp [Nat.not_lt.mpr hle]⟩
        · rename_i hlt
          exact ⟨rfl, by simp [hfiles, Nat.lt_of_not_le hlt]⟩
      · rename_i hfiles
        obtain ⟨-, rfl⟩ := Prod.mk.inj (Option.some.inj h)
        rw [fwritesOf, if_neg hfiles]
        exact ⟨rfl, by simp [hfiles]⟩
    · cases h

/-- Handling a frame saves nothing but its data exactly if its lengths agree. -/
theorem handle_saves_iff (hf : netFormat.IsFrame f)
    (htake : c.mRecvBuffer.mem.take f.length = f) (h : c.handle outs₁ outs₂ = some (c', after)) :
    ((∀ w ∈ Act.fwrites f after,
        sizeofNetCmd + sizeofFileGet + w.2.length ≤ w.1.length ∧ w.2 <+: fileData w.1) ∧
      .overrun ∉ after) ↔ (dwCmd f = moduleMsgFiles → LengthsAgree f) := by
  have hlen := length_of_isFrame hf
  have h16 : sizeofNetCmd = 16 := rfl
  have h8 : sizeofFileGet = 8 := rfl
  obtain ⟨hw, ho⟩ := handle_fwrites (by omega) htake h
  rw [hw, ho, fwritesOf]
  by_cases hfiles : dwCmd f = moduleMsgFiles
  · generalize hmem : c.mRecvBuffer.mem = m at *
    have hfm : f.length ≤ m.length := by
      rw [← htake, List.length_take]
      exact Nat.min_le_right _ _
    simp only [hfiles, if_true, List.forall_mem_singleton, true_and, forall_const, Nat.not_lt]
    constructor
    · rintro ⟨⟨hle, -⟩, hin⟩
      rw [List.length_take, List.length_drop, Nat.min_eq_left (by omega)] at hle
      have hget : fileGetLength m = fileGetLength f := by
        rw [← fileGetLength_take m (n := f.length) (by omega), htake]
      rw [hget] at hle
      have hint := asInt_bounds (fileGetLength_lt f)
      have hlt : dwLength f < 4294967296 := rd32_lt _
      unfold LengthsAgree
      generalize asInt (fileGetLength f) = n at *
      have hpos : 0 ≤ n := by
        refine Int.not_lt.mp fun hneg => ?_
        have := asSize_neg hneg hint.1
        omega
      rw [asSize_of_nonneg hpos (by omega)] at hle
      exact ⟨by omega, hpos, by omega⟩
    · rintro ⟨hge, hpos, hle⟩
      have hget : fileGetLength m = fileGetLength f := by
        rw [← fileGetLength_take m (n := f.length) (by omega), htake]
      have hint := asInt_bounds (fileGetLength_lt f)
      rw [hget]
      generalize asInt (fileGetLength f) = n at *
      rw [asSize_of_nonneg hpos (by omega)]
      refine ⟨⟨?_, ?_⟩, by omega⟩
      · rw [List.length_take]
        omega
      · have hdata := congrArg (List.drop 24) htake
        rw [List.drop_take] at hdata
        show _ <+: f.drop 24
        rw [← hdata]
        exact List.take_prefix_take_left (by omega)
  · simp [hfiles]

end TaskFileRecv

/-! ## A whole stream -/

theorem SavesPayload.append_iff {acts after : List Act} :
    SavesPayload (acts ++ after) ↔ SavesPayload acts ∧
      (∀ w ∈ Act.fwrites (Act.lastFrame [] acts) after,
        sizeofNetCmd + sizeofFileGet + w.2.length ≤ w.1.length ∧ w.2 <+: fileData w.1) ∧
      .overrun ∉ after := by
  constructor
  · rintro ⟨hw, ho⟩
    rw [Act.fwrites_append] at hw
    simp only [List.mem_append, not_or] at hw ho
    exact ⟨⟨fun w h => hw w (.inl h), ho.1⟩, fun w h => hw w (.inr h), ho.2⟩
  · rintro ⟨⟨hw, ho⟩, hw', ho'⟩
    refine ⟨fun w h => ?_, fun h => (List.mem_append.mp h).elim ho ho'⟩
    rw [Act.fwrites_append] at h
    exact (List.mem_append.mp h).elim (hw w) (hw' w)

namespace Endpoint

open TaskFileRecv (receiver memLen)

variable {fs : List (List UInt8)} {block : List UInt8} {s t : Endpoint TaskFileRecv}
  {es : List ClientEnv}

/-- A client whose save file is open, at the start of a stream of frames. -/
def saving (block : List UInt8) (fs : List (List UInt8)) : Endpoint TaskFileRecv :=
  client true block fs

/-- Only data of their own frames has been saved if and only if the lengths of
the FILES frames handled so far agree. -/
def SavesAgreeing (s : Endpoint TaskFileRecv) : Prop :=
  SavesPayload s.acts ↔ ∀ f ∈ (receiver.view s).frames, dwCmd f = moduleMsgFiles → LengthsAgree f

theorem SavesAgreeing.step (hs : SavesAgreeing s) {e : ClientEnv}
    (ht : ∀ f ∈ (receiver.view t).frames, netFormat.IsFrame f)
    (h : TaskFileRecv.callback s e = some t) : SavesAgreeing t := by
  simp only [TaskFileRecv.callback] at h
  split at h
  · obtain ⟨g, hg, rfl⟩ := Option.map_eq_some_iff.mp h
    have hquiet : ∀ after, g.acts = after → Act.handled after = [] →
        (∀ f, Act.fwrites f after = []) → .overrun ∉ after →
        SavesAgreeing ⟨g.task, g.inbox, s.acts ++ g.acts, decide (g.ret ≠ 0)⟩ := by
      rintro after rfl hh hw ho
      simp only [SavesAgreeing, receiver, View.frames, logView, SavesPayload.append_iff,
        Act.handled_append, hh, hw, ho, List.append_nil] at hs ⊢
      simpa using hs
    cases TaskFileRecv.readBuffer_cases hg with
    | more f frame done step =>
      refine hquiet (f.asks.map .recv) (by rw [step]) (Act.handled_map_recv _) (fun g => ?_)
        (by simp)
      rw [← List.append_nil (f.asks.map Act.recv), Act.fwrites_map_recv]
      rfl
    | whole f frame done c' after handle step =>
      generalize hw : f.rx.buf.take (sizeofNetCmd + f.rx.total.toNat) = w at *
      have hacts : g.acts = f.asks.map .recv ++ .frame .receiver w f.inbox :: after := by rw [step]
      have hafter := TaskFileRecv.handle_quiet handle
      have hframes : (receiver.view ⟨g.task, g.inbox, s.acts ++ g.acts,
          decide (g.ret ≠ 0)⟩).frames = (receiver.view s).frames ++ [w] := by
        simp [receiver, View.frames, logView, hacts, hafter.2.2]
      have htake : ({ s.obj with mRecvBuffer := s.obj.mRecvBuffer.setRx f.rx } :
          TaskFileRecv).mRecvBuffer.mem.take w.length = w := by
        show f.rx.buf.take w.length = w
        rw [← hw, List.length_take, ← List.take_eq_take_min]
      have hiff := TaskFileRecv.handle_saves_iff (ht w (by rw [hframes]; simp)) htake handle
      rw [SavesAgreeing, hframes]
      simp only [List.forall_mem_append, List.forall_mem_singleton, SavesPayload.append_iff]
      refine and_congr hs ?_
      rw [← hiff, hacts, Act.fwrites_map_recv]
      simp [Act.fwrites]
    | header r read head done len step =>
      refine hquiet _ (by rw [step]) ?_ (fun g => ?_) ?_ <;> split <;>
        simp [Act.handled, Act.fwrites]
  · cases h

theorem savesAgreeing_run (hfs : ∀ f ∈ fs, netFormat.IsFrame f ∧ Fits netFormat memLen f)
    (hblock : block.length = memLen)
    (hrun : run TaskFileRecv.callback (saving block fs) es = some t) :
    (∃ p, InStream netFormat memLen fs (receiver.view t) p) ∧ SavesAgreeing t := by
  refine run_invariant (I := fun u => (∃ p, InStream netFormat memLen fs (receiver.view u) p) ∧
    SavesAgreeing u) ?_ ⟨⟨[], (fresh_client true fs hblock).inStream rfl⟩, ?_⟩ hrun
  · rintro u e u' ⟨⟨p, hp⟩, hu⟩ he
    obtain ⟨-, ⟨p', hp'⟩, -⟩ := receiver.inStream_step (by decide) hfs trivial hp he
    exact ⟨⟨p', hp'⟩, hu.step (fun f hf => (hp'.synced.frames f hf).1) he⟩
  · exact iff_of_true ⟨fun w hw => absurd hw List.not_mem_nil, List.not_mem_nil⟩
      fun f hf => absurd hf List.not_mem_nil

theorem fits_of_dwLength (hfs : ∀ f ∈ fs, netFormat.IsFrame f)
    (hpos : ∀ f ∈ fs, 1 ≤ dwLength f) (hlen : ∀ f ∈ fs, f.length ≤ memLen) :
    ∀ f ∈ fs, netFormat.IsFrame f ∧ Fits netFormat memLen f := by
  intro f hf
  have h := (hfs f hf).2
  have h' := length_of_isFrame (hfs f hf)
  have h16 : sizeofNetCmd = 16 := rfl
  have := hpos f hf
  have := hlen f hf
  rw [netFormat_h] at h
  exact ⟨hfs f hf, by omega, by rw [netFormat_h]; omega⟩

theorem lengthsAgree_of_saves (hfs : ∀ f ∈ fs, netFormat.IsFrame f)
    (hpos : ∀ f ∈ fs, 1 ≤ dwLength f) (hlen : ∀ f ∈ fs, f.length ≤ memLen)
    (hblock : block.length = memLen)
    (hall : ∀ es t, run TaskFileRecv.callback (saving block fs) es = some t →
      SavesPayload t.acts) :
    ∀ f ∈ fs, dwCmd f = moduleMsgFiles → LengthsAgree f := by
  have hfits := fits_of_dwLength hfs hpos hlen
  -- the run that reads the whole stream
  obtain ⟨es, t, hrun, hframes⟩ := receiver.reads_all (by decide) hfits
    TaskFileRecv.total_receiver _ _ rfl trivial rfl ⟨[], (fresh_client true fs hblock).inStream rfl⟩
  have hagree := (savesAgreeing_run hfits hblock hrun).2.mp (hall es t hrun)
  rwa [hframes] at hagree

theorem saves_of_lengthsAgree (hfs : ∀ f ∈ fs, netFormat.IsFrame f)
    (hpos : ∀ f ∈ fs, 1 ≤ dwLength f) (hlen : ∀ f ∈ fs, f.length ≤ memLen)
    (hblock : block.length = memLen)
    (hagree : ∀ f ∈ fs, dwCmd f = moduleMsgFiles → LengthsAgree f)
    (hrun : run TaskFileRecv.callback (saving block fs) es = some t) : SavesPayload t.acts := by
  obtain ⟨⟨p, hp⟩, hsaves⟩ := savesAgreeing_run (fits_of_dwLength hfs hpos hlen) hblock hrun
  obtain ⟨rest, hrest, -⟩ := hp.split hfs
  exact hsaves.mpr fun f hf => hagree f (by rw [hrest]; exact List.mem_append_left _ hf)

/-- However the stream is split into results of `recv`, nothing but file data of
the frame at hand is saved, if and only if the two lengths of every FILES frame agree. -/
theorem savesPayload_iff (hfs : ∀ f ∈ fs, netFormat.IsFrame f) (hpos : ∀ f ∈ fs, 1 ≤ dwLength f)
    (hlen : ∀ f ∈ fs, f.length ≤ memLen) (hblock : block.length = memLen) :
    (∀ es t, run TaskFileRecv.callback (saving block fs) es = some t → SavesPayload t.acts) ↔
      ∀ f ∈ fs, dwCmd f = moduleMsgFiles → LengthsAgree f :=
  ⟨lengthsAgree_of_saves hfs hpos hlen hblock,
    fun hagree _ _ hrun => saves_of_lengthsAgree hfs hpos hlen hblock hagree hrun⟩

theorem savesPayload_iff_block :
    (∀ es t, run TaskFileRecv.callback
        (saving (zeros memLen) [filesHead 0 4 ++ lit "data"]) es = some t → SavesPayload t.acts) ↔
      ∀ f ∈ [filesHead 0 4 ++ lit "data"], dwCmd f = moduleMsgFiles → LengthsAgree f :=
  savesPayload_iff (by decide) (by decide) (by decide) (length_zeros memLen)

/-- A frame of four bytes of data, and one of a single byte that announces four. -/
def staleData : List (List UInt8) :=
  [filesHead 0 4 ++ lit "data", netCmd moduleMsgFiles 0 9 ++ fileGet 4 4 ++ lit "x"]

/-- Three bytes of the first frame are saved again with the second. -/
theorem not_savesPayload_staleData :
    ¬ ∀ es t, run TaskFileRecv.callback (saving (zeros memLen) staleData) es = some t →
      SavesPayload t.acts := by
  intro hall
  have hagree := lengthsAgree_of_saves (by decide) (by decide) (by decide) (length_zeros memLen)
    hall _ (List.mem_cons_of_mem _ List.mem_cons_self) (by decide)
  exact absurd hagree (by decide)

end Endpoint

end FilesEvent
