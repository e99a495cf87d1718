import FilesEvent.Attributes
import FilesEvent.Lib.Decimal
import FilesEvent.LookupBounds
import FilesEvent.Serving

/-! The control that answers a LOGINRET, from the client's `sprintf` to the write
event of the session. Its names share parts, and each is looked up by the first
place where it stands in the text. -/

namespace FilesEvent
open Bytes Decimal Framing Memory Runs Search TaskFileRecv

/-! ## The text -/

/-- `szCmd`, up to its terminator. -/
def szCmd (mTotalLen : Int) : List UInt8 :=
  lit "<control name=\"start\" tmstart=\"0\" tmend=\"" ++ (decimal mTotalLen ++ lit "\" />")

theorem startControl_eq (n : Int) : startControl n = szCmd n ++ [0] := by
  have h0 : lit (toString (0 : Int)) = lit "0" := by decide
  have hn : lit (toString n) = decimal n := rfl
  rw [startControl, szCmd, h0, hn]
  rfl

theorem length_decimal_int {n : Int} (hmin : -2147483648 ≤ n) (hmax : n < 2147483648) :
    (decimal n).length ≤ 11 :=
  length_decimal_le (k := 10) (by decide) (by omega)

theorem notMem_decimal {n : Int} {c : UInt8} (h45 : c ≠ 45) (hc : isDigit c = false) :
    c ∉ decimal n := fun h => by
  rcases mem_decimal h with h | h
  · exact h45 h
  · rw [hc] at h
    cases h

theorem zero_notMem_szCmd (n : Int) : 0 ∉ szCmd n := by
  have h0 : (0 : UInt8) ∉ decimal n := notMem_decimal (by decide) (by decide)
  simp only [szCmd, List.mem_append, h0, false_or]
  decide

theorem length_startFrame {n : Int} (hmin : -2147483648 ≤ n) (hmax : n < 2147483648) :
    (startControl n).length ≤ 57 ∧ (startFrame n).length = 16 + (startControl n).length := by
  have h := length_decimal_int hmin hmax
  have h₁ : (lit "<control name=\"start\" tmstart=\"0\" tmend=\"").length = 41 := by decide
  have h₂ : (lit "\" />").length = 4 := by decide
  constructor
  · rw [startControl_eq, szCmd]
    simp only [List.length_append, h₁, h₂, List.length_singleton]
    omega
  · rw [startFrame, List.length_append, length_netCmd]

/-! ## The three lookups -/

section Lookups

variable {n : Int} {before name value after head : List UInt8}

/-- A name with '=' behind it is found first there, if it is in the text before. -/
theorem leftmost_of_strstr (h61 : 61 ∉ name) (hne : name ≠ [])
    (h : strstr name (before ++ name) = some before.length) (s : List UInt8) :
    Leftmost name (before ++ (name ++ 61 :: s)) before.length := by
  rw [← strstr_eq_some, ← List.append_assoc, strstr_append h61 hne, h]
  rfl

/-- The lookup of an attribute of the control, whatever is behind the message. -/
theorem lookup_szCmd (htext : szCmd n = before ++ (name ++ 61 :: 34 :: (value ++ 34 :: after)))
    (h61 : 61 ∉ name) (hne : name ≠ []) (h : strstr name (before ++ name) = some before.length)
    (h34 : 34 ∉ value) (hlen : value.length ≤ 256) (hhead : head.length = sizeofNetCmd)
    (rest : List UInt8) :
    protoGetValueByName (head ++ (szCmd n ++ 0 :: rest)) name (zeros 256) =
      some ⟨1, (value.length : Int) - 1, writeAt (zeros 256) 0 value⟩ := by
  have hfirst : Leftmost name (szCmd n) before.length := by
    rw [htext]
    exact leftmost_of_strstr h61 hne h _
  have htext' : szCmd n ++ 0 :: rest =
      before ++ (name ++ 61 :: 34 :: (value ++ 34 :: (after ++ 0 :: rest))) := by
    rw [htext]
    simp
  exact lookup_valued hhead (zero_notMem_szCmd n) hfirst htext' h34 (by rw [length_zeros]; exact hlen)

theorem lookup_name (hhead : head.length = sizeofNetCmd) (rest : List UInt8) :
    protoGetValueByName (head ++ (szCmd n ++ 0 :: rest)) (lit "name") (zeros 256) =
      some ⟨1, 4, writeAt (zeros 256) 0 (lit "start")⟩ := by
  have htext : szCmd n = lit "<control " ++ (lit "name" ++ 61 :: 34 :: (lit "start" ++
      34 :: (lit " tmstart=\"0\" tmend=\"" ++ (decimal n ++ lit "\" />")))) := by
    have hfront : lit "<control name=\"start\" tmstart=\"0\" tmend=\"" = lit "<control " ++
        (lit "name" ++ 61 :: 34 :: (lit "start" ++ 34 :: lit " tmstart=\"0\" tmend=\"")) := by decide
    simp only [szCmd, hfront, List.append_assoc, List.cons_append]
  exact lookup_szCmd htext (by decide) (by decide) (by decide) (by decide) (by decide) hhead rest

theorem lookup_tmstart (hhead : head.length = sizeofNetCmd) (rest : List UInt8) :
    protoGetValueByName (head ++ (szCmd n ++ 0 :: rest)) (lit "tmstart") (zeros 256) =
      some ⟨1, 0, writeAt (zeros 256) 0 (lit "0")⟩ := by
  have htext : szCmd n = lit "<control name=\"start\" " ++ (lit "tmstart" ++ 61 :: 34 ::
      (lit "0" ++ 34 :: (lit " tmend=\"" ++ (decimal n ++ lit "\" />")))) := by
    have hfront : lit "<control name=\"start\" tmstart=\"0\" tmend=\"" =
        lit "<control name=\"start\" " ++
          (lit "tmstart" ++ 61 :: 34 :: (lit "0" ++ 34 :: lit " tmend=\"")) := by decide
    simp only [szCmd, hfront, List.append_assoc, List.cons_append]
  exact lookup_szCmd htext (by decide) (by decide) (by decide) (by decide) (by decide) hhead rest

theorem lookup_tmend (hmin : -2147483648 ≤ n) (hmax : n < 2147483648)
    (hhead : head.length = sizeofNetCmd) (rest : List UInt8) :
    protoGetValueByName (head ++ (szCmd n ++ 0 :: rest)) (lit "tmend") (zeros 256) =
      some ⟨1, ((decimal n).length : Int) - 1, writeAt (zeros 256) 0 (decimal n)⟩ := by
  have htext : szCmd n = lit "<control name=\"start\" tmstart=\"0\" " ++ (lit "tmend" ++
      61 :: 34 :: (decimal n ++ 34 :: lit " />")) := by
    have hfront : lit "<control name=\"start\" tmstart=\"0\" tmend=\"" =
        lit "<control name=\"start\" tmstart=\"0\" " ++ (lit "tmend" ++ [61, 34]) := by decide
    have hend : lit "\" />" = 34 :: lit " />" := by decide
    rw [szCmd, hfront, hend, List.append_assoc, List.append_assoc]
    rfl
  have hlen := length_decimal_int hmin hmax
  exact lookup_szCmd htext (by decide) (by decide) (by decide)
    (notMem_decimal (by decide) (by decide)) (by omega) hhead rest

end Lookups

/-! ## The control that the server decodes -/

/-- The arrays that the lookups leave hold the values as C strings. -/
theorem cString_acValue {v : List UInt8} (h0 : 0 ∉ v) (hlen : v.length < 256) :
    cString (writeAt (zeros 256) 0 v) = some v := by
  rw [writeAt_zero (by rw [length_zeros]; omega), zeros, List.drop_replicate,
    show 256 - v.length = 255 - v.length + 1 by omega, List.replicate_succ, cString_append h0]

theorem atoi_acValue {n : Int} (hlen : (decimal n).length < 256) :
    atoi (writeAt (zeros 256) 0 (decimal n)) = n := by
  rw [writeAt_zero (by rw [length_zeros]; omega), zeros, List.drop_replicate,
    show 256 - (decimal n).length = 255 - (decimal n).length + 1 by omega, List.replicate_succ]
  refine atoi_decimal n fun c hc => ?_
  obtain rfl := Option.some.inj hc
  rfl

/-- `strcmp(acValue, "start") == 0`. -/
theorem strcmp_start :
    (writeAt (zeros 256) 0 (lit "start")).take 6 = lit "start" ++ [0] := by
  rw [writeAt_zero (by rw [length_zeros]; decide)]
  rfl

section Decoding

variable {n : Int}

theorem startFrame_append (n : Int) (rest : List UInt8) :
    startFrame n ++ rest =
      netCmd moduleMsgControlPlay 0 (startControl n).length ++ (szCmd n ++ 0 :: rest) := by
  rw [startFrame, startControl_eq]
  simp

theorem dwCmd_startFrame (n : Int) (rest : List UInt8) :
    dwCmd (startFrame n ++ rest) = moduleMsgControlPlay := by
  rw [startFrame_append, dwCmd_netCmd]
  rfl

/-- The control is "start" with 0 and the length, whatever is behind the message. -/
theorem control_startFrame (hmin : -2147483648 ≤ n) (hmax : n < 2147483648) (rest : List UInt8) :
    TaskFileSend.control (startFrame n ++ rest) =
      .start (writeAt (zeros 256) 0 (lit "0")) (writeAt (zeros 256) 0 (decimal n)) := by
  have hhead := length_netCmd moduleMsgControlPlay 0 (startControl n).length
  simp only [TaskFileSend.control, dwCmd_startFrame, ne_eq, not_true, if_false]
  rw [startFrame_append]
  simp only [lookup_name hhead rest, lookup_tmstart hhead rest, lookup_tmend hmin hmax hhead rest,
    if_pos strcmp_start]

/-- What the three lookups read and give on memory that begins with the message. -/
theorem lookups_startFrame (hmin : -2147483648 ≤ n) (hmax : n < 2147483648) {mem : Nat → UInt8}
    (hm : Shows mem (startFrame n)) :
    ∃ name tmstart tmend, TaskFileSend.lookups mem (startFrame n).length =
        some [name, tmstart, tmend] ∧
      (∀ r ∈ [name, tmstart, tmend], r.InBounds (startFrame n).length) ∧
      cString name.pValueOut = some (lit "start") ∧ atoi tmstart.pValueOut = 0 ∧
      atoi tmend.pValueOut = n := by
  have hhead := length_netCmd moduleMsgControlPlay 0 (startControl n).length
  have hframe : startFrame n = netCmd moduleMsgControlPlay 0 (startControl n).length ++
      (szCmd n ++ [0]) := by rw [← startFrame_append, List.append_nil]
  have h256 := length_zeros 256
  obtain ⟨name, hname, hin, hname'⟩ :=
    exists_lookupMem hm h256 (hframe ▸ lookup_name hhead [])
  obtain ⟨tmstart, htmstart, hin', htmstart'⟩ :=
    exists_lookupMem hm h256 (hframe ▸ lookup_tmstart hhead [])
  obtain ⟨tmend, htmend, hin'', htmend'⟩ :=
    exists_lookupMem hm h256 (hframe ▸ lookup_tmend hmin hmax hhead [])
  have hcmd : dwCmd (window mem 0 sizeofNetCmd) = moduleMsgControlPlay := by
    rw [hm.window (by rw [(length_startFrame hmin hmax).2]; exact Nat.le_add_right 16 _),
      List.drop_zero, dwCmd_take _ (by decide), ← List.append_nil (startFrame n), dwCmd_startFrame]
  have hlen := length_decimal_int hmin hmax
  have hstart : name.pValueOut.take 6 = lit "start" ++ [0] := by
    rw [hname']
    exact strcmp_start
  refine ⟨name, tmstart, tmend, ?_, by simpa using ⟨hin, hin', hin''⟩, ?_, ?_, ?_⟩
  · simp only [TaskFileSend.lookups, hcmd, ne_eq, not_true, if_false, hname, htmstart, htmend,
      Option.bind_eq_bind, Option.bind_some, if_pos hstart]
  · rw [hname']
    exact cString_acValue (by decide) (by decide)
  · rw [htmstart']
    exact atoi_acValue (n := 0) (by decide)
  · rw [htmend']
    exact atoi_acValue (by omega)

end Decoding

/-! ## The round trip -/

/-- A read callback of the task that completes the message. -/
theorem readBuffer_startFrame {n : Int} (hmin : -2147483648 ≤ n) (hmax : n < 2147483648)
    {t : TaskFileSend} {inbox : List UInt8} {r₁ r₂ : RecvResult} {g : TaskRead}
    (hg : t.readBuffer TaskFileSend.control inbox r₁ r₂ = g)
    (hframe : Act.framesOf .sender g.acts = [startFrame n]) :
    0 < g.ret ∧ g.arm = true ∧ Act.start ∈ g.acts ∧ g.task.mRecvBuffer = .reset := by
  cases TaskFileSend.readBuffer_cases hg with
  | more f _ _ step =>
    rw [step] at hframe
    simp at hframe
  | whole f frame done c control step =>
    have hquiet : Act.framesOf .sender ({ t with mRecvBuffer := .ofRx f.rx }.handle c).2.1 = [] := by
      cases c <;> rfl
    rw [step, Act.framesOf_append, Act.framesOf_map_recv, Act.framesOf_frame, hquiet] at hframe
    have hbuf : f.rx.buf = startFrame n ++ f.rx.buf.drop (sizeofNetCmd + f.rx.total.toNat) := by
      rw [← List.singleton_inj.mp hframe, List.take_append_drop]
    rw [hbuf, control_startFrame hmin hmax] at control
    subst control
    have hpos : 0 < f.ret := frame ▸ readFrame_ret_pos (frame ▸ done)
    rw [step]
    exact ⟨hpos, rfl, by simp [TaskFileSend.handle], rfl⟩

/-- The client's control for `mTotalLen` arrives: it fits the arrays, it is sent as
it is printed, its lookups read nothing but the message and give back what was
printed, and the session that has read it is armed to write. -/
structure RoundTrip (mTotalLen : Int) : Prop where
  szCmd : (startControl mTotalLen).length ≤ 100
  cmmd : (startFrame mTotalLen).length ≤ cmdLen
  sent : ∀ (c c' : TaskFileRecv) (outs₁ outs₂ : List SendResult) (acts : List Act),
    dwCmd c.mRecvBuffer.mem = moduleMsgLoginRet → c.handle outs₁ outs₂ = some (c', acts) →
      c'.mTotalLen = mTotalLen → NoError outs₁ → NoError outs₂ →
      Act.sentBytes acts = startFrame mTotalLen
  decoded : ∀ mem : Nat → UInt8, Shows mem (startFrame mTotalLen) →
    ∃ fuel name tmstart tmend, TaskFileSend.lookups mem fuel = some [name, tmstart, tmend] ∧
      (∀ r ∈ [name, tmstart, tmend], r.InBounds (startFrame mTotalLen).length) ∧
      cString name.pValueOut = some (lit "start") ∧ atoi tmstart.pValueOut = 0 ∧
      atoi tmend.pValueOut = mTotalLen
  armed : ∀ (mReadBuff stream : List UInt8) (es : List ConnEvent) (c c' : Conn) (t : TaskFileSend)
    (access : List UInt8 → Bool) (env : ReadEnv),
    run Conn.step (Conn.onAccept mReadBuff stream) es = some c → c.sess.mTaskBase = some t →
      c.step (.onRead (handlers access) env) = some c' →
      Act.framesOf .sender c'.acts = Act.framesOf .sender c.acts ++ [startFrame mTotalLen] →
      c'.alive = true ∧ c'.sess.mWriting = true ∧ c'.sess.mWriteEvent.pending = true ∧
        ∃ t', c'.sess.mTaskBase = some t' ∧ t'.mRecvBuffer = .reset

/-- A session whose task completes the message goes on, and is armed to write. -/
theorem armed_startFrame {n : Int} (hmin : -2147483648 ≤ n) (hmax : n < 2147483648)
    {c c' : Conn} {t : TaskFileSend} {access : List UInt8 → Bool} {env : ReadEnv}
    (hok : c.sess.WriteEventOk) (ht : c.sess.mTaskBase = some t)
    (h : c.step (.onRead (handlers access) env) = some c')
    (hframe : Act.framesOf .sender c'.acts = Act.framesOf .sender c.acts ++ [startFrame n]) :
    c'.alive = true ∧ c'.sess.mWriting = true ∧ c'.sess.mWriteEvent.pending = true ∧
      ∃ t', c'.sess.mTaskBase = some t' ∧ t'.mRecvBuffer = .reset := by
  obtain ⟨-, hok', hserves⟩ := Conn.step_serves hok h
  cases hserves with
  | request _ _ _ task => cases task.symm.trans ht
  | create _ _ _ _ task => cases task.symm.trans ht
  | read _ _ t₀ g task read task' writing acts =>
    obtain rfl := Option.some.inj (task.symm.trans ht)
    rw [acts, Act.framesOf_append, List.append_cancel_left_eq] at hframe
    obtain ⟨hret, harm, -, hreset⟩ := readBuffer_startFrame hmin hmax read hframe
    have hwriting : c'.sess.mWriting = true := by rw [writing, harm, Bool.or_true]
    refine ⟨?_, hwriting, hok' ▸ hwriting, g.task, task', hreset⟩
    obtain ⟨-, ⟨_, _, g', heq, -, hg', rfl⟩ | ⟨_, _, _, _, _, heq, -⟩⟩ := Conn.step_cases h
    · obtain ⟨rfl, rfl⟩ := ConnEvent.onRead.inj heq
      rcases Session.readBuffer_cases hg' with ⟨t', r, ht', -, hr, rfl⟩ | ⟨hnone, -⟩
      · obtain rfl := Option.some.inj ((Session.mTaskBase_fired c.sess .read ▸ ht').symm.trans ht)
        rw [← hr.symm.trans read] at hret
        exact decide_eq_true (Int.ne_of_gt hret)
      · cases hnone.symm.trans ht
    · cases heq

/-- Every length that an `int` holds makes the round trip. -/
theorem roundTrip {n : Int} (hmin : -2147483648 ≤ n) (hmax : n < 2147483648) : RoundTrip n where
  szCmd := by
    have := (length_startFrame hmin hmax).1
    omega
  cmmd := by
    obtain ⟨hlen, hframe⟩ := length_startFrame hmin hmax
    rw [hframe, cmdLen]
    omega
  sent c c' outs₁ outs₂ acts hcmd h hn h₁ h₂ := by
    have hpos : ∀ k, 0 < (startControl k).length := fun k => by
      rw [startControl_eq, List.length_append, List.length_singleton]
      omega
    simp only [handle, if_pos hcmd, Option.bind_eq_bind, Option.bind_eq_some_iff,
      Option.some.injEq, Prod.mk.injEq] at h
    obtain ⟨o, ho, rfl, rfl⟩ := h
    have hzero : asWord 0 = 0 := by decide
    rw [sendCmd_sentBytes (hpos _) ho h₁ h₂, hzero, ← hn, startFrame]
  decoded mem hm := ⟨_, lookups_startFrame hmin hmax hm⟩
  armed mReadBuff stream es c c' t access env hrun ht h hframe := by
    have hinv := run_invariant (I := Conn.ServeInv) (fun _ _ _ hI hs => hI.step hs)
      (Conn.serveInv_onAccept mReadBuff stream) hrun
    exact armed_startFrame hmin hmax hinv.event ht h hframe

/-- The smallest length. -/
theorem roundTrip_min : RoundTrip (-2147483648) := roundTrip (by decide) (by decide)

end FilesEvent
