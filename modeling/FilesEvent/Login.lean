import FilesEvent.ServerStream

/-! The login request, from the client's `setFetchAndSaveFile` to the task that
the session creates for it. The path is searched as text together with the rest
of the message, so the words `play path=` inside it can be taken for a request
of another kind; and the lookup reports one byte less than it copies, so a path
of a single byte counts as empty. -/

namespace FilesEvent
open Bytes Framing Runs

/-! ## The message -/

namespace TaskFileRecv

@[simp] theorem length_fetchRequest (p : List UInt8) : (fetchRequest p).length = p.length + 14 := by
  have h₁ : (lit "<get path=\"").length = 11 := rfl
  have h₂ : (lit "\"/>").length = 3 := rfl
  simp only [fetchRequest, List.length_append, h₁, h₂]
  omega

@[simp] theorem length_loginFrame (p : List UInt8) : (loginFrame p).length = p.length + 30 := by
  simp only [loginFrame, List.length_append, length_netCmd, length_fetchRequest]
  omega

theorem isFrame_loginFrame {p : List UInt8} (hp : p.length ≤ 255) :
    netFormat.IsFrame (loginFrame p) :=
  isFrame_netCmd moduleMsgLogin 0 (by rw [length_fetchRequest]; omega)

theorem fits_loginFrame {p : List UInt8} (hp : p.length ≤ 255) :
    Fits netFormat cmdLen (loginFrame p) := by
  have hlen : dwLength (loginFrame p) = p.length + 14 := by
    rw [loginFrame, dwLength_netCmd, length_fetchRequest]; omega
  have hmax : maxPayload = 1484 := rfl
  exact netFormat_fits (by omega) (by omega)

theorem fetchRequest_eq (p : List UInt8) :
    fetchRequest p = lit "<get path=" ++ 34 :: (p ++ 34 :: lit "/>") := by
  have h : lit "<get path=\"" = lit "<get path=" ++ [34] := rfl
  have h' : lit "\"/>" = 34 :: lit "/>" := rfl
  simp [fetchRequest, h, h']

theorem zero_not_mem_fetchRequest {p : List UInt8} (hp : 0 ∉ p) : 0 ∉ fetchRequest p := by
  have h₁ : 0 ∉ lit "<get path=" := by decide
  have h₂ : 0 ∉ lit "/>" := by decide
  simp [fetchRequest_eq, hp, h₁, h₂]

/-- Without an error both parts of a command go out. -/
theorem sendCmd_sentBytes {cmd : Nat} {index : Int} {lpData : List UInt8}
    {outs₁ outs₂ : List SendResult} {o : CmdOut} (hpos : 0 < lpData.length)
    (h : sendCmd cmd index lpData outs₁ outs₂ = some o) (h₁ : NoError outs₁) (h₂ : NoError outs₂) :
    Act.sentBytes o.acts = netCmd cmd (asWord index) lpData.length ++ lpData := by
  have hsent : ∀ calls : List SendCall,
      Act.sentBytes (calls.map fun c => Act.sent cmd c.bytes) = calls.flatMap SendCall.bytes := by
    intro calls
    simp [Act.sentBytes, List.flatMap_map]
  have hall : ∀ (data : List UInt8) (outs : List SendResult) (o : SendOut), 0 < data.length →
      NoError outs → sendEx data data.length outs = some o →
      o.ret = data.length ∧ o.bytes = data := by
    intro data outs o hdata hno ho
    rcases sendExLoop_spec (Nat.le_refl _) hdata (Nat.le_refl _) ho with ⟨-, hret, hby⟩ | ⟨herr, -⟩
    · exact ⟨hret, by simpa using hby⟩
    · exact absurd hno herr
  simp only [sendCmd, Option.bind_eq_bind, Option.bind_eq_some_iff] at h
  obtain ⟨o₁, ho₁, h⟩ := h
  obtain ⟨hret₁, hby₁⟩ := hall _ _ _ (by simp) h₁ ho₁
  rw [if_neg (by omega), if_neg (by omega)] at h
  obtain ⟨o₂, ho₂, h⟩ := Option.bind_eq_some_iff.mp h
  obtain ⟨-, hby₂⟩ := hall _ _ _ hpos h₂ ho₂
  obtain rfl := Option.some.inj h
  rw [Act.sentBytes_append, hsent, hsent]
  exact congr (congrArg _ hby₁) hby₂

/-- What the client sends for `p` when no send fails. -/
theorem setFetchAndSaveFile_sentBytes {c c' : TaskFileRecv} {p : List UInt8} {opens : Bool}
    {outs₁ outs₂ : List SendResult} {acts : List Act} (hc : c.mwFile = false)
    (h : c.setFetchAndSaveFile p opens outs₁ outs₂ = some (c', acts))
    (h₁ : NoError outs₁) (h₂ : NoError outs₂) : Act.sentBytes acts = loginFrame p := by
  simp only [setFetchAndSaveFile, hc, Bool.false_eq_true, ↓reduceIte, Option.bind_eq_bind,
    Option.bind_eq_some_iff, Option.some.injEq, Prod.mk.injEq] at h
  obtain ⟨o, ho, -, rfl⟩ := h
  exact sendCmd_sentBytes (by simp) ho h₁ h₂

end TaskFileRecv

/-! ## The lookups in the message -/

/-- A path that the session finds in the request: it has two bytes at least, and
if the words `play path=` occur in it, one or two bytes follow them where they
occur first. -/
structure Fetchable (p : List UInt8) : Prop where
  two : 2 ≤ p.length
  play : ∀ k, strstr (lit "play path") p = some k → p[k + 9]? = some 61 →
    p.length = k + 11 ∨ p.length = k + 12

namespace Session
open TaskFileRecv

/-- Where a name without quotes is found in the request. -/
theorem strstr_fetchRequest {name : List UInt8} (hq : 34 ∉ name) (hne : name ≠ [])
    (hback : strstr name (lit "/>") = none) (p : List UInt8) :
    strstr name (fetchRequest p) =
      (strstr name (lit "<get path=")).or ((strstr name p).map (· + 11)) := by
  have hlen : (lit "<get path=").length = 10 := rfl
  rw [fetchRequest_eq, strstr_append hq hne, strstr_append hq hne, hback, hlen]
  simp

section

variable {head p : List UInt8} {m : Nat}

/-- The buffer behind the opening words of the request. -/
theorem fetchRequest_drop (j : Nat) (rest : List UInt8) :
    (fetchRequest p ++ rest).drop (j + 11) = (p ++ 34 :: (lit "/>" ++ rest)).drop j := by
  have hlen : (lit "<get path=").length = 10 := rfl
  have h : fetchRequest p ++ rest = (lit "<get path=" ++ [34]) ++ (p ++ 34 :: (lit "/>" ++ rest)) := by
    simp [fetchRequest_eq]
  rw [h, Nat.add_comm j, ← List.drop_drop, List.drop_left' (by simp [hlen])]

/-- The first lookup goes through harmlessly, or it decides the kind of request. -/
theorem playPath_lookup (hhead : head.length = sizeofNetCmd) (hq : 34 ∉ p) (h0 : 0 ∉ p)
    (hlen : p.length ≤ 255) :
    ((∀ k, strstr (lit "play path") p = some k → p[k + 9]? = some 61 →
        p.length = k + 11 ∨ p.length = k + 12) ∧
      ∃ ret len v, len ≤ 0 ∧ v.length ≤ 1 ∧
        protoGetValueByName (head ++ (fetchRequest p ++ zeros (m + 1))) (lit "play path")
          (zeros 256) = some ⟨ret, len, writeAt (zeros 256) 0 v⟩) ∨
    ((∃ k, strstr (lit "play path") p = some k ∧ p[k + 9]? = some 61 ∧
        ¬ (p.length = k + 11 ∨ p.length = k + 12)) ∧
      ∀ l, protoGetValueByName (head ++ (fetchRequest p ++ zeros (m + 1))) (lit "play path")
        (zeros 256) = some l → 0 < l.pValueLen) := by
  have hplay : (lit "play path").length = 9 := rfl
  have hfind : strstr (lit "play path") (fetchRequest p) =
      (strstr (lit "play path") p).map (· + 11) := by
    rw [strstr_fetchRequest (by decide) (by decide) (by decide)]
    rfl
  have hnil : writeAt (zeros 256) 0 [] = zeros 256 := writeAt_nil _ _
  rw [show zeros (m + 1) = 0 :: zeros m from rfl,
    protoGetValueByName_append hhead (zero_not_mem_fetchRequest h0), hfind]
  cases hk : strstr (lit "play path") p with
  | none => exact .inl ⟨nofun, 0, 0, [], Int.le_refl 0, by simp, by rw [hnil]; rfl⟩
  | some k =>
    have hle := strstr_le hk
    rw [hplay] at hle
    simp only [Option.map_some, hplay, Option.some.injEq, forall_eq', exists_eq_left']
    have hget : (fetchRequest p ++ 0 :: zeros m)[k + 11 + 9]? =
        (p ++ 34 :: (lit "/>" ++ 0 :: zeros m))[k + 9]? := by
      have := fetchRequest_drop (p := p) (k + 9) (0 :: zeros m)
      have := congrArg (fun l : List UInt8 => l[0]?) this
      simpa [List.getElem?_drop, Nat.add_right_comm] using this
    rw [hget]
    by_cases hlt : k + 9 < p.length
    · rw [List.getElem?_append_left hlt]
      by_cases heq : p[k + 9]? = some 61
      · rw [if_pos heq, show k + 11 + 9 + 2 = k + 11 + 11 by omega, fetchRequest_drop]
        by_cases hend : k + 11 ≤ p.length
        · -- the path goes on behind the quote that the lookup skips
          have hi : quoteIndex ((p ++ 34 :: (lit "/>" ++ 0 :: zeros m)).drop (k + 11)) =
              some (p.length - (k + 11)) := by
            rw [List.drop_append_of_le_length hend, quoteIndex_append, List.length_drop]
            exact fun h => hq (List.mem_of_mem_drop h)
          rw [hi, Option.bind_some, if_pos (by rw [length_zeros]; omega)]
          by_cases hshort : p.length = k + 11 ∨ p.length = k + 12
          · refine .inl ⟨fun _ => hshort, 1, _, _, ?_, ?_, rfl⟩
            · omega
            · rw [List.length_take]; omega
          · refine .inr ⟨⟨heq, hshort⟩, fun l hl => ?_⟩
            obtain rfl := Option.some.inj hl
            simp only
            omega
        · -- nothing follows the sign: no quote is left in the buffer
          have hi : quoteIndex ((p ++ 34 :: (lit "/>" ++ 0 :: zeros m)).drop (k + 11)) = none := by
            have hdrop : (p ++ 34 :: (lit "/>" ++ 0 :: zeros m)).drop (k + 11) =
                lit "/>" ++ 0 :: zeros m := by
              have hsplit : p ++ 34 :: (lit "/>" ++ 0 :: zeros m) =
                  (p ++ [34]) ++ (lit "/>" ++ 0 :: zeros m) := by simp
              rw [hsplit, List.drop_left' (by simp; omega)]
            rw [hdrop]
            refine quoteIndex_eq_none fun h => ?_
            rcases List.mem_append.mp h with h | h
            · exact absurd h (by decide)
            · rcases List.mem_cons.mp h with h | h
              · exact absurd h (by decide)
              · exact absurd (List.eq_of_mem_replicate h) (by decide)
          rw [hi]
          exact .inr ⟨⟨heq, by omega⟩, fun l hl => by cases hl⟩
      · rw [if_neg heq]
        exact .inl ⟨fun h => absurd h heq, 0, 0, [], Int.le_refl 0, by simp, by rw [hnil]⟩
    · have hend : p.length = k + 9 := by omega
      have hquote : (p ++ 34 :: (lit "/>" ++ 0 :: zeros m))[k + 9]? = some 34 := by
        rw [← hend]; simp
      have hout : p[k + 9]? = none := by simp [hend]
      rw [hquote, hout, if_neg (by decide)]
      exact .inl ⟨nofun, 0, 0, [], Int.le_refl 0, by simp, by rw [hnil]⟩

/-- The second lookup copies the path. -/
theorem getPath_lookup (hhead : head.length = sizeofNetCmd) (hq : 34 ∉ p) (h0 : 0 ∉ p)
    (hlen : p.length ≤ 255) (out : List UInt8) (hout : out.length = 256) :
    protoGetValueByName (head ++ (fetchRequest p ++ zeros (m + 1))) (lit "get path") out =
      some ⟨1, (p.length : Int) - 1, writeAt out 0 p⟩ := by
  have hfind : strstr (lit "get path") (fetchRequest p) = some 1 := by
    rw [strstr_fetchRequest (by decide) (by decide) (by decide),
      show strstr (lit "get path") (lit "<get path=") = some 1 by decide]
    rfl
  have hget : (fetchRequest p ++ 0 :: zeros m)[1 + (lit "get path").length]? = some 61 := by
    rw [fetchRequest_eq]
    rfl
  have hdrop := fetchRequest_drop (p := p) 0 (0 :: zeros m)
  rw [show zeros (m + 1) = 0 :: zeros m from rfl,
    protoGetValueByName_append hhead (zero_not_mem_fetchRequest h0), hfind]
  simp only
  rw [if_pos hget, show 1 + (lit "get path").length + 2 = 0 + 11 from rfl, hdrop, List.drop_zero,
    quoteIndex_append hq, Option.bind_some, if_pos (by omega), List.take_left]

/-- On the login message the session fetches the path exactly if it is fetchable. -/
theorem judge_fetchRequest {access : List UInt8 → Bool} (hhead : head.length = sizeofNetCmd)
    (hq : 34 ∉ p) (h0 : 0 ∉ p) (hlen : p.length ≤ 255) (hacc : access p = true) :
    judge access (head ++ (fetchRequest p ++ zeros (m + 1))) = .fetch p ↔ Fetchable p := by
  rcases playPath_lookup (m := m) hhead hq h0 hlen with
    ⟨hclean, ret, len, v, hle, hv, hplay⟩ | ⟨⟨k, hk, heq, hbad⟩, hplay⟩
  · have hget := getPath_lookup (m := m) hhead hq h0 hlen (writeAt (zeros 256) 0 v) (by simp)
    by_cases htwo : 2 ≤ p.length
    · have htype : dataType (head ++ (fetchRequest p ++ zeros (m + 1))) =
          some (1, writeAt (writeAt (zeros 256) 0 v) 0 p) := by
        simp only [dataType, hplay, Option.bind_eq_bind, Option.bind_some, hget]
        rw [if_neg (by omega), if_pos (by omega)]
      -- what the first lookup has left is overwritten
      have hpath : cString (writeAt (writeAt (zeros 256) 0 v) 0 p) = some p := by
        rw [writeAt_zero (by rw [length_writeAt, length_zeros]; omega),
          drop_writeAt (by omega) (by rw [length_zeros]; omega), zeros, List.drop_replicate,
          show 256 - p.length = 255 - p.length + 1 by omega, List.replicate_succ,
          cString_append h0]
      simp only [judge, htype, hpath, hacc, Bool.true_eq_false, ↓reduceIte, true_iff]
      exact ⟨htwo, hclean⟩
    · refine iff_of_false (fun h => ?_) fun h => htwo h.two
      have hreal : protoGetValueByName (head ++ (fetchRequest p ++ zeros (m + 1)))
          (lit "play real") (writeAt (writeAt (zeros 256) 0 v) 0 p) =
            some ⟨0, 0, writeAt (writeAt (zeros 256) 0 v) 0 p⟩ := by
        have hnone : strstr (lit "play real") p = none := by
          cases hk : strstr (lit "play real") p with
          | none => rfl
          | some k =>
            have := strstr_le hk
            have : (lit "play real").length = 9 := rfl
            omega
        have hfind : strstr (lit "play real") (fetchRequest p) = none := by
          rw [strstr_fetchRequest (by decide) (by decide) (by decide), hnone]
          rfl
        rw [show zeros (m + 1) = 0 :: zeros m from rfl,
          protoGetValueByName_append hhead (zero_not_mem_fetchRequest h0), hfind]
      have htype : dataType (head ++ (fetchRequest p ++ zeros (m + 1))) =
          some (-1, writeAt (writeAt (zeros 256) 0 v) 0 p) := by
        simp only [dataType, hplay, Option.bind_eq_bind, Option.bind_some, hget, hreal]
        rw [if_neg (by omega), if_neg (by omega), if_neg (by omega)]
      simp only [judge, htype] at h
      split at h
      · cases h
      · split at h
        · cases h
        · simp at h
  · refine iff_of_false (fun h => ?_) fun h => hbad (h.play k hk heq)
    cases hl : protoGetValueByName (head ++ (fetchRequest p ++ zeros (m + 1))) (lit "play path")
        (zeros 256) with
    | none =>
      have htype : dataType (head ++ (fetchRequest p ++ zeros (m + 1))) = none := by
        simp [dataType, hl]
      simp only [judge, htype] at h
      cases h
    | some l =>
      have htype : dataType (head ++ (fetchRequest p ++ zeros (m + 1))) =
          some (0, l.pValueOut) := by
        simp only [dataType, hl, Option.bind_eq_bind, Option.bind_some]
        rw [if_pos (hplay l hl)]
      simp only [judge, htype] at h
      split at h
      · cases h
      · split at h
        · cases h
        · simp at h

end

/-- A read callback that handles no request fetches nothing, and none handles two. -/
theorem readBuffer_fetched {H : Handlers} {s : Session TaskFileSend} {inbox : List UInt8}
    {e : ReadEnv} {g : SessionRead} (h : s.readBuffer H inbox e = some g) :
    (Act.framesOf .session g.acts = [] ∧ Act.fetched g.acts = []) ∨
      (Act.framesOf .session g.acts).length = 1 := by
  rcases readBuffer_cases h with ⟨t, r, -, -, hr, rfl⟩ | ⟨-, h⟩
  · left
    cases TaskFileSend.readBuffer_cases hr with
    | more f _ _ step => simp [step]
    | whole f _ _ c _ step =>
      rw [step]
      cases c <;> simp [TaskFileSend.handle, Act.framesOf, Act.fetched, List.flatMap_map]
  · obtain ⟨-, ⟨-, -, -, -, hacts⟩ | ⟨-, after, hafter, hacts⟩⟩ := readRequest_cases h rfl
    · rw [hacts]
      exact .inl ⟨by simp, by simp⟩
    · rw [hacts, Act.framesOf_append, Act.framesOf_map_recv, Act.framesOf_frame, hafter.framesOf]
      exact .inr rfl

end Session

/-- The read callbacks handle frames with `H`. -/
def ConnEvent.Uses (H : Handlers) : ConnEvent → Prop
  | .onRead H' _ => H' = H
  | .onWrite _ _ => True

namespace Conn
open TaskFileRecv

/-- The session is still reading the login message for `p`. -/
structure Waiting (p later : List UInt8) (c : Conn) : Prop where
  task : c.sess.mTaskBase = none
  frames : Act.framesOf .session c.acts = []
  fetched : Act.fetched c.acts = []
  buf : c.sess.rx.buf.length = cmdLen
  tail : c.sess.rx.buf.drop (loginFrame p).length = zeros (cmdLen - (loginFrame p).length)
  holds : c.alive = true →
    ∃ q, Holds netFormat c.sess.rx q ∧ q ++ c.inbox = loginFrame p ++ later

/-- The session has handled the login message for `p`, or that and more. -/
def Answered (p : List UInt8) (c : Conn) : Prop :=
  ((Act.framesOf .session c.acts).length = 1 ∧ (Act.fetched c.acts = [p] ↔ Fetchable p)) ∨
    2 ≤ (Act.framesOf .session c.acts).length

theorem Answered.step {p : List UInt8} {c c' : Conn} {e : ConnEvent} (hok : c.sess.BuffersOk)
    (h : Answered p c) (hs : c.step e = some c') : Answered p c' := by
  have hmore : ∀ acts, (Act.framesOf .session acts = [] ∧ Act.fetched acts = []) ∨
      (Act.framesOf .session acts).length = 1 → c'.acts = c.acts ++ acts → Answered p c' := by
    intro acts hacts hc'
    rw [Answered, hc', Act.framesOf_append, Act.fetched_append, List.length_append]
    rcases hacts with ⟨hnil, hnil'⟩ | hone
    · simpa [Answered, hnil, hnil'] using h
    · have : 1 ≤ (Act.framesOf .session c.acts).length := by
        rcases h with ⟨h1, -⟩ | h2
        · exact Nat.le_of_eq h1.symm
        · omega
      exact .inr (by omega)
  obtain ⟨halive, ⟨H, env, g, -, -, hg, rfl⟩ | ⟨fr, outs, ret, s, acts, -, -, hw, rfl⟩⟩ :=
    step_cases hs
  · exact hmore _ (Session.readBuffer_fetched hg) rfl
  · obtain ⟨-, -, -, hsend⟩ := onWrite_view hok halive hw rfl
    exact hmore acts (.inl ⟨Act.framesOf_of_isSend hsend _, Act.fetched_of_isSend hsend⟩) rfl

theorem Waiting.step {p later : List UInt8} {access : List UInt8 → Bool} (hq : 34 ∉ p) (h0 : 0 ∉ p)
    (hlen : p.length ≤ 255) (hacc : access p = true) {c c' : Conn} {e : ConnEvent}
    (he : e.Uses (handlers access)) (h : Waiting p later c) (hs : c.step e = some c') :
    Waiting p later c' ∨ Answered p c' := by
  obtain ⟨halive, ⟨H, env, g, rfl, -, hg, rfl⟩ | ⟨fr, outs, ret, s, acts, rfl, -, hw, rfl⟩⟩ :=
    step_cases hs
  · obtain rfl : H = handlers access := he
    obtain ⟨q, hholds, hin⟩ := h.holds halive
    have hsize := h.buf
    have hcmd : cmdLen = 1500 := rfl
    obtain ⟨hdrop, hcases⟩ := readFrame_next hholds (by rw [hsize]; decide)
      (isFrame_loginFrame hlen) (by rw [hsize]; exact fits_loginFrame hlen) hin env.r₁ env.r₂
    simp only [Session.readBuffer, Session.mTaskBase_fired, h.task] at hg
    obtain ⟨hgin, ⟨hdone, -, -, hsess, hacts⟩ | ⟨hdone, after, hafter, hacts⟩⟩ :=
      Session.readRequest_cases hg rfl
    · -- the message goes on
      rcases hcases with ⟨-, q', hholds', hin'⟩ | ⟨hdone', -⟩
      · left
        have hrx : (if g.ret = 0 then g.sess else g.sess.addEvent .read).rx =
            (readFrame netFormat c.sess.rx c.inbox env.r₁ env.r₂).rx := by
          rw [hsess]
          split
          · rfl
          · rw [Session.rx_addEvent]; rfl
        refine ⟨?_, ?_, ?_, ?_, ?_, fun _ => ⟨q', ?_, ?_⟩⟩
        · rw [hsess]
          split
          · exact h.task
          · rw [Session.mTaskBase_addEvent]; exact h.task
        · simp [hacts, h.frames]
        · simp [hacts, h.fetched]
        · rw [hrx, readFrame_length, hsize]
        · rw [hrx, hdrop]; exact h.tail
        · rw [hrx]; exact hholds'
        · rw [hgin]; exact hin'
      · exact absurd (hdone'.symm.trans hdone) (by decide)
    · -- it is complete, with zeros behind it
      rcases hcases with ⟨hdone', -⟩ | ⟨-, -, -, htake⟩
      · exact absurd (hdone'.symm.trans hdone) (by decide)
      · refine .inr (.inl ⟨?_, ?_⟩)
        · simp [hacts, h.frames, Act.framesOf_frame, hafter.framesOf]
        · have hbuf : (readFrame netFormat c.sess.rx c.inbox env.r₁ env.r₂).rx.buf =
              netCmd moduleMsgLogin 0 (fetchRequest p).length ++
                (fetchRequest p ++ zeros (cmdLen - (p.length + 30) - 1 + 1)) := by
            rw [← List.take_append_drop (loginFrame p).length
              (readFrame netFormat c.sess.rx c.inbox env.r₁ env.r₂).rx.buf, htake, hdrop, h.tail,
              length_loginFrame, show cmdLen - (p.length + 30) - 1 + 1 = cmdLen - (p.length + 30) by
                omega, ← List.append_assoc]
            rfl
          have hjudge := Session.judge_fetchRequest (m := cmdLen - (p.length + 30) - 1)
            (length_netCmd moduleMsgLogin 0 (fetchRequest p).length) hq h0 hlen hacc
          rw [← hbuf] at hjudge
          rw [← hjudge]
          simp only [hacts, Act.fetched_append, h.fetched, Act.fetched_map_recv, Act.fetched_frame,
            List.nil_append]
          cases hafter with
          | fetch path t hj ht =>
            have hnil := Act.fetched_of_isSend (TaskFileSend.setFetchFile_sendOnly ht).2
            have hj' : Session.judge access _ = .fetch path := hj
            rw [Session.rx_fired] at hj'
            rw [hj', Act.fetched_fetch, hnil]
            simp
          | stay hj =>
            have hj' : Session.judge access _ = .stay := hj
            rw [Session.rx_fired] at hj'
            rw [hj']
            simp [Act.fetched]
          | refuse hj =>
            have hj' : Session.judge access _ = .refuse := hj
            rw [Session.rx_fired] at hj'
            rw [hj']
            simp [Act.fetched]
          | overrun hj =>
            have hj' : Session.judge access _ = .overrun := hj
            rw [Session.rx_fired] at hj'
            rw [hj']
            simp [Act.fetched]
  · -- without a task there is nothing to write
    simp only [Session.writeBuffer, Session.mTaskBase_fired, h.task] at hw
    split at hw
    · simp only [Option.some.injEq, Prod.mk.injEq] at hw
      obtain ⟨rfl, rfl, rfl⟩ := hw
      simp only [or_true, ↓reduceIte, List.append_nil]
      exact .inl ⟨h.task, h.frames, h.fetched, h.buf, h.tail, fun _ => h.holds halive⟩
    · cases hw

/-- A session that has handled the login message for `p`, however it was split,
has given exactly `p` to a new task if and only if `p` is fetchable. -/
theorem fetches_login_iff {p : List UInt8} (hq : 34 ∉ p) (h0 : 0 ∉ p) (hlen : p.length ≤ 255)
    {access : List UInt8 → Bool} (hacc : access p = true) {t t' : TaskFileRecv} {opens : Bool}
    {outs₁ outs₂ : List SendResult} {sent : List Act} (ht : t.mwFile = false)
    (hsend : t.setFetchAndSaveFile p opens outs₁ outs₂ = some (t', sent)) (h₁ : NoError outs₁)
    (h₂ : NoError outs₂) {mReadBuff later : List UInt8} (hbuf : mReadBuff.length = cmdLen)
    (htail : mReadBuff.drop (Act.sentBytes sent).length =
      zeros (cmdLen - (Act.sentBytes sent).length))
    {es : List ConnEvent} {c : Conn} (hes : ∀ e ∈ es, e.Uses (handlers access))
    (hrun : run step (onAccept mReadBuff (Act.sentBytes sent ++ later)) es = some c)
    (hfirst : (Act.framesOf .session c.acts).length = 1) :
    Act.fetched c.acts = [p] ↔ Fetchable p := by
  rw [setFetchAndSaveFile_sentBytes ht hsend h₁ h₂] at htail hrun
  have hstart : Waiting p later (onAccept mReadBuff (loginFrame p ++ later)) := by
    refine ⟨rfl, rfl, rfl, hbuf, htail, fun _ => ⟨[], .inl ⟨rfl, rfl, by decide, ?_, rfl⟩, rfl⟩⟩
    exact Nat.le_trans (by decide) (Nat.le_of_eq hbuf.symm)
  have hlast := (run_meets (C := fun _ e => e ∈ es)
    (I := fun c : Conn => c.sess.BuffersOk ∧ (Waiting p later c ∨ Answered p c))
    (fun c e c' hI he hs => ⟨(receiver.sound hI.1 hs).1, hI.2.elim
      (fun hw => hw.step hq h0 hlen hacc (hes e he) hs) (fun ha => .inr (ha.step hI.1 hs))⟩)
    ⟨buffersOk_onAccept hbuf _, .inl hstart⟩ (meets_of_forall (fun _ he _ => he) _) hrun).2
  rcases hlast with hw | ⟨-, h⟩ | h
  · rw [hw.frames] at hfirst
    cases hfirst
  · exact h
  · omega

/-- The path "ab", which is fetched. -/
theorem fetches_login_iff_ab :
    ∃ t' sent c, (TaskFileRecv.new (zeros TaskFileRecv.memLen)).setFetchAndSaveFile (lit "ab") true
        [.accepted 16] [.eagain, .accepted 16] = some (t', sent) ∧
      run step (onAccept (zeros cmdLen) (Act.sentBytes sent))
        [.onRead (handlers fun _ => true) ⟨.avail 20, .avail 4, false, 0, []⟩,
          .onRead (handlers fun _ => true) ⟨.avail 99, .eagain, true, 3, [.accepted 1048]⟩] =
        some c ∧
      Act.fetched c.acts = [lit "ab"] ∧
      (Act.fetched c.acts = [lit "ab"] ↔ Fetchable (lit "ab")) := by
  have h : (((TaskFileRecv.new (zeros TaskFileRecv.memLen)).setFetchAndSaveFile (lit "ab") true
      [.accepted 16] [.eagain, .accepted 16]).bind fun q =>
        (run step (onAccept (zeros cmdLen) (Act.sentBytes q.2))
          [.onRead (handlers fun _ => true) ⟨.avail 20, .avail 4, false, 0, []⟩,
            .onRead (handlers fun _ => true) ⟨.avail 99, .eagain, true, 3, [.accepted 1048]⟩]).map
          fun c => (q, c)).any (fun qc : (TaskFileRecv × List Act) × Conn =>
            decide ((Act.framesOf .session qc.2.acts).length = 1 ∧
              Act.fetched qc.2.acts = [lit "ab"] ∧ (Act.sentBytes qc.1.2).length = 32)) = true := by
    decide +kernel
  obtain ⟨⟨⟨t', sent⟩, c⟩, hqc, hp⟩ := (Option.any_eq_true _ _).mp h
  obtain ⟨hone, hab, hlen⟩ := of_decide_eq_true hp
  obtain ⟨q, hq, hc⟩ := Option.bind_eq_some_iff.mp hqc
  obtain ⟨c', hc', heq⟩ := Option.map_eq_some_iff.mp hc
  obtain ⟨rfl, rfl⟩ := Prod.mk.inj heq
  have hes : ∀ e ∈ [ConnEvent.onRead (handlers fun _ => true) ⟨.avail 20, .avail 4, false, 0, []⟩,
      .onRead (handlers fun _ => true) ⟨.avail 99, .eagain, true, 3, [.accepted 1048]⟩],
      e.Uses (handlers fun _ => true) := by
    intro e he
    simp only [List.mem_cons, List.not_mem_nil, or_false] at he
    rcases he with rfl | rfl <;> rfl
  have htail : (zeros cmdLen).drop (Act.sentBytes sent).length =
      zeros (cmdLen - (Act.sentBytes sent).length) := by
    rw [show (Act.sentBytes sent).length = 32 from hlen]
    simp [zeros]
  rw [← List.append_nil (Act.sentBytes sent)] at hc'
  refine ⟨t', sent, c', hq, by simpa using hc', hab, ?_⟩
  exact fetches_login_iff (by decide) (by decide) (by decide) (by exact rfl) (by exact rfl) hq
    (by decide) (by decide) (length_zeros cmdLen) htail hes hc' hone

/-- The path "a", which exists: the session stays without a task. -/
theorem not_fetches_login_a :
    ∃ t' sent c, (TaskFileRecv.new (zeros TaskFileRecv.memLen)).setFetchAndSaveFile (lit "a") true
        [.accepted 16] [.accepted 15] = some (t', sent) ∧
      run step (onAccept (zeros cmdLen) (Act.sentBytes sent))
        [.onRead (handlers fun _ => true) readAll] = some c ∧
      (Act.framesOf .session c.acts).length = 1 ∧ ¬ Act.fetched c.acts = [lit "a"] := by
  have h : (((TaskFileRecv.new (zeros TaskFileRecv.memLen)).setFetchAndSaveFile (lit "a") true
      [.accepted 16] [.accepted 15]).bind fun q =>
        (run step (onAccept (zeros cmdLen) (Act.sentBytes q.2))
          [.onRead (handlers fun _ => true) readAll]).map fun c => (q, c)).any
        (fun qc : (TaskFileRecv × List Act) × Conn =>
          decide ((Act.framesOf .session qc.2.acts).length = 1 ∧
            ¬ Act.fetched qc.2.acts = [lit "a"])) = true := by
    decide +kernel
  obtain ⟨⟨⟨t', sent⟩, c⟩, hqc, hp⟩ := (Option.any_eq_true _ _).mp h
  obtain ⟨q, hq, hc⟩ := Option.bind_eq_some_iff.mp hqc
  obtain ⟨c', hc', heq⟩ := Option.map_eq_some_iff.mp hc
  obtain ⟨rfl, rfl⟩ := Prod.mk.inj heq
  exact ⟨t', sent, c', hq, hc', of_decide_eq_true hp⟩

end Conn

end FilesEvent
