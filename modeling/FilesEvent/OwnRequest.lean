import FilesEvent.Login

/-! What a request is judged by. `mReadBuff` is neither cleared nor terminated
between two requests, and the lookups of `recvPackData` are searches in a C
string: they stop at the first zero byte, and a value ends at the first quote.
A request that holds neither is judged together with the bytes behind it. -/

namespace FilesEvent
open Bytes Framing Runs

/-! ## Lookups in a message with more bytes behind it -/

/-- The message `m` from the value of `name` on, when the text in it holds `name`
with a '=' behind it. -/
def valueOf (m name : List UInt8) : Option (List UInt8) := do
  let p ← strstr name (← cString m)
  if m[p + name.length]? = some 61 then some (m.drop (p + name.length + 2)) else none

/-- A value of `name` ends inside the message, and fits into `fetchPath`. -/
def Ends (m name : List UInt8) : Prop := ∀ v ∈ valueOf m name, ∃ i ∈ quoteIndex v, i ≤ 256

/-- `name` has a value of two bytes or more, which decides `dataType`. -/
def HasValue (m name : List UInt8) : Prop := ∃ v ∈ valueOf m name, ∃ i ∈ quoteIndex v, 2 ≤ i

instance (m name : List UInt8) : Decidable (Ends m name) :=
  inferInstanceAs (Decidable (∀ v ∈ valueOf m name, ∃ i ∈ quoteIndex v, i ≤ 256))

instance (m name : List UInt8) : Decidable (HasValue m name) :=
  inferInstanceAs (Decidable (∃ v ∈ valueOf m name, ∃ i ∈ quoteIndex v, 2 ≤ i))

theorem quoteIndex_append_of_notMem {t : List UInt8} (ht : 34 ∉ t) (v : List UInt8) :
    quoteIndex (v ++ t) = quoteIndex v := by
  induction v with
  | nil => exact quoteIndex_eq_none ht
  | cons c v ih => simp [quoteIndex, ih]

section Lookup

variable {head m name out t : List UInt8}

/-- A lookup in a message that holds its terminator. -/
theorem protoGetValueByName_valueOf (hhead : head.length = sizeofNetCmd) (h0 : 0 ∈ m)
    (name out t : List UInt8) :
    protoGetValueByName (head ++ (m ++ t)) name out =
      match valueOf m name with
      | none => some ⟨0, 0, out⟩
      | some v =>
          (quoteIndex (v ++ t)).bind fun i =>
            if i ≤ out.length then
              some ⟨1, (i : Int) - 1, writeAt out 0 ((v ++ t).take i)⟩
            else none := by
  obtain ⟨text, rest, rfl, htext⟩ := List.eq_append_cons_of_mem h0
  rw [List.append_assoc, List.cons_append, protoGetValueByName_append hhead htext]
  simp only [valueOf, cString_append htext, Option.bind_eq_bind, Option.bind_some]
  cases hp : strstr name text with
  | none => rfl
  | some p =>
    have hle := strstr_le hp
    simp only [getElem?_terminated hle, Option.bind_some]
    split
    · rename_i heq
      have hlt := (List.getElem?_eq_some_iff.mp heq).1
      have hdrop : (text ++ 0 :: (rest ++ t)).drop (p + name.length + 2) =
          (text ++ 0 :: rest).drop (p + name.length + 2) ++ t := by
        rw [← List.cons_append, ← List.append_assoc, List.drop_append_of_le_length]
        rw [List.length_append, List.length_cons]
        omega
      rw [hdrop]
    · rfl

/-- What a lookup leaves: the length it reports tells whether there is a value,
and `fetchPath` keeps its size. -/
structure Lookup.Reports (r : Lookup) (m name : List UInt8) : Prop where
  value : 0 < r.pValueLen ↔ HasValue m name
  size : r.pValueOut.length = 256

/-- A value that ends inside the message does not depend on the bytes behind. -/
theorem lookup_of_ends (hhead : head.length = sizeofNetCmd) (h0 : 0 ∈ m) (hends : Ends m name)
    (hout : out.length = 256) :
    ∃ r, r.Reports m name ∧ ∀ t, protoGetValueByName (head ++ (m ++ t)) name out = some r := by
  simp only [protoGetValueByName_valueOf hhead h0]
  cases hv : valueOf m name with
  | none =>
    refine ⟨⟨0, 0, out⟩, ⟨?_, hout⟩, fun t => rfl⟩
    simp [HasValue, hv]
  | some v =>
    obtain ⟨i, hi, hle⟩ := hends v hv
    refine ⟨⟨1, (i : Int) - 1, writeAt out 0 (v.take i)⟩, ⟨?_, by simpa using hout⟩, fun t => ?_⟩
    · simp only [HasValue, hv, Option.mem_def, Option.some.injEq, exists_eq_left',
        Option.mem_def.mp hi]
      omega
    · obtain ⟨hindex, htake⟩ := quoteIndex_append_of_some hi t
      simp only [hindex, Option.bind_some, htake, hout, if_pos hle]

/-- Behind the message there may be neither a zero byte nor a quote. Then a lookup
that stays in the array finds both in the message. -/
theorem ends_of_lookup (hhead : head.length = sizeofNetCmd) (h0 : 0 ∈ m) (h34 : 34 ∉ t)
    (hout : out.length = 256) {r : Lookup}
    (h : protoGetValueByName (head ++ (m ++ t)) name out = some r) :
    Ends m name ∧ r.Reports m name := by
  have hends : Ends m name := by
    intro v hv
    rw [protoGetValueByName_valueOf hhead h0, Option.mem_def.mp hv] at h
    simp only [quoteIndex_append_of_notMem h34] at h
    obtain ⟨i, hi, h⟩ := Option.bind_eq_some_iff.mp h
    split at h
    · rename_i hle
      exact ⟨i, hi, hout ▸ hle⟩
    · cases h
  obtain ⟨r', hr', heq⟩ := lookup_of_ends hhead h0 hends hout
  obtain rfl := Option.some.inj ((heq t).symm.trans h)
  exact ⟨hends, hr'⟩

end Lookup

/-! ## The reaction to a request -/

/-- The session reacts to both buffers in the same way: with the same `dataType`
and `fetchPath`, and with the same task or the same refusal. -/
structure SameReaction (access : List UInt8 → Bool) (b₁ b₂ : List UInt8) : Prop where
  dataType : ∃ dataType fetchPath, Session.dataType b₁ = some (dataType, fetchPath) ∧
    Session.dataType b₂ = some (dataType, fetchPath)
  judge : Session.judge access b₁ = Session.judge access b₂

/-- The reaction to a message does not depend on the rest of `mReadBuff`. -/
def JudgedAlone (head m : List UInt8) : Prop :=
  ∀ access t₁ t₂, (head ++ (m ++ t₁)).length = cmdLen → (head ++ (m ++ t₂)).length = cmdLen →
    SameReaction access (head ++ (m ++ t₁)) (head ++ (m ++ t₂))

/-- The message is terminated, and each lookup that is made finds the end of its
value in it. -/
def OwnRequest (m : List UInt8) : Prop :=
  0 ∈ m ∧ Ends m (lit "play path") ∧ (¬ HasValue m (lit "play path") →
    Ends m (lit "get path") ∧ (¬ HasValue m (lit "get path") → Ends m (lit "play real")))

instance (m : List UInt8) : Decidable (OwnRequest m) :=
  inferInstanceAs (Decidable (_ ∧ _ ∧ (_ → _ ∧ (_ → _))))

section Reaction

variable {head m : List UInt8}

theorem dataType_of_ownRequest (hhead : head.length = sizeofNetCmd) (h : OwnRequest m) :
    ∃ r, ∀ t, Session.dataType (head ++ (m ++ t)) = some r := by
  obtain ⟨h0, hplay, hrest⟩ := h
  obtain ⟨play, hplay, hplay'⟩ := lookup_of_ends hhead h0 hplay (length_zeros 256)
  simp only [Session.dataType, hplay', Option.bind_eq_bind, Option.bind_some]
  by_cases hpos : 0 < play.pValueLen
  · exact ⟨_, fun t => if_pos hpos⟩
  simp only [if_neg hpos]
  obtain ⟨hget, hrest⟩ := hrest (fun hv => hpos (hplay.value.mpr hv))
  obtain ⟨get, hget, hget'⟩ := lookup_of_ends hhead h0 hget hplay.size
  simp only [hget', Option.bind_some]
  by_cases hpos : 0 < get.pValueLen
  · exact ⟨_, fun t => if_pos hpos⟩
  simp only [if_neg hpos]
  obtain ⟨real, -, hreal⟩ :=
    lookup_of_ends hhead h0 (hrest fun hv => hpos (hget.value.mpr hv)) hget.size
  simp only [hreal, Option.bind_some]
  by_cases hpos : 0 < real.pValueLen
  · exact ⟨_, fun t => if_pos hpos⟩
  · exact ⟨_, fun t => if_neg hpos⟩

/-- Where the bytes behind the message are neither zero nor quotes, a request that
is judged at all is judged by its own bytes. -/
theorem ownRequest_of_dataType (hhead : head.length = sizeofNetCmd) {t : List UInt8}
    (ht : 0 ∉ t) (h34 : 34 ∉ t) {r : Int × List UInt8}
    (h : Session.dataType (head ++ (m ++ t)) = some r) : OwnRequest m := by
  obtain ⟨play, hplay, h⟩ := Option.bind_eq_some_iff.mp h
  have h0 : 0 ∈ m := by
    refine Classical.byContradiction fun hm => ?_
    have hdrop : (head ++ (m ++ t)).drop sizeofNetCmd = m ++ t := by rw [← hhead, List.drop_left]
    simp only [protoGetValueByName, hdrop, cString, List.mem_append, hm, ht, or_self, if_false,
      Option.bind_eq_bind, Option.bind_none] at hplay
    cases hplay
  obtain ⟨hends, hrep⟩ := ends_of_lookup hhead h0 h34 (length_zeros 256) hplay
  refine ⟨h0, hends, fun hno => ?_⟩
  rw [if_neg fun hpos => hno (hrep.value.mp hpos)] at h
  obtain ⟨get, hget, h⟩ := Option.bind_eq_some_iff.mp h
  obtain ⟨hends, hrep'⟩ := ends_of_lookup hhead h0 h34 hrep.size hget
  refine ⟨hends, fun hno => ?_⟩
  rw [if_neg fun hpos => hno (hrep'.value.mp hpos)] at h
  obtain ⟨real, hreal, -⟩ := Option.bind_eq_some_iff.mp h
  exact (ends_of_lookup hhead h0 h34 hrep'.size hreal).1

/-- Whatever earlier requests left in the buffer, a request is judged by its own
bytes, if and only if it is terminated and no value in it is left open. -/
theorem judgedAlone_iff (hhead : head.length = sizeofNetCmd)
    (hfit : head.length + m.length ≤ cmdLen) : JudgedAlone head m ↔ OwnRequest m := by
  constructor
  · intro h
    -- the rest of the buffer filled with ones
    have hlen : (head ++ (m ++ List.replicate (cmdLen - (head.length + m.length)) 1)).length =
        cmdLen := by
      simp only [List.length_append, List.length_replicate]
      omega
    obtain ⟨ty, path, hty, -⟩ := (h (fun _ => true) _ _ hlen hlen).dataType
    exact ownRequest_of_dataType hhead (by simp) (by simp) hty
  · intro h access t₁ t₂ _ _
    obtain ⟨r, hr⟩ := dataType_of_ownRequest hhead h
    exact ⟨⟨r.1, r.2, hr t₁, hr t₂⟩, by simp only [Session.judge, hr]⟩

/-- The request for "ab" with a terminator, which the client does not send. -/
theorem judgedAlone_iff_terminated :
    JudgedAlone (netCmd moduleMsgLogin 0 17) (TaskFileRecv.fetchRequest (lit "ab") ++ [0]) ↔
      OwnRequest (TaskFileRecv.fetchRequest (lit "ab") ++ [0]) :=
  judgedAlone_iff rfl (by decide)

end Reaction

/-! ## The session -/

/-- The task that a session has after a verdict, in the environment `e`. -/
def Verdict.task (e : ReadEnv) : Verdict → Option TaskFileSend
  | .fetch _ => (TaskFileSend.new.setFetchFile e.opens e.stSize e.outs).map (·.task)
  | _ => none

/-- A session without a task does nothing with a request but act on the verdict. -/
theorem Session.readRequest_verdict {H : Handlers} {s : Session TaskFileSend}
    {inbox : List UInt8} {e : ReadEnv} {f : FrameStep} {g : SessionRead}
    (hnone : s.mTaskBase = none) (hf : readFrame netFormat s.rx inbox e.r₁ e.r₂ = f)
    (hd : f.done = true) (h : s.readRequest H inbox e = some g) :
    g.sess.mTaskBase = (H.judge f.rx.buf).task e ∧ (g.ret = 0 ↔ (H.judge f.rx.buf).Closes) := by
  have hpos : 0 < f.ret := hf ▸ readFrame_ret_pos (hf ▸ hd)
  obtain ⟨-, ⟨hd', -⟩ | ⟨-, after, hafter, -⟩⟩ := readRequest_cases h hf
  · rw [hd] at hd'
    cases hd'
  cases hafter with
  | fetch path t judge task ret sess =>
    rw [sess, judge, Verdict.task, task]
    exact ⟨rfl, iff_of_false (by omega) (by simp [Verdict.Closes])⟩
  | stay judge outs ret sess =>
    rw [sess, judge]
    exact ⟨hnone, iff_of_false (by omega) (by simp [Verdict.Closes])⟩
  | refuse judge outs ret sess =>
    rw [sess, judge]
    exact ⟨hnone, iff_of_true ret (.inl rfl)⟩
  | overrun judge outs ret sess =>
    rw [sess, judge]
    exact ⟨hnone, iff_of_true ret (.inr rfl)⟩

/-- Two sessions whose requests are judged alike create the same task or none,
and both are closed or neither is. -/
theorem SameReaction.readRequest {access : List UInt8 → Bool} {s₁ s₂ : Session TaskFileSend}
    {inbox₁ inbox₂ : List UInt8} {e : ReadEnv} {f₁ f₂ : FrameStep} {g₁ g₂ : SessionRead}
    (hsame : SameReaction access f₁.rx.buf f₂.rx.buf)
    (hnone₁ : s₁.mTaskBase = none) (hnone₂ : s₂.mTaskBase = none)
    (hf₁ : readFrame netFormat s₁.rx inbox₁ e.r₁ e.r₂ = f₁)
    (hf₂ : readFrame netFormat s₂.rx inbox₂ e.r₁ e.r₂ = f₂) (hd₁ : f₁.done = true)
    (hd₂ : f₂.done = true) (h₁ : s₁.readRequest (handlers access) inbox₁ e = some g₁)
    (h₂ : s₂.readRequest (handlers access) inbox₂ e = some g₂) :
    g₁.sess.mTaskBase = g₂.sess.mTaskBase ∧ (g₁.ret = 0 ↔ g₂.ret = 0) := by
  have hjudge : (handlers access).judge f₁.rx.buf = (handlers access).judge f₂.rx.buf :=
    hsame.judge
  obtain ⟨htask₁, hret₁⟩ := Session.readRequest_verdict hnone₁ hf₁ hd₁ h₁
  obtain ⟨htask₂, hret₂⟩ := Session.readRequest_verdict hnone₂ hf₂ hd₂ h₂
  rw [htask₁, htask₂, hret₁, hret₂, hjudge]
  exact ⟨rfl, Iff.rfl⟩

namespace Conn

/-- A request that leaves the session without a task, and reaches behind the end
of the client's request for "ab". -/
def playAb : List UInt8 :=
  netCmd moduleMsgLogin 0 34 ++ lit "<request a=\"b\"/><play path=\"ab\"/>" ++ [0]

/-- The client's request for "ab" is served on a new connection, and not behind
`playAb`, where the first lookup finds the path of `playAb`. -/
theorem not_judgedAlone_ab :
    (∃ c, run step (onAccept (zeros cmdLen) (TaskFileRecv.loginFrame (lit "ab")))
        [.onRead (handlers fun _ => true) ⟨.avail 99, .avail 99, true, 3, [.accepted 1048]⟩] =
          some c ∧ Act.fetched c.acts = [lit "ab"]) ∧
      (∃ c, run step (onAccept (zeros cmdLen) (playAb ++ TaskFileRecv.loginFrame (lit "ab")))
        [.onRead (handlers fun _ => true) ⟨.avail 99, .avail 99, true, 0, []⟩,
          .onRead (handlers fun _ => true) ⟨.avail 99, .avail 99, true, 0, []⟩] = some c ∧
        Act.framesOf .session c.acts = [playAb, TaskFileRecv.loginFrame (lit "ab")] ∧
        Act.fetched c.acts = []) ∧
      ¬ JudgedAlone (netCmd moduleMsgLogin 0 16) (TaskFileRecv.fetchRequest (lit "ab")) := by
  have hnew : (run step (onAccept (zeros cmdLen) (TaskFileRecv.loginFrame (lit "ab")))
      [.onRead (handlers fun _ => true) ⟨.avail 99, .avail 99, true, 3, [.accepted 1048]⟩]).any
        (fun c => decide (Act.fetched c.acts = [lit "ab"])) = true := by decide +kernel
  have hleft : (run step (onAccept (zeros cmdLen) (playAb ++ TaskFileRecv.loginFrame (lit "ab")))
      [.onRead (handlers fun _ => true) ⟨.avail 99, .avail 99, true, 0, []⟩,
        .onRead (handlers fun _ => true) ⟨.avail 99, .avail 99, true, 0, []⟩]).any
        (fun c => decide (Act.framesOf .session c.acts =
          [playAb, TaskFileRecv.loginFrame (lit "ab")] ∧ Act.fetched c.acts = [])) = true := by
    decide +kernel
  obtain ⟨c, hc, hfetched⟩ := (Option.any_eq_true _ _).mp hnew
  obtain ⟨c', hc', hleft⟩ := (Option.any_eq_true _ _).mp hleft
  refine ⟨⟨c, hc, of_decide_eq_true hfetched⟩, ⟨c', hc', of_decide_eq_true hleft⟩, fun h => ?_⟩
  -- the two contents of the buffer behind the request
  have hjudge := (h (fun _ => true) (zeros (cmdLen - 32))
    (playAb.drop 32 ++ zeros (cmdLen - playAb.length)) (by decide +kernel)
    (by decide +kernel)).judge
  exact absurd hjudge (by decide +kernel)

end Conn

end FilesEvent
