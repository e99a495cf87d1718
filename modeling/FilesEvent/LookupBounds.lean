import FilesEvent.Lib.Memory
import FilesEvent.OwnRequest

/-! What a lookup reads. Here `PROTO_GetValueByName` is a loop over memory without
bounds, which may run past the end of the receive buffer or not end; `none` stands
for out of fuel. The lookups on blocks are those that stay inside. -/

namespace FilesEvent
open Bytes Memory Runs

/-- A lookup, the offsets from `pData` that it reads, and the number of bytes it
stores into `pValueOut`. -/
structure MemLookup extends Lookup where
  reads : List Nat
  stored : Nat

/-- `PROTO_GetValueByName` on memory. `strstr` takes a string, which goes on to the
first zero byte; the loop for the quote looks at nothing else. -/
def lookupMem (mem : Nat → UInt8) (fuel : Nat) (pName pValueOut : List UInt8) :
    Option MemLookup := do
  let (str, z) ← scan mem (· == 0) fuel sizeofNetCmd
  match strstr pName (window mem sizeofNetCmd (z - sizeofNetCmd)) with
  | none => some ⟨⟨0, 0, pValueOut⟩, str, 0⟩
  | some p =>
      let eq := sizeofNetCmd + (p + pName.length)
      if mem eq = 61 then
        let (loop, q) ← scan mem (· == 34) fuel (eq + 2)
        let value := window mem (eq + 2) (q - (eq + 2))
        some ⟨⟨1, (value.length : Int) - 1, writeAt pValueOut 0 value⟩, str ++ eq :: loop,
          value.length⟩
      else some ⟨⟨0, 0, pValueOut⟩, str ++ [eq], 0⟩

/-- Only bytes of a buffer of `size` bytes are read, and only bytes of an array of
256 bytes are stored to. -/
def MemLookup.InBounds (r : MemLookup) (size : Nat) : Prop :=
  (∀ a ∈ r.reads, a < size) ∧ r.stored ≤ 256

/-! ## Lookups in a block -/

section Block

variable {mem : Nat → UInt8} {b name out : List UInt8} {fuel : Nat}

/-- Where the text of the block is terminated, the lookup on the block is one in
the bytes up to the terminator. -/
theorem lookup_of_terminated (hm : Shows mem b) {str : List Nat} {z : Nat}
    (hscan : scan mem (· == 0) fuel sizeofNetCmd = some (str, z)) (hz : z < b.length) :
    protoGetValueByName b name out =
      match strstr name (window mem sizeofNetCmd (z - sizeofNetCmd)) with
      | none => some ⟨0, 0, out⟩
      | some p =>
          let eq := sizeofNetCmd + (p + name.length)
          if mem eq = 61 then
            (quoteIndex (b.drop (eq + 2))).bind fun i =>
              if i ≤ out.length then
                some ⟨1, (i : Int) - 1, writeAt out 0 ((b.drop (eq + 2)).take i)⟩
              else none
          else some ⟨0, 0, out⟩ := by
  obtain ⟨hle, hzero, -, -⟩ := scan_stop hscan
  obtain ⟨hdrop, htext⟩ := hm.drop_eq hscan hz
  have hstr : cString (b.drop sizeofNetCmd) =
      some (window mem sizeofNetCmd (z - sizeofNetCmd)) := by
    rw [hdrop, eq_of_beq hzero]
    exact cString_append (fun h0 => absurd (htext 0 h0) (by decide)) _
  simp only [protoGetValueByName, hstr, Option.bind_eq_bind, Option.bind_some]
  cases hp : strstr name (window mem sizeofNetCmd (z - sizeofNetCmd)) with
  | none => rfl
  | some p =>
    have hlen := strstr_le hp
    rw [length_window] at hlen
    have hget : (b.drop sizeofNetCmd)[p + name.length]? =
        some (mem (sizeofNetCmd + (p + name.length))) := by
      rw [List.getElem?_drop, hm _ (by omega)]
    simp only [hget, Option.some.injEq, List.drop_drop, Nat.add_assoc]

/-- The loop for the quote, where it ends inside the block. -/
theorem quoteIndex_of_scan (hm : Shows mem b) {a q : Nat} {loop : List Nat}
    (hscan : scan mem (· == 34) fuel a = some (loop, q)) (hq : q < b.length) :
    quoteIndex (b.drop a) = some (q - a) ∧ (b.drop a).take (q - a) = window mem a (q - a) := by
  obtain ⟨-, hquote, -, -⟩ := scan_stop hscan
  obtain ⟨hdrop, hvalue⟩ := hm.drop_eq hscan hq
  rw [eq_of_beq hquote] at hdrop
  constructor
  · rw [hdrop, quoteIndex_append fun h34 => absurd (hvalue 34 h34) (by decide), length_window]
  · rw [hdrop, List.take_left' (length_window mem a (q - a))]

/-- A lookup on memory that stays in the block is the lookup on the block. -/
theorem lookup_of_lookupMem (hm : Shows mem b) (hout : out.length = 256) {r : MemLookup}
    (h : lookupMem mem fuel name out = some r) (hin : r.InBounds b.length) :
    protoGetValueByName b name out = some r.toLookup := by
  obtain ⟨⟨str, z⟩, hscan, h⟩ := Option.bind_eq_some_iff.mp h
  have hmem : z ∈ str := ((scan_stop hscan).2.2.2 z).mpr ⟨(scan_stop hscan).1, Nat.le_refl z⟩
  cases hp : strstr name (window mem sizeofNetCmd (z - sizeofNetCmd)) with
  | none =>
    simp only [hp, Option.some.injEq] at h
    subst h
    rw [lookup_of_terminated hm hscan (hin.1 z hmem), hp]
  | some p =>
    simp only [hp] at h
    split at h
    · rename_i heq
      obtain ⟨⟨loop, q⟩, hloop, h⟩ := Option.bind_eq_some_iff.mp h
      obtain rfl := Option.some.inj h
      have hquote := (scan_stop hloop).2.2.2 q |>.mpr ⟨(scan_stop hloop).1, Nat.le_refl q⟩
      have hz : z < b.length := hin.1 z (List.mem_append_left _ hmem)
      have hq : q < b.length := hin.1 q (List.mem_append_right _ (List.mem_cons_of_mem _ hquote))
      obtain ⟨hindex, htake⟩ := quoteIndex_of_scan hm hloop hq
      have hle := hin.2
      simp only [length_window] at hle
      rw [lookup_of_terminated hm hscan hz]
      simp only [hp, if_pos heq, hindex, htake, Option.bind_some, hout, if_pos hle, length_window]
    · rename_i hne
      obtain rfl := Option.some.inj h
      have hz : z < b.length := hin.1 z (List.mem_append_left _ hmem)
      rw [lookup_of_terminated hm hscan hz]
      simp only [hp, if_neg hne]

/-- A lookup on the block is made on memory too. -/
theorem exists_lookupMem (hm : Shows mem b) (hout : out.length = 256) {l : Lookup}
    (h : protoGetValueByName b name out = some l) :
    ∃ r, lookupMem mem b.length name out = some r ∧ r.InBounds b.length ∧ r.toLookup = l := by
  obtain ⟨text, htext, -⟩ := Option.bind_eq_some_iff.mp h
  have h0 : 0 ∈ b.drop sizeofNetCmd := by
    simp only [cString] at htext
    split at htext
    · assumption
    · cases htext
  obtain ⟨str, z, hscan, hz⟩ := hm.exists_scan (p := (· == 0)) h0 rfl
  obtain ⟨hle, -, -, hstr⟩ := scan_stop hscan
  have hreads : ∀ a ∈ str, a < b.length := fun a ha => by
    have := (hstr a).mp ha
    omega
  rw [lookup_of_terminated hm hscan hz] at h
  simp only [lookupMem, hscan, Option.bind_eq_bind, Option.bind_some]
  cases hp : strstr name (window mem sizeofNetCmd (z - sizeofNetCmd)) with
  | none =>
    simp only [hp, Option.some.injEq] at h
    exact ⟨_, rfl, ⟨hreads, Nat.zero_le _⟩, h⟩
  | some p =>
    have hlen := strstr_le hp
    rw [length_window] at hlen
    simp only [hp] at h
    split at h
    · rename_i heq
      obtain ⟨i, hi, h⟩ := Option.bind_eq_some_iff.mp h
      split at h
      · rename_i hi256
        obtain ⟨value, after, hvalue, -, -⟩ := exists_of_quoteIndex hi
        obtain ⟨loop, q, hloop, hq⟩ := hm.exists_scan (p := (· == 34)) (c := 34)
          (i := sizeofNetCmd + (p + name.length) + 2) (by rw [hvalue]; simp) rfl
        obtain ⟨hindex, htake⟩ := quoteIndex_of_scan hm hloop hq
        obtain rfl := Option.some.inj (hindex.symm.trans hi)
        simp only [if_pos heq, hloop, Option.bind_some]
        obtain ⟨-, -, -, hloop'⟩ := scan_stop hloop
        refine ⟨_, rfl, ⟨fun a ha => ?_, ?_⟩, ?_⟩
        · rcases List.mem_append.mp ha with ha | ha
          · exact hreads a ha
          · rcases List.mem_cons.mp ha with rfl | ha
            · omega
            · have := (hloop' a).mp ha
              omega
        · rw [length_window, ← hout]
          exact hi256
        · rw [length_window, ← htake]
          exact Option.some.inj h
      · cases h
    · rename_i hne
      simp only [if_neg hne]
      refine ⟨_, rfl, ⟨fun a ha => ?_, Nat.zero_le _⟩, Option.some.inj h⟩
      rcases List.mem_append.mp ha with ha | ha
      · exact hreads a ha
      · rw [List.mem_singleton.mp ha]
        omega

end Block

theorem length_pValueOut {b name out : List UInt8} {l : Lookup} {n : Nat}
    (h : protoGetValueByName b name out = some l) (hout : out.length = n) :
    l.pValueOut.length = n := by
  subst hout
  obtain ⟨text, -, h⟩ := Option.bind_eq_some_iff.mp h
  split at h
  · rw [← Option.some.inj h]
  · split at h
    · obtain ⟨i, -, h⟩ := Option.bind_eq_some_iff.mp h
      split at h
      · rw [← Option.some.inj h, length_writeAt]
      · cases h
    · rw [← Option.some.inj h]

/-! ## The lookups of the two sessions -/

/-- The lookups that `Session::recvPackData` makes, in turn. -/
def Session.lookups (mem : Nat → UInt8) (fuel : Nat) : Option (List MemLookup) := do
  let play ← lookupMem mem fuel (lit "play path") (zeros 256)
  if 0 < play.pValueLen then some [play]
  else
    let get ← lookupMem mem fuel (lit "get path") play.pValueOut
    if 0 < get.pValueLen then some [play, get]
    else
      let real ← lookupMem mem fuel (lit "play real") get.pValueOut
      some [play, get, real]

/-- The lookups that `TaskFileSend::recvPackData` makes, each into a cleared array. -/
def TaskFileSend.lookups (mem : Nat → UInt8) (fuel : Nat) : Option (List MemLookup) :=
  let acValue := zeros 256
  if dwCmd (window mem 0 sizeofNetCmd) ≠ moduleMsgControlPlay then some []
  else do
    let name ← lookupMem mem fuel (lit "name") acValue
    if name.pValueOut.take 6 = lit "start" ++ [0] then
      let tmstart ← lookupMem mem fuel (lit "tmstart") acValue
      let tmend ← lookupMem mem fuel (lit "tmend") acValue
      some [name, tmstart, tmend]
    else if name.pValueOut.take 9 = lit "setpause" ++ [0] then
      let value ← lookupMem mem fuel (lit "value") acValue
      some [name, value]
    else some [name]

/-- The lookups end, and each stays in a buffer of `cmdLen` bytes and in its array. -/
def StayInBounds (lookups : Nat → Option (List MemLookup)) : Prop :=
  ∃ fuel ls, lookups fuel = some ls ∧ ∀ r ∈ ls, r.InBounds cmdLen

/-- `strcmp` finds the value of `name` equal to `s`, in an array cleared before. -/
def Means (m name s : List UInt8) : Prop :=
  ∃ v ∈ valueOf m name, ∃ i ∈ quoteIndex v,
    (writeAt (zeros 256) 0 (v.take i)).take (s.length + 1) = s ++ [0]

instance (m name s : List UInt8) : Decidable (Means m name s) :=
  inferInstanceAs (Decidable (∃ v ∈ valueOf m name, ∃ i ∈ quoteIndex v, _ = _))

/-- The message is terminated, and each lookup that a control command leads to finds
the end of its value in it. -/
def OwnControl (m : List UInt8) : Prop :=
  0 ∈ m ∧ Ends m (lit "name") ∧
    (Means m (lit "name") (lit "start") → Ends m (lit "tmstart") ∧ Ends m (lit "tmend")) ∧
    (¬ Means m (lit "name") (lit "start") → Means m (lit "name") (lit "setpause") →
      Ends m (lit "value"))

instance (m : List UInt8) : Decidable (OwnControl m) :=
  inferInstanceAs (Decidable (_ ∧ _ ∧ (_ → _) ∧ (_ → _ → _)))

section Content

variable {head m name out s : List UInt8}

theorem exists_lookup_iff_ends (hhead : head.length = sizeofNetCmd) (h0 : 0 ∈ m)
    (hout : out.length = 256) :
    (∃ r, protoGetValueByName (head ++ m) name out = some r) ↔ Ends m name := by
  have hnil : m ++ [] = m := List.append_nil m
  constructor
  · rintro ⟨r, h⟩
    rw [← hnil] at h
    exact (ends_of_lookup hhead h0 (by simp) hout h).1
  · intro h
    obtain ⟨r, -, hr⟩ := lookup_of_ends hhead h0 h hout
    exact ⟨r, hnil ▸ hr []⟩

/-- What `strcmp` says about the array, it says about the value in the message. -/
theorem take_pValueOut_iff_means (hhead : head.length = sizeofNetCmd) (h0 : 0 ∈ m) {r : Lookup}
    (h : protoGetValueByName (head ++ m) name (zeros 256) = some r)
    {n : Nat} (hn : s.length + 1 = n) (hs : (zeros 256).take n ≠ s ++ [0]) :
    r.pValueOut.take n = s ++ [0] ↔ Means m name s := by
  subst hn
  have hlookup := protoGetValueByName_valueOf hhead h0 name (zeros 256) []
  rw [List.append_nil, h] at hlookup
  unfold Means
  cases hv : valueOf m name with
  | none =>
    rw [hv] at hlookup
    obtain rfl := Option.some.inj hlookup
    simpa using hs
  | some v =>
    simp only [hv, List.append_nil] at hlookup
    obtain ⟨i, hi, hr⟩ := Option.bind_eq_some_iff.mp hlookup.symm
    split at hr
    · obtain rfl := Option.some.inj hr
      simp only [Option.mem_def, Option.some.injEq, exists_eq_left', hi]
    · cases hr

/-- A control is read in bounds if and only if it is terminated and no value that
is looked up in it is left open. -/
theorem TaskFileSend.control_ne_overrun_iff (hhead : head.length = sizeofNetCmd) :
    control (head ++ m) ≠ .overrun ↔
      (dwCmd (head ++ m) = moduleMsgControlPlay → OwnControl m) := by
  simp only [control]
  split
  · rename_i hcmd
    exact iff_of_true Control.noConfusion fun h => absurd h hcmd
  rename_i hcmd
  rw [Decidable.not_not] at hcmd
  simp only [hcmd, true_imp_iff]
  by_cases h0 : 0 ∈ m
  · have hends : ∀ name, (∃ r, protoGetValueByName (head ++ m) name (zeros 256) = some r) ↔
        Ends m name := fun name => exists_lookup_iff_ends hhead h0 (length_zeros 256)
    unfold OwnControl
    simp only [← hends, h0, true_and]
    cases hname : protoGetValueByName (head ++ m) (lit "name") (zeros 256) with
    | none => simp
    | some r =>
      have hstart : r.pValueOut.take 6 = lit "start" ++ [0] ↔ Means m (lit "name") (lit "start") :=
        take_pValueOut_iff_means hhead h0 hname (by decide) (by decide)
      have hsetpause : r.pValueOut.take 9 = lit "setpause" ++ [0] ↔
          Means m (lit "name") (lit "setpause") :=
        take_pValueOut_iff_means hhead h0 hname (by decide) (by decide)
      simp only [← hstart, ← hsetpause]
      split
      · rename_i heq
        simp only [heq, not_true, true_imp_iff, false_imp_iff, and_true]
        cases protoGetValueByName (head ++ m) (lit "tmstart") (zeros 256) <;>
          cases protoGetValueByName (head ++ m) (lit "tmend") (zeros 256) <;> simp
      · rename_i hne
        simp only [hne, not_false_iff, true_imp_iff, false_imp_iff, true_and]
        split
        · rename_i heq
          simp only [heq, true_imp_iff]
          cases protoGetValueByName (head ++ m) (lit "value") (zeros 256) <;> simp
        · rename_i hne'
          simp only [hne', false_imp_iff]
          split <;> simp
  · -- without a terminator no lookup stays in the buffer
    have hnone : protoGetValueByName (head ++ m) (lit "name") (zeros 256) = none := by
      simp only [protoGetValueByName, ← hhead, List.drop_left, cString, if_neg h0,
        Option.bind_eq_bind, Option.bind_none]
    simp [hnone, OwnControl, h0]

end Content

section Sessions

variable {mem : Nat → UInt8} {b : List UInt8}

/-- Where the session's lookups stay in the buffer, so do those on the block. -/
theorem Session.exists_dataType (hm : Shows mem b) (hb : b.length = cmdLen)
    (h : StayInBounds (Session.lookups mem)) : ∃ r, Session.dataType b = some r := by
  obtain ⟨fuel, ls, h, hin⟩ := h
  rw [← hb] at hin
  have h256 := length_zeros 256
  obtain ⟨play, hplay, h⟩ := Option.bind_eq_some_iff.mp h
  simp only [dataType, Option.bind_eq_bind]
  split at h
  · rename_i hpos
    obtain rfl := Option.some.inj h
    rw [lookup_of_lookupMem hm h256 hplay (hin play (by simp)), Option.bind_some, if_pos hpos]
    exact ⟨_, rfl⟩
  rename_i hpos
  obtain ⟨get, hget, h⟩ := Option.bind_eq_some_iff.mp h
  split at h
  · rename_i hpos'
    obtain rfl := Option.some.inj h
    have hplay := lookup_of_lookupMem hm h256 hplay (hin play (by simp))
    have hget := lookup_of_lookupMem hm (length_pValueOut hplay h256) hget (hin get (by simp))
    rw [hplay, Option.bind_some, if_neg hpos, hget, Option.bind_some, if_pos hpos']
    exact ⟨_, rfl⟩
  rename_i hpos'
  obtain ⟨real, hreal, h⟩ := Option.bind_eq_some_iff.mp h
  obtain rfl := Option.some.inj h
  have hplay := lookup_of_lookupMem hm h256 hplay (hin play (by simp))
  have h256 := length_pValueOut hplay h256
  have hget := lookup_of_lookupMem hm h256 hget (hin get (by simp))
  have h256 := length_pValueOut hget h256
  have hreal := lookup_of_lookupMem hm h256 hreal (hin real (by simp))
  rw [hplay, Option.bind_some, if_neg hpos, hget, Option.bind_some, if_neg hpos', hreal,
    Option.bind_some, ← apply_ite some]
  exact ⟨_, rfl⟩

/-- And the other way round. -/
theorem Session.stayInBounds_of_dataType (hm : Shows mem b) (hb : b.length = cmdLen)
    (h : ∃ r, Session.dataType b = some r) : StayInBounds (Session.lookups mem) := by
  obtain ⟨r, h⟩ := h
  have h256 := length_zeros 256
  obtain ⟨play, hplay, h⟩ := Option.bind_eq_some_iff.mp h
  obtain ⟨mplay, hmplay, hin, rfl⟩ := exists_lookupMem hm h256 hplay
  refine ⟨b.length, ?_⟩
  rw [← hb]
  simp only [lookups, hmplay, Option.bind_eq_bind, Option.bind_some]
  split at h
  · rename_i hpos
    exact ⟨_, if_pos hpos, by simpa using hin⟩
  rename_i hpos
  have h256 := length_pValueOut hplay h256
  obtain ⟨get, hget, h⟩ := Option.bind_eq_some_iff.mp h
  obtain ⟨mget, hmget, hin', rfl⟩ := exists_lookupMem hm h256 hget
  simp only [if_neg hpos, hmget, Option.bind_some]
  split at h
  · rename_i hpos'
    exact ⟨_, if_pos hpos', by simpa using ⟨hin, hin'⟩⟩
  rename_i hpos'
  have h256 := length_pValueOut hget h256
  obtain ⟨real, hreal, -⟩ := Option.bind_eq_some_iff.mp h
  obtain ⟨mreal, hmreal, hin'', rfl⟩ := exists_lookupMem hm h256 hreal
  simp only [if_neg hpos', hmreal, Option.bind_some]
  exact ⟨_, rfl, by simpa using ⟨hin, hin', hin''⟩⟩

/-- The session's lookups stay in bounds where those on the block do. -/
theorem Session.stayInBounds_iff_dataType (hm : Shows mem b) (hb : b.length = cmdLen) :
    StayInBounds (Session.lookups mem) ↔ ∃ r, Session.dataType b = some r :=
  ⟨exists_dataType hm hb, stayInBounds_of_dataType hm hb⟩

theorem dwCmd_window (hm : Shows mem b) (hb : b.length = cmdLen) :
    dwCmd (window mem 0 sizeofNetCmd) = dwCmd b := by
  rw [hm.window (by rw [hb]; decide), List.drop_zero, dwCmd_take b (by decide)]

/-- Where the task's lookups stay in the buffer, so do those on the block. -/
theorem TaskFileSend.control_ne_overrun (hm : Shows mem b) (hb : b.length = cmdLen)
    (h : StayInBounds (TaskFileSend.lookups mem)) : control b ≠ .overrun := by
  have h256 := length_zeros 256
  obtain ⟨fuel, ls, h, hin⟩ := h
  rw [← hb] at hin
  simp only [lookups, dwCmd_window hm hb] at h
  simp only [control]
  split at h
  · rename_i hcmd
    rw [if_pos hcmd]
    exact Control.noConfusion
  rename_i hcmd
  rw [if_neg hcmd]
  obtain ⟨name, hname, h⟩ := Option.bind_eq_some_iff.mp h
  split at h
  · rename_i hstart
    obtain ⟨tmstart, htmstart, h⟩ := Option.bind_eq_some_iff.mp h
    obtain ⟨tmend, htmend, h⟩ := Option.bind_eq_some_iff.mp h
    obtain rfl := Option.some.inj h
    rw [lookup_of_lookupMem hm h256 hname (hin name (by simp)),
      lookup_of_lookupMem hm h256 htmstart (hin tmstart (by simp)),
      lookup_of_lookupMem hm h256 htmend (hin tmend (by simp))]
    simp only [if_pos hstart]
    exact Control.noConfusion
  rename_i hstart
  split at h
  · rename_i hsetpause
    obtain ⟨value, hvalue, h⟩ := Option.bind_eq_some_iff.mp h
    obtain rfl := Option.some.inj h
    rw [lookup_of_lookupMem hm h256 hname (hin name (by simp)),
      lookup_of_lookupMem hm h256 hvalue (hin value (by simp))]
    simp only [if_neg hstart, if_pos hsetpause]
    exact Control.noConfusion
  · rename_i hsetpause
    obtain rfl := Option.some.inj h
    rw [lookup_of_lookupMem hm h256 hname (hin name (by simp))]
    simp only [if_neg hstart, if_neg hsetpause]
    split <;> exact Control.noConfusion

/-- And the other way round. -/
theorem TaskFileSend.stayInBounds_of_control (hm : Shows mem b) (hb : b.length = cmdLen)
    (h : control b ≠ .overrun) : StayInBounds (TaskFileSend.lookups mem) := by
  have h256 := length_zeros 256
  refine ⟨b.length, ?_⟩
  rw [← hb]
  simp only [lookups, dwCmd_window hm hb]
  simp only [control] at h
  split at h
  · rename_i hcmd
    exact ⟨_, if_pos hcmd, by simp⟩
  rename_i hcmd
  rw [if_neg hcmd]
  split at h
  · exact absurd rfl h
  rename_i name hname
  obtain ⟨mname, hmname, hin, rfl⟩ := exists_lookupMem hm h256 hname
  simp only [hmname, Option.bind_eq_bind, Option.bind_some]
  split at h
  · rename_i hstart
    rw [if_pos hstart]
    split at h
    · rename_i tmstart tmend htmstart htmend
      obtain ⟨mtmstart, hmtmstart, hin', -⟩ := exists_lookupMem hm h256 htmstart
      obtain ⟨mtmend, hmtmend, hin'', -⟩ := exists_lookupMem hm h256 htmend
      simp only [hmtmstart, hmtmend, Option.bind_some]
      exact ⟨_, rfl, by simpa using ⟨hin, hin', hin''⟩⟩
    · exact absurd rfl h
  rename_i hstart
  rw [if_neg hstart]
  split at h
  · rename_i hsetpause
    rw [if_pos hsetpause]
    split at h
    · rename_i value hvalue
      obtain ⟨mvalue, hmvalue, hin', -⟩ := exists_lookupMem hm h256 hvalue
      simp only [hmvalue, Option.bind_some]
      exact ⟨_, rfl, by simpa using ⟨hin, hin'⟩⟩
    · exact absurd rfl h
  · rename_i hsetpause
    rw [if_neg hsetpause]
    exact ⟨_, rfl, by simpa using hin⟩

/-- The task's lookups stay in bounds where those on the block do. -/
theorem TaskFileSend.stayInBounds_iff_control (hm : Shows mem b) (hb : b.length = cmdLen) :
    StayInBounds (TaskFileSend.lookups mem) ↔ control b ≠ .overrun :=
  ⟨control_ne_overrun hm hb, stayInBounds_of_control hm hb⟩

/-- Both sessions search and copy in bounds if and only if the content of the
buffer is terminated, and each value that they look up is closed in it, behind at
most 256 bytes. -/
theorem stayInBounds_iff {head payload rest : List UInt8} (hhead : head.length = sizeofNetCmd)
    (hlen : (head ++ (payload ++ rest)).length = cmdLen)
    (hm : Shows mem (head ++ (payload ++ rest))) :
    (StayInBounds (Session.lookups mem) ↔ OwnRequest (payload ++ rest)) ∧
      (StayInBounds (TaskFileSend.lookups mem) ↔
        (dwCmd (head ++ (payload ++ rest)) = moduleMsgControlPlay →
          OwnControl (payload ++ rest))) := by
  constructor
  · rw [Session.stayInBounds_iff_dataType hm hlen]
    have hnil : (payload ++ rest) ++ [] = payload ++ rest := List.append_nil _
    constructor
    · rintro ⟨r, hr⟩
      rw [← hnil] at hr
      exact ownRequest_of_dataType hhead (by simp) (by simp) hr
    · intro h
      obtain ⟨r, hr⟩ := dataType_of_ownRequest hhead h
      exact ⟨r, hnil ▸ hr []⟩
  · rw [TaskFileSend.stayInBounds_iff_control hm hlen]
    exact TaskFileSend.control_ne_overrun_iff hhead

end Sessions

/-- The client's request for "ab" in a clean buffer, with a zero byte behind it. -/
theorem stayInBounds_iff_fetch :
    (StayInBounds (Session.lookups (ofBlock 0 (netCmd moduleMsgLogin 0 16 ++
        (TaskFileRecv.fetchRequest (lit "ab") ++ zeros 1468)))) ↔
      OwnRequest (TaskFileRecv.fetchRequest (lit "ab") ++ zeros 1468)) ∧
    (StayInBounds (TaskFileSend.lookups (ofBlock 0 (netCmd moduleMsgLogin 0 16 ++
        (TaskFileRecv.fetchRequest (lit "ab") ++ zeros 1468)))) ↔
      (dwCmd (netCmd moduleMsgLogin 0 16 ++
          (TaskFileRecv.fetchRequest (lit "ab") ++ zeros 1468)) = moduleMsgControlPlay →
        OwnControl (TaskFileRecv.fetchRequest (lit "ab") ++ zeros 1468))) :=
  stayInBounds_iff rfl (by simp [TaskFileRecv.fetchRequest, lit, cmdLen]) (shows_ofBlock 0 _)

namespace Conn

/-- A request whose path has no closing quote. -/
def openGet : List UInt8 := netCmd moduleMsgLogin 0 15 ++ lit "<get path=\"ab/" ++ [0]

/-- It is received whole, and the search for the quote leaves the buffer. -/
theorem not_stayInBounds_openGet :
    ∃ c, run step (onAccept (zeros cmdLen) openGet)
        [.onRead (handlers fun _ => true) ⟨.avail 99, .avail 99, true, 0, []⟩] = some c ∧
      Act.framesOf .session c.acts = [openGet] ∧ c.sess.mReadBuff.length = cmdLen ∧
      ¬ StayInBounds (Session.lookups (ofBlock 0 c.sess.mReadBuff)) := by
  have hrun : (run step (onAccept (zeros cmdLen) openGet)
      [.onRead (handlers fun _ => true) ⟨.avail 99, .avail 99, true, 0, []⟩]).any
        (fun c => decide (Act.framesOf .session c.acts = [openGet] ∧
          c.sess.mReadBuff.length = cmdLen ∧ Session.dataType c.sess.mReadBuff = none)) = true := by
    decide +kernel
  obtain ⟨c, hc, h⟩ := (Option.any_eq_true _ _).mp hrun
  obtain ⟨hframes, hlen, hnone⟩ := of_decide_eq_true h
  refine ⟨c, hc, hframes, hlen, fun hin => ?_⟩
  obtain ⟨r, hr⟩ := (Session.stayInBounds_iff_dataType (shows_ofBlock 0 _) hlen).mp hin
  rw [hnone] at hr
  cases hr

end Conn

end FilesEvent
