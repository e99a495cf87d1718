import FilesEvent.Terminators

/-! What a `BufferCache` is for: a queue of bytes, which takes bytes at its end and
gives them back from the front, by number or by line. As long as no content is larger
than an `int` can count, the caches hold what the queues do. -/

namespace FilesEvent

open Bytes (asInt asSize)
open Evbuffer (isLineEnd lineEnd)
open Runs (run Meets)

/-! ## Lines -/

/-- The first line of a queue, and what is behind it and its end, which is one of
"\r", "\n", "\r\n" and "\n\r". -/
def takeLine (q : List UInt8) : Option (List UInt8 × List UInt8) :=
  match q.dropWhile fun c => !isLineEnd c with
  | [] => none
  | c :: rest =>
      some (q.takeWhile fun c => !isLineEnd c,
        match rest with
        | [] => []
        | d :: rest' => if isLineEnd d ∧ d ≠ c then rest' else rest)

namespace Evbuffer

theorem lineEnd_eq (data : List UInt8) (i : Nat) (h : i + data.length < 4294967296) :
    lineEnd data i = some (i + (data.takeWhile fun c => !isLineEnd c).length) := by
  induction data generalizing i with
  | nil => rfl
  | cons c data ih =>
    rw [List.length_cons] at h
    rw [lineEnd, List.takeWhile_cons]
    cases hc : isLineEnd c with
    | true => rfl
    | false =>
      rw [if_neg Bool.false_ne_true, if_neg (by omega), ih (i + 1) (by omega)]
      simp only [Bool.not_false, if_true, List.length_cons]
      congr 1
      omega

/-- `evbuffer_readline` takes the first line off the buffer. -/
theorem Ok.readline_eq {b : Evbuffer} (h : b.Ok) (hsize : b.off < 4294967295) :
    ∃ b', b.readline = some (b', (takeLine b.content).map (·.1)) ∧
      b'.content = ((takeLine b.content).map (·.2)).getD b.content := by
  have hlen := h.length_content
  have hend := lineEnd_eq b.content 0 (by omega)
  have hsplit := List.takeWhile_append_dropWhile (p := fun c => !isLineEnd c) (l := b.content)
  rw [Nat.zero_add] at hend
  unfold Evbuffer.readline takeLine
  rw [hend, Option.bind_some]
  generalize hline : (b.content.takeWhile fun c => !isLineEnd c) = line at *
  generalize (b.content.dropWhile fun c => !isLineEnd c) = rest at *
  have hlen' : line.length + rest.length = b.off := by
    rw [← hlen, ← hsplit, List.length_append]
  cases rest with
  | nil =>
    rw [if_pos (by simpa using hlen')]
    exact ⟨b, rfl, rfl⟩
  | cons c rest =>
    rw [List.length_cons] at hlen'
    have hc : b.content.getD line.length 0 = c := by
      rw [← hsplit]
      simp
    have htake : b.content.take line.length = line := by
      rw [← hsplit]
      simp
    have hdrop : ∀ k, b.content.drop (line.length + k) = (c :: rest).drop k := fun k => by
      rw [← hsplit, ← List.drop_drop, List.drop_left]
    rw [if_neg (by omega), if_neg (by omega), hc, htake]
    refine ⟨_, rfl, ?_⟩
    cases rest with
    | nil =>
      simp only [List.length_nil] at hlen'
      rw [if_neg (by omega), content_drain, Nat.mod_eq_of_lt (by omega), hdrop 1]
      rfl
    | cons d rest =>
      have hd : b.content.getD (line.length + 1) 0 = d := by
        rw [← hsplit]
        simp
      rw [List.length_cons] at hlen'
      rw [hd, content_drain]
      by_cases htwo : isLineEnd d = true ∧ d ≠ c
      · rw [if_pos ⟨by omega, htwo⟩, Nat.mod_eq_of_lt (by omega), Nat.add_assoc, hdrop 2]
        simp only [if_pos htwo, Option.map_some, Option.getD_some]
        rfl
      · rw [if_neg fun hall => htwo hall.2, Nat.mod_eq_of_lt (by omega), hdrop 1]
        simp only [if_neg htwo, Option.map_some, Option.getD_some]
        rfl

/-- The NUL behind the bytes is none of them. -/
theorem Ok.content_terminate {b : Evbuffer} (h : b.Ok) : b.terminate.content = b.content := by
  have hblock : b.terminate.block = Bytes.writeAt b.block (b.buffer + b.off) [0] := by
    cases horig : b.orig_buffer <;> simp [Evbuffer.terminate, block, horig, Bytes.writeAt]
  have hin : b.buffer + b.off ≤ b.block.length := by
    rw [h.allocated, h.aligned]
    exact h.fits
  rw [content, content, hblock]
  change ((Bytes.writeAt b.block (b.buffer + b.off) [0]).drop b.buffer).take b.off = _
  rw [List.take_drop, List.take_drop, Bytes.writeAt, List.append_assoc,
    List.take_append_of_le_length (by rw [List.length_take]; omega), List.take_take, Nat.min_self]

end Evbuffer

/-! ## One cache -/

namespace BufferCache

variable {b b' buffer : BufferCache} {fresh : Nat → UInt8}

theorem content_getBuffer (b : BufferCache) : b.getBuffer.1.content = b.content := by
  unfold getBuffer
  split
  · exact b.ok.content_terminate
  · rfl

/-- What `getBuffer` shows begins with the content. -/
theorem getBuffer_take (b : BufferCache) : b.getBuffer.2.1.take b.getSize = b.content := by
  have hcontent := content_getBuffer b
  unfold getBuffer at hcontent ⊢
  split
  · rename_i horig
    rw [horig] at hcontent
    exact hcontent
  · rename_i horig
    have hlen := b.length_content
    have hnil : b.content = [] := by simp [content, Evbuffer.content, Evbuffer.block, horig]
    rw [hnil, List.length_nil] at hlen
    rw [hnil, ← hlen, List.take_zero]

theorem content_appendCache (hsize : buffer.getSize < 2147483648)
    (h : (b.appendCache fresh buffer).1 = some b') :
    b'.content = b.content ++ buffer.content ∧
      (b.appendCache fresh buffer).2.1.content = buffer.content := by
  unfold appendCache at h ⊢
  split at h
  · rename_i hpos
    have hint : asInt buffer.getSize = buffer.getSize := Bytes.asInt_of_lt hsize
    rw [hint] at h
    have happend := content_append (by omega) h
    rw [Bytes.asSize_of_nonneg (by omega) (by omega), Int.toNat_natCast, getBuffer_take] at happend
    rw [if_pos hpos]
    exact ⟨happend, content_getBuffer buffer⟩
  · rename_i hzero
    obtain rfl := Option.some.inj h
    have hnil : buffer.content = [] := List.eq_nil_of_length_eq_zero (by rw [length_content]; omega)
    rw [if_neg hzero, hnil, List.append_nil]
    exact ⟨rfl, rfl⟩

/-- `erase` with a negative number drops everything. -/
theorem content_erase_int (hsize : b.getSize < 2147483648) {len : Int} (hmin : -2147483648 ≤ len)
    (hmax : len < 2147483648) :
    (b.erase len).content = if len < 0 then [] else b.content.drop len.toNat := by
  rw [content_erase]
  split
  · rename_i hneg
    have hlarge := Bytes.asSize_neg hneg hmin
    exact List.drop_of_length_le (by rw [length_content]; omega)
  · rw [Bytes.asSize_of_nonneg (by omega) (by omega)]

theorem content_reset (hsize : b.getSize < 2147483648) : b.reset.content = [] := by
  have hint : asInt b.getSize = b.getSize := Bytes.asInt_of_lt hsize
  rw [reset, content_erase_int hsize (by omega) (by omega), if_neg (by omega), hint,
    Int.toNat_natCast]
  exact List.drop_of_length_le (Nat.le_of_eq b.length_content)

theorem getLine_map (b : BufferCache) :
    b.getLine.map (fun r => (r.1.mBuffer, r.2)) = b.mBuffer.readline := by
  unfold getLine
  split
  · rename_i h
    exact h.symm
  · rename_i h
    exact h.symm

theorem getLine_eq (hsize : b.getSize < 2147483648) :
    ∃ b', b.getLine = some (b', (takeLine b.content).map (·.1)) ∧
      b'.content = ((takeLine b.content).map (·.2)).getD b.content := by
  obtain ⟨e, he, hcontent⟩ := b.ok.readline_eq (Nat.lt_trans hsize (by decide))
  obtain ⟨⟨b', line⟩, hb', heq⟩ := Option.map_eq_some_iff.mp (b.getLine_map.trans he)
  obtain ⟨rfl, rfl⟩ := Prod.mk.inj heq
  exact ⟨b', hb', hcontent⟩

/-- `take` leaves room for its NUL; without any room at all it drops everything. -/
theorem content_take_drop (hsize : b.getSize < 2147483648) {len : Int} (hmin : 0 ≤ len)
    (hmax : len < 2147483648) :
    (b.take len).1.content = if len = 0 then [] else b.content.drop (len.toNat - 1) := by
  have hdrain : (b.take len).1.content = b.content.drop
      (if b.mBuffer.off ≤ asSize (len - 1) then b.mBuffer.off else asSize (len - 1)) :=
    Evbuffer.content_drain _ _
  have hlen : b.content.length = b.mBuffer.off := b.length_content
  have hoff : b.mBuffer.off < 2147483648 := hsize
  rw [hdrain]
  by_cases hzero : len = 0
  · have hlarge : 18446744071562067968 ≤ asSize (len - 1) :=
      Bytes.asSize_neg (by omega) (by omega)
    rw [if_pos hzero, if_pos (by omega)]
    exact List.drop_of_length_le (Nat.le_of_eq hlen)
  · have hsmall : asSize (len - 1) = len.toNat - 1 := by
      rw [Bytes.asSize_of_nonneg (by omega) (by omega)]
      omega
    rw [if_neg hzero, hsmall]
    by_cases hall : b.mBuffer.off ≤ len.toNat - 1
    · rw [if_pos hall, List.drop_of_length_le (Nat.le_of_eq hlen),
        List.drop_of_length_le (Nat.le_trans (Nat.le_of_eq hlen) hall)]
    · rw [if_neg hall]

end BufferCache

/-! ## Any number of caches -/

/-- What a call does to the queues. -/
def CacheCall.apply (qs : List (List UInt8)) : CacheCall → List (List UInt8)
  | .construct => qs ++ [[]]
  | .append i buffer _ => qs.modify i (· ++ buffer)
  | .appendCache i j _ => qs.modify i (· ++ qs.getD j [])
  | .erase i len => qs.modify i fun q => if len < 0 then [] else q.drop len.toNat
  | .reset i => qs.modify i fun _ => []
  | .getBuffer _ => qs
  | .getLine i => qs.modify i fun q => ((takeLine q).map (·.2)).getD q
  | .take i len => qs.modify i fun q => if len = 0 then [] else q.drop (len.toNat - 1)
  | .takeCache i => qs.set i [] ++ [qs.getD i []]

namespace Caches

def contents (s : Caches) : List (List UInt8) := s.objects.map BufferCache.content

/-- No content is larger than an `int` can count. -/
def Small (s : Caches) : Prop := ∀ b ∈ s.objects, b.getSize < 2147483648

section Put

variable {s : Caches} {i : Nat} {b b' : BufferCache}

theorem exists_of_put {r : Option BufferCache} {stores : List Store}
    (hret : (s.put i r stores).stuck = false) :
    ∃ b', r = some b' := by
  cases r with
  | none => cases hret
  | some b' => exact ⟨b', rfl⟩

/-- A property of the objects that `f` changes as the call changes the object. -/
theorem map_put {α : Type} (g : BufferCache → α) (stores : List Store) {f : α → α}
    (hget : s.objects[i]? = some b) (hb' : g b' = f (g b)) :
    (s.put i (some b') stores).objects.map g = (s.objects.map g).modify i f := by
  have hq : (s.objects.map g)[i]? = some (g b) := by
    rw [List.getElem?_map, hget, Option.map_some]
  have : Inhabited α := ⟨g b⟩
  rw [List.modify_eq_set, hq, Option.getD_some, ← hb']
  exact List.map_set

theorem map_put_same {α : Type} (g : BufferCache → α) (stores : List Store)
    (hget : s.objects[i]? = some b) (hb' : g b' = g b) :
    (s.put i (some b') stores).objects.map g = s.objects.map g := by
  have hid := map_put g stores (f := id) hget hb'
  rwa [List.modify_id] at hid

theorem contents_put (stores : List Store) (f : List UInt8 → List UInt8)
    (hget : s.objects[i]? = some b)
    (hb' : b'.content = f b.content) :
    (s.put i (some b') stores).contents = s.contents.modify i f :=
  map_put BufferCache.content stores hget hb'

theorem contents_put_same (stores : List Store) (hget : s.objects[i]? = some b) (hb' : b'.content = b.content) :
    (s.put i (some b') stores).contents = s.contents :=
  map_put_same BufferCache.content stores hget hb'

end Put

/-- A call that returns does to the contents what it does to the queues. -/
theorem contents_call {s s' : Caches} {c : CacheCall} (hsmall : s.Small)
    (h : s.call c = some s') (hret : s'.stuck = false) : s'.contents = c.apply s.contents := by
  have hsize : ∀ {i : Nat} {b : BufferCache}, s.objects[i]? = some b → b.getSize < 2147483648 :=
    fun hget => hsmall _ (List.mem_of_getElem? hget)
  have hqueue : ∀ {i : Nat} {b : BufferCache}, s.objects[i]? = some b →
      s.contents.getD i [] = b.content := by
    intro i b hget
    rw [List.getD_eq_getElem?_getD, contents, List.getElem?_map, hget]
    rfl
  cases c with
  | construct =>
    obtain rfl := Option.some.inj h
    exact List.map_append
  | append i buffer fresh =>
    simp only [call] at h
    split at h
    · rename_i hlen
      obtain ⟨b, hget, rfl⟩ := Option.map_eq_some_iff.mp h
      obtain ⟨b', hb'⟩ := exists_of_put hret
      have happend := BufferCache.content_append (by omega) hb'
      rw [Bytes.asSize_of_nonneg (by omega) (by omega), Int.toNat_natCast, List.take_length]
        at happend
      rw [hb']
      exact contents_put _ _ hget happend
    · cases h
  | appendCache i j fresh =>
    simp only [call] at h
    split at h
    · rename_i hne
      obtain ⟨b, hi, h⟩ := Option.bind_eq_some_iff.mp h
      obtain ⟨buffer, hj, rfl⟩ := Option.map_eq_some_iff.mp h
      obtain ⟨b', hb'⟩ := exists_of_put hret
      obtain ⟨happend, hsame⟩ := BufferCache.content_appendCache (hsize hj) hb'
      -- showing the other cache leaves both contents
      have hi' : (s.put j (some (b.appendCache fresh buffer).2.1)
          (b.appendCache fresh buffer).2.2).objects[i]? = some b :=
        (List.getElem?_set_ne (Ne.symm hne)).trans hi
      have hput := contents_put [] (· ++ buffer.content) hi' happend
      rw [hb', hput, contents_put_same _ hj hsame, CacheCall.apply, hqueue hj]
    · cases h
  | erase i len =>
    simp only [call] at h
    split at h
    · rename_i hlen
      obtain ⟨b, hget, rfl⟩ := Option.map_eq_some_iff.mp h
      exact contents_put _ _ hget (BufferCache.content_erase_int (hsize hget) hlen.1 hlen.2)
    · cases h
  | reset i =>
    obtain ⟨b, hget, rfl⟩ := Option.map_eq_some_iff.mp h
    exact contents_put _ _ hget (BufferCache.content_reset (hsize hget))
  | getBuffer i =>
    obtain ⟨b, hget, rfl⟩ := Option.map_eq_some_iff.mp h
    exact contents_put_same _ hget b.content_getBuffer
  | getLine i =>
    obtain ⟨b, hget, rfl⟩ := Option.map_eq_some_iff.mp h
    obtain ⟨b', hline, hcontent⟩ := BufferCache.getLine_eq (hsize hget)
    rw [hline]
    exact contents_put _ _ hget hcontent
  | take i len =>
    simp only [call] at h
    split at h
    · rename_i hlen
      obtain ⟨b, hget, rfl⟩ := Option.map_eq_some_iff.mp h
      exact contents_put _ _ hget (BufferCache.content_take_drop (hsize hget) hlen.1 hlen.2)
    · cases h
  | takeCache i =>
    obtain ⟨b, hget, rfl⟩ := Option.map_eq_some_iff.mp h
    rw [CacheCall.apply, hqueue hget, contents, List.map_append, List.map_set]
    rfl

/-- Nothing follows a call that has not returned. -/
theorem not_stuck_of_run {cs : List CacheCall} {s t : Caches} (h : run step s cs = some t)
    (hret : t.stuck = false) : s.stuck = false := by
  cases cs with
  | nil =>
    cases h
    exact hret
  | cons c cs =>
    obtain ⟨s', hs, -⟩ := Runs.run_cons.mp h
    unfold step at hs
    split at hs
    · cases hs
    · rename_i hstuck
      exact eq_false_of_ne_true hstuck

/-- A run whose contents stay small, and whose calls all return, leaves in the caches
what it leaves in the queues. -/
theorem contents_run {cs : List CacheCall} {s t : Caches}
    (hsmall : Meets step (fun s _ => s.Small) s cs) (h : run step s cs = some t)
    (hret : t.stuck = false) : t.contents = cs.foldl CacheCall.apply s.contents := by
  induction cs generalizing s with
  | nil =>
    cases h
    rfl
  | cons c cs ih =>
    obtain ⟨s', hs, ht⟩ := Runs.run_cons.mp h
    have hcall : s.call c = some s' := by
      rwa [step, if_neg (ne_true_of_eq_false (not_stuck_of_run h hret))] at hs
    have hfirst := contents_call hsmall.1 hcall (not_stuck_of_run ht hret)
    rw [List.foldl_cons, ← hfirst]
    exact ih (hsmall.2 s' hs) ht

end Caches

end FilesEvent
