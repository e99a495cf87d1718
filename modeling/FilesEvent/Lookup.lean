import FilesEvent.Lib.Search
import FilesEvent.Protocol

/-! `PROTO_GetValueByName` of `BaseUtils.cpp` and the C string functions it and
its callers use. Memory is the rest of an array from a pointer on; `none` means
that a read or a store would leave the array. -/

namespace FilesEvent
open Bytes Search

/-! ## C strings -/

/-- The C string at the start of `mem`, without its terminator. -/
def cString (mem : List UInt8) : Option (List UInt8) :=
  if 0 ∈ mem then some (mem.takeWhile (· ≠ 0)) else none

/-- `strstr`: where `name` first occurs in the string `s`. -/
def strstr (name : List UInt8) : List UInt8 → Option Nat
  | [] => if name.isPrefixOf [] then some 0 else none
  | c :: s => if name.isPrefixOf (c :: s) then some 0 else (strstr name s).map (· + 1)

/-- The number of bytes before the next quote. -/
def quoteIndex : List UInt8 → Option Nat
  | [] => none
  | c :: mem => if c = 34 then some 0 else (quoteIndex mem).map (· + 1)

/-- The bytes of a string literal. -/
def lit (s : String) : List UInt8 := s.toList.map fun c => UInt8.ofNat c.toNat

/-! ## The lookup -/

structure Lookup where
  ret : Int
  pValueLen : Int
  pValueOut : List UInt8

/-- `PROTO_GetValueByName(pData, pName, pValueOut, pValueLen)`. The search starts
at `lpData`, behind the header. A value found is copied without a terminator, and
its reported length is one less than the number of bytes copied. -/
def protoGetValueByName (pData pName pValueOut : List UInt8) : Option Lookup := do
  let ptr := pData.drop sizeofNetCmd
  match strstr pName (← cString ptr) with
  | none => some ⟨0, 0, pValueOut⟩
  | some p =>
      if ptr[p + pName.length]? = some 61 then
        let value := ptr.drop (p + pName.length + 2)
        let i ← quoteIndex value
        if i ≤ pValueOut.length then
          some ⟨1, (i : Int) - 1, writeAt pValueOut 0 (value.take i)⟩
        else none
      else some ⟨0, 0, pValueOut⟩

/-! ## Lookups in a text followed by a terminator -/

theorem cString_append {s : List UInt8} (hs : 0 ∉ s) (rest : List UInt8) :
    cString (s ++ 0 :: rest) = some s := by
  have htw : (s ++ 0 :: rest).takeWhile (· ≠ 0) = s := by
    rw [List.takeWhile_append_of_pos]
    · simp
    · intro a ha
      simpa using fun h0 : a = 0 => hs (h0 ▸ ha)
  rw [cString, if_pos (by simp), htw]

theorem quoteIndex_append {v : List UInt8} (hv : 34 ∉ v) (rest : List UInt8) :
    quoteIndex (v ++ 34 :: rest) = some v.length := by
  induction v with
  | nil => simp [quoteIndex]
  | cons c v ih =>
    have hc : c ≠ 34 := fun h => hv (by simp [h])
    simp [quoteIndex, hc, ih (fun h => hv (by simp [h]))]

/-- A byte that the name does not contain ends the comparison. -/
theorem isPrefixOf_append {name : List UInt8} {c : UInt8} (hc : c ∉ name) (p s : List UInt8) :
    name.isPrefixOf (p ++ c :: s) = name.isPrefixOf p := by
  induction name generalizing p with
  | nil => simp
  | cons a name ih =>
    have ha : ¬ a = c := fun h => hc (by simp [h])
    cases p with
    | nil => simp [List.isPrefixOf, ha]
    | cons b p => simp [List.isPrefixOf, ih (fun h => hc (by simp [h])) p]

/-- A name is found before or behind a byte that it does not contain. -/
theorem strstr_append {name : List UInt8} {c : UInt8} (hc : c ∉ name) (hne : name ≠ [])
    (p s : List UInt8) :
    strstr name (p ++ c :: s) =
      (strstr name p).or ((strstr name s).map (· + (p.length + 1))) := by
  have hnil : name.isPrefixOf [] = false := by
    cases name with
    | nil => exact absurd rfl hne
    | cons a name => rfl
  induction p with
  | nil =>
    have hpre := isPrefixOf_append hc [] s
    rw [List.nil_append, hnil] at hpre
    simp [strstr, hpre, hnil]
  | cons b p ih =>
    have hpre := isPrefixOf_append hc (b :: p) s
    rw [List.cons_append] at hpre
    simp only [List.cons_append, strstr, hpre, ih]
    split
    · rfl
    · cases strstr name p with
      | none =>
        cases strstr name s with
        | none => rfl
        | some k => simp [Nat.add_assoc]
      | some k => rfl

/-- The lookup in a message that holds a text and its terminator. -/
theorem protoGetValueByName_append {head text : List UInt8} (hhead : head.length = sizeofNetCmd)
    (h0 : 0 ∉ text) (rest pName pValueOut : List UInt8) :
    protoGetValueByName (head ++ (text ++ 0 :: rest)) pName pValueOut =
      match strstr pName text with
      | none => some ⟨0, 0, pValueOut⟩
      | some p =>
          if (text ++ 0 :: rest)[p + pName.length]? = some 61 then
            let value := (text ++ 0 :: rest).drop (p + pName.length + 2)
            (quoteIndex value).bind fun i =>
              if i ≤ pValueOut.length then
                some ⟨1, (i : Int) - 1, writeAt pValueOut 0 (value.take i)⟩
              else none
          else some ⟨0, 0, pValueOut⟩ := by
  have hdrop : (head ++ (text ++ 0 :: rest)).drop sizeofNetCmd = text ++ 0 :: rest := by
    rw [← hhead, List.drop_left]
  simp only [protoGetValueByName, hdrop, cString_append h0, Option.bind_eq_bind, Option.bind_some]

theorem strstr_le {name s : List UInt8} {k : Nat} (h : strstr name s = some k) :
    k + name.length ≤ s.length := by
  induction s generalizing k with
  | nil =>
    simp only [strstr] at h
    split at h
    · rename_i hpre
      obtain rfl := Option.some.inj h
      simpa using (List.isPrefixOf_iff_prefix.mp hpre).length_le
    · cases h
  | cons c s ih =>
    simp only [strstr] at h
    split at h
    · rename_i hpre
      obtain rfl := Option.some.inj h
      simpa using (List.isPrefixOf_iff_prefix.mp hpre).length_le
    · obtain ⟨j, hj, rfl⟩ := Option.map_eq_some_iff.mp h
      have := ih hj
      rw [List.length_cons]
      omega

theorem quoteIndex_eq_none {v : List UInt8} (hv : 34 ∉ v) : quoteIndex v = none := by
  induction v with
  | nil => rfl
  | cons c v ih =>
    have hc : c ≠ 34 := fun h => hv (by simp [h])
    simp [quoteIndex, hc, ih (fun h => hv (by simp [h]))]

theorem quoteIndex_append_of_some {v : List UInt8} {i : Nat} (h : quoteIndex v = some i)
    (t : List UInt8) : quoteIndex (v ++ t) = some i ∧ (v ++ t).take i = v.take i := by
  induction v generalizing i with
  | nil => cases h
  | cons c v ih =>
    simp only [quoteIndex] at h
    split at h
    · rename_i hc
      obtain rfl := Option.some.inj h
      exact ⟨by simp [quoteIndex, hc], rfl⟩
    · rename_i hc
      obtain ⟨j, hj, rfl⟩ := Option.map_eq_some_iff.mp h
      obtain ⟨hindex, htake⟩ := ih hj
      exact ⟨by simp [quoteIndex, hc, hindex], by simp [htake]⟩

/-- A '=' at the end of a string or before it lies in the string. -/
theorem getElem?_terminated {text : List UInt8} {k : Nat} (hk : k ≤ text.length)
    (rest : List UInt8) : (text ++ 0 :: rest)[k]? = some 61 ↔ text[k]? = some 61 := by
  rcases Nat.lt_or_eq_of_le hk with hlt | rfl
  · rw [List.getElem?_append_left hlt]
  · simp

/-! ## What the searches find -/

/-- `strstr` stops at the leftmost occurrence. -/
theorem strstr_eq_some {name s : List UInt8} {p : Nat} :
    strstr name s = some p ↔ Leftmost name s p := by
  induction s generalizing p with
  | nil =>
    cases name with
    | nil =>
      simp only [strstr, List.isPrefixOf_nil_left, if_true, Option.some.injEq]
      constructor
      · rintro rfl
        exact leftmost_zero.mpr List.nil_prefix
      · exact fun h => Leftmost.unique (leftmost_zero.mpr List.nil_prefix) h
    | cons c name => simp [strstr, Leftmost, occursAt_nil]
  | cons c s ih =>
    by_cases hpre : name <+: c :: s
    · rw [strstr, if_pos (List.isPrefixOf_iff_prefix.mpr hpre), Option.some.injEq]
      constructor
      · rintro rfl
        exact leftmost_zero.mpr hpre
      · exact fun h => Leftmost.unique (leftmost_zero.mpr hpre) h
    · rw [strstr, if_neg fun h => hpre (List.isPrefixOf_iff_prefix.mp h)]
      cases p with
      | zero => simp [leftmost_zero, hpre]
      | succ p => simp [leftmost_cons_succ hpre, ih]

theorem strstr_eq_none {name s : List UInt8} :
    strstr name s = none ↔ ∀ p, ¬ OccursAt name s p := by
  constructor
  · intro h p hp
    obtain ⟨q, hq⟩ := exists_leftmost ⟨p, hp⟩
    rw [strstr_eq_some.mpr hq] at h
    cases h
  · intro h
    cases hs : strstr name s with
    | none => rfl
    | some p => exact absurd (strstr_eq_some.mp hs).1 (h p)

/-- The scan for the closing quote stops at the first one. -/
theorem exists_of_quoteIndex {w : List UInt8} {i : Nat} (h : quoteIndex w = some i) :
    ∃ v after, w = v ++ 34 :: after ∧ 34 ∉ v ∧ v.length = i := by
  induction w generalizing i with
  | nil => cases h
  | cons c w ih =>
    simp only [quoteIndex] at h
    split at h
    · rename_i hc
      exact ⟨[], w, by rw [hc]; rfl, by simp, Option.some.inj h⟩
    · rename_i hc
      obtain ⟨j, hj, rfl⟩ := Option.map_eq_some_iff.mp h
      obtain ⟨v, after, rfl, hv, rfl⟩ := ih hj
      exact ⟨c :: v, after, rfl, by simp [hv, Ne.symm hc], rfl⟩

end FilesEvent
