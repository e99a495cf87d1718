import FilesEvent.Lookup

/-! Lookups in an element text. `PROTO_GetValueByName` knows neither tags nor
attributes: it takes the first place where the name stands in the text, skips
the two bytes behind it, and counts the bytes before the next quote, less one. -/

namespace FilesEvent
open Bytes Search

/-! ## Elements -/

def isLetter (c : UInt8) : Bool := 65 ≤ c && c ≤ 90 || 97 ≤ c && c ≤ 122

structure Attribute where
  name : List UInt8
  value : List UInt8
  name_ne : name ≠ []
  letters : ∀ c ∈ name, isLetter c = true
  value_text : 0 ∉ value ∧ 34 ∉ value
  value_le : value.length ≤ 255

/-- The attribute as it is printed, with the blank before it. -/
def Attribute.text (a : Attribute) : List UInt8 :=
  32 :: a.name ++ 61 :: 34 :: a.value ++ [34]

/-- An element without children; no two attributes have one name. -/
structure Element where
  tag : List UInt8
  attrs : List Attribute
  tag_text : 0 ∉ tag
  names_nodup : (attrs.map Attribute.name).Nodup

namespace Element

def text (e : Element) : List UInt8 := 60 :: e.tag ++ e.attrs.flatMap Attribute.text ++ lit " />"

/-- What a lookup of `name` has to give. -/
structure Answers (e : Element) (name : List UInt8) (r : Option Lookup) : Prop where
  present : ∀ a ∈ e.attrs, a.name = name → ∃ l, r = some l ∧ l.ret = 1 ∧
    l.pValueOut.take a.value.length = a.value ∧ l.pValueLen = a.value.length
  absent : name ∉ e.attrs.map Attribute.name → ∃ l, r = some l ∧ l.ret = 0 ∧ l.pValueLen = 0

/-- The lookup of `name` is right in every message that holds the element and its
terminator, whatever is behind them and in the output array. -/
def LooksUp (e : Element) (name : List UInt8) : Prop :=
  ∀ head rest pValueOut : List UInt8, head.length = sizeofNetCmd → 256 ≤ pValueOut.length →
    e.Answers name (protoGetValueByName (head ++ (e.text ++ 0 :: rest)) name pValueOut)

theorem zero_notMem_text (e : Element) : 0 ∉ e.text := by
  have hattrs : 0 ∉ e.attrs.flatMap Attribute.text := by
    simp only [List.mem_flatMap, not_exists, not_and]
    rintro a - h0
    have hname : (0 : UInt8) ∉ a.name := fun h => absurd (a.letters 0 h) (by decide)
    simp [Attribute.text, hname, a.value_text.1] at h0
  simp only [text, List.mem_append, List.mem_cons, hattrs, e.tag_text, or_false]
  decide

end Element

/-! ## What a lookup in a text does -/

section Lookup

variable {head text rest name out : List UInt8}

/-- The first occurrence of the name is followed by '=': the bytes up to the next
quote are copied, and their number less one is reported. -/
theorem lookup_valued (hhead : head.length = sizeofNetCmd) (h0 : 0 ∉ text)
    {before value after : List UInt8} {c : UInt8} (hfirst : Leftmost name text before.length)
    (htext : text ++ 0 :: rest = before ++ (name ++ 61 :: c :: (value ++ 34 :: after)))
    (hvalue : 34 ∉ value) (hout : value.length ≤ out.length) :
    protoGetValueByName (head ++ (text ++ 0 :: rest)) name out =
      some ⟨1, (value.length : Int) - 1, writeAt out 0 value⟩ := by
  have heq : (text ++ 0 :: rest)[before.length + name.length]? = some 61 := by
    rw [htext, List.getElem?_append_right (by omega), Nat.add_sub_cancel_left]
    simp
  have hdrop : (text ++ 0 :: rest).drop (before.length + name.length + 2) =
      value ++ 34 :: after := by
    rw [htext, Nat.add_assoc, ← List.drop_drop, List.drop_left, ← List.drop_drop, List.drop_left]
    rfl
  rw [protoGetValueByName_append hhead h0, strstr_eq_some.mpr hfirst]
  simp only [heq, if_true, hdrop, quoteIndex_append hvalue, Option.bind_some, if_pos hout,
    List.take_left]

/-- The name does not occur, or not with '=' behind its first occurrence. -/
theorem lookup_unvalued (hhead : head.length = sizeofNetCmd) (h0 : 0 ∉ text)
    (hfirst : ∀ p, Leftmost name text p → text[p + name.length]? ≠ some 61) :
    protoGetValueByName (head ++ (text ++ 0 :: rest)) name out = some ⟨0, 0, out⟩ := by
  rw [protoGetValueByName_append hhead h0]
  cases hp : strstr name text with
  | none => rfl
  | some p =>
    simp only [getElem?_terminated (strstr_le hp), if_neg (hfirst p (strstr_eq_some.mp hp))]

/-- The two cases are all that a lookup can do in bounds. -/
theorem lookup_cases (hhead : head.length = sizeofNetCmd) (h0 : 0 ∉ text) {r : Lookup}
    (h : protoGetValueByName (head ++ (text ++ 0 :: rest)) name out = some r) :
    (r = ⟨0, 0, out⟩ ∧ ∀ p, Leftmost name text p → text[p + name.length]? ≠ some 61) ∨
    ∃ before value after c, Leftmost name text before.length ∧
      text ++ 0 :: rest = before ++ (name ++ 61 :: c :: (value ++ 34 :: after)) ∧ 34 ∉ value ∧
      value.length ≤ out.length ∧ r = ⟨1, (value.length : Int) - 1, writeAt out 0 value⟩ := by
  rw [protoGetValueByName_append hhead h0] at h
  cases hp : strstr name text with
  | none =>
    rw [hp] at h
    refine .inl ⟨(Option.some.inj h).symm, fun p hfirst => ?_⟩
    exact absurd hfirst.1 (strstr_eq_none.mp hp p)
  | some p =>
    simp only [hp, getElem?_terminated (strstr_le hp)] at h
    have hfirst := strstr_eq_some.mp hp
    split at h
    · rename_i h61
      obtain ⟨i, hi, h⟩ := Option.bind_eq_some_iff.mp h
      split at h
      · rename_i hle
        obtain ⟨before, after', hbefore, htext⟩ := occursAt_iff_append.mp hfirst.1
        obtain ⟨value, after, hvalue, h34, rfl⟩ := exists_of_quoteIndex hi
        have hvalue' : (after' ++ 0 :: rest).drop 2 = value ++ 34 :: after := by
          rw [← hvalue, htext, ← hbefore, Nat.add_assoc, ← List.drop_drop, List.append_assoc,
            List.drop_left, ← List.drop_drop, List.append_assoc, List.drop_left]
        have h61' : after'[0]? = some 61 := by
          rw [← h61, htext, ← hbefore, List.getElem?_append_right (by omega),
            Nat.add_sub_cancel_left, List.getElem?_append_right (Nat.le_refl _), Nat.sub_self]
        obtain ⟨t, rfl⟩ : ∃ t, after' = 61 :: t := by
          cases after' with
          | nil => cases h61'
          | cons c t => exact ⟨t, by rw [Option.some.inj h61']⟩
        obtain ⟨c, hc⟩ : ∃ c, t ++ 0 :: rest = c :: (value ++ 34 :: after) := by
          cases t with
          | nil => exact ⟨0, by rw [← hvalue']; rfl⟩
          | cons c t => exact ⟨c, by rw [← hvalue']; rfl⟩
        refine .inr ⟨before, value, after, c, hbefore ▸ hfirst, ?_, h34, hle, ?_⟩
        · rw [htext, List.append_assoc, List.append_assoc, List.cons_append, hc]
        · rw [← Option.some.inj h, hvalue, List.take_left]
      · cases h
    · rename_i hne
      refine .inl ⟨(Option.some.inj h).symm, fun q hq => ?_⟩
      rwa [← hfirst.unique hq]

end Lookup

/-! ## When the answer is right -/

/-- Behind the first occurrence of the name stand '=', a byte, the value, one more
byte and a quote. -/
def FollowedBy (text name value : List UInt8) : Prop :=
  ∃ before c b after, Leftmost name text before.length ∧ b ≠ 34 ∧
    text ++ [0] = before ++ (name ++ 61 :: c :: (value ++ b :: 34 :: after))

namespace Element

/-- The first occurrence of the name gives the value of its attribute, and none to
a name without attribute. -/
structure Fits (e : Element) (name : List UInt8) : Prop where
  present : ∀ a ∈ e.attrs, a.name = name → FollowedBy e.text name a.value
  absent : name ∉ e.attrs.map Attribute.name →
    ∀ p, Leftmost name e.text p → e.text[p + name.length]? ≠ some 61

/-- A value that is reported with its own length was copied with one more byte. -/
theorem followedBy_of_answer {e : Element} {a : Attribute} {head out : List UInt8} {l : Lookup}
    (hhead : head.length = sizeofNetCmd)
    (h : protoGetValueByName (head ++ (e.text ++ [0])) a.name out = some l) (hret : l.ret = 1)
    (hvalue : l.pValueOut.take a.value.length = a.value)
    (hlen : l.pValueLen = a.value.length) : FollowedBy e.text a.name a.value := by
  rcases lookup_cases hhead e.zero_notMem_text h with ⟨rfl, -⟩ |
    ⟨before, value, after, c, hfirst, htext, h34, hle, rfl⟩
  · cases hret
  · have hlong : value.length = a.value.length + 1 := by
      simp only at hlen
      omega
    have htake : value.take a.value.length = a.value := by
      rw [writeAt_zero hle, List.take_append_of_le_length (by omega)] at hvalue
      exact hvalue
    obtain ⟨b, hb⟩ : ∃ b, value.drop a.value.length = [b] :=
      List.length_eq_one_iff.mp (by rw [List.length_drop]; omega)
    obtain rfl : value = a.value ++ [b] := by
      rw [← List.take_append_drop a.value.length value, htake, hb]
    refine ⟨before, c, b, after, hfirst, ?_, by simpa using htext⟩
    rintro rfl
    simp at h34

/-- The answers are right if and only if the first occurrence of the name fits. -/
theorem looksUp_iff (e : Element) (name : List UInt8) : e.LooksUp name ↔ e.Fits name := by
  constructor
  · intro h
    have hans := h (zeros 16) [] (zeros 256) (length_zeros 16) (by simp)
    refine ⟨fun a ha hname => ?_, fun habsent => ?_⟩
    · obtain ⟨l, hl, hret, hvalue, hlen⟩ := hans.present a ha hname
      subst hname
      exact followedBy_of_answer (length_zeros 16) hl hret hvalue hlen
    · obtain ⟨l, hl, hret, -⟩ := hans.absent habsent
      rcases lookup_cases (length_zeros 16) e.zero_notMem_text hl with ⟨-, hfirst⟩ |
        ⟨before, value, after, c, -, -, -, -, rfl⟩
      · exact hfirst
      · cases hret
  · intro h head rest out hhead hout
    refine ⟨fun a ha hname => ?_, fun habsent => ?_⟩
    · obtain ⟨before, c, b, after, hfirst, hb, htext⟩ := h.present a ha hname
      have hle : (a.value ++ [b]).length ≤ out.length := by
        have := a.value_le
        simp only [List.length_append, List.length_singleton]
        omega
      have h34 : 34 ∉ a.value ++ [b] := by
        simp [a.value_text.2, Ne.symm hb]
      have htext' : e.text ++ 0 :: rest =
          before ++ (name ++ 61 :: c :: (a.value ++ [b] ++ 34 :: (after ++ rest))) := by
        rw [List.append_cons, htext]
        simp
      refine ⟨_, lookup_valued hhead e.zero_notMem_text hfirst htext' h34 hle, rfl, ?_, ?_⟩
      · rw [writeAt_zero hle]
        simp
      · simp
    · exact ⟨_, lookup_unvalued hhead e.zero_notMem_text (h.absent habsent), rfl, rfl⟩

/-- An attribute that is found at its own place is reported one byte short. -/
theorem not_looksUp_of_own_place {e : Element} {a : Attribute} (ha : a ∈ e.attrs)
    {before after : List UInt8} (hfirst : Leftmost a.name e.text before.length)
    (htext : e.text = before ++ (a.name ++ 61 :: 34 :: (a.value ++ 34 :: after))) :
    ¬ e.LooksUp a.name := by
  intro h
  obtain ⟨before', c, b, after', hfirst', hb, htext'⟩ :=
    ((looksUp_iff e a.name).mp h).present a ha rfl
  have hlen : before'.length = before.length := hfirst'.unique hfirst
  rw [htext, List.append_assoc] at htext'
  obtain ⟨-, hrest⟩ := List.append_inj htext' hlen.symm
  simp only [List.append_assoc, List.append_cancel_left_eq, List.cons_append, List.cons.injEq,
    true_and] at hrest
  exact hb hrest.2.1.symm

/-- The attribute `path="ab"`. -/
def pathAb : Attribute :=
  ⟨lit "path", lit "ab", by decide, List.all_eq_true.mp (by decide), by decide, by decide⟩

/-- The element `<get path="ab" />`. -/
def getAb : Element := ⟨lit "get", [pathAb], by decide, by decide⟩

/-- The two bytes of the path are copied and reported as one. -/
theorem not_looksUp_path : ¬ getAb.LooksUp (lit "path") := by
  have hfirst : Leftmost (lit "path") getAb.text (lit "<get ").length := by decide
  have htext : getAb.text =
      lit "<get " ++ (pathAb.name ++ 61 :: 34 :: (pathAb.value ++ 34 :: lit " />")) := by decide
  exact not_looksUp_of_own_place (a := pathAb) (List.mem_singleton.mpr rfl) hfirst htext

end Element

end FilesEvent
