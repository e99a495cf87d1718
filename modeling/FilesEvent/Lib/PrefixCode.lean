/-! Prefix-free codes: sets of words none of which begins another. A
concatenation of such words is read back in one way only, also when only a
beginning of it is known. -/

namespace FilesEvent.PrefixCode

variable {α : Type _}

/-- No word of `C` is a prefix of another word of `C`, and none is empty. -/
structure PrefixFree (C : List α → Prop) : Prop where
  ne_nil : ∀ w, C w → w ≠ []
  unique : ∀ v w x y, C v → C w → v ++ x = w ++ y → v = w

variable {C : List α → Prop}

/-- There are no more words than letters. -/
theorem PrefixFree.length_le_flatten (hC : PrefixFree C) {ds : List (List α)}
    (hd : ∀ w ∈ ds, C w) : ds.length ≤ ds.flatten.length := by
  induction ds with
  | nil => exact Nat.le_refl 0
  | cons d ds ih =>
    obtain ⟨hw, hds⟩ := List.forall_mem_cons.mp hd
    have hpos := List.length_pos_iff.mpr (hC.ne_nil d hw)
    have := ih hds
    rw [List.flatten_cons, List.length_append, List.length_cons]
    omega

/-- Two readings of the same word agree: one list of words begins the other. -/
theorem PrefixFree.flatten_compare (hC : PrefixFree C) {ds fs : List (List α)} {x y : List α}
    (hd : ∀ w ∈ ds, C w) (hf : ∀ w ∈ fs, C w) (h : ds.flatten ++ x = fs.flatten ++ y) :
    (∃ rest, fs = ds ++ rest ∧ x = rest.flatten ++ y) ∨
      ∃ rest, ds = fs ++ rest ∧ y = rest.flatten ++ x := by
  induction ds generalizing fs with
  | nil => exact .inl ⟨fs, rfl, by simpa using h⟩
  | cons d ds ih =>
    cases fs with
    | nil => exact .inr ⟨d :: ds, rfl, by simpa using h.symm⟩
    | cons f fs =>
      simp only [List.flatten_cons, List.append_assoc] at h
      have hdf := hC.unique d f _ _ (hd d (by simp)) (hf f (by simp)) h
      subst hdf
      rcases ih (fun w hw => hd w (by simp [hw])) (fun w hw => hf w (by simp [hw]))
        (List.append_cancel_left h) with ⟨rest, hfs, hx⟩ | ⟨rest, hds, hy⟩
      · exact .inl ⟨rest, by simp [hfs], hx⟩
      · exact .inr ⟨rest, by simp [hds], hy⟩

/-- Words whose concatenation begins a concatenation of words are its first words. -/
theorem PrefixFree.flatten_split (hC : PrefixFree C) {ds fs : List (List α)} {x : List α}
    (hd : ∀ w ∈ ds, C w) (hf : ∀ w ∈ fs, C w) (h : ds.flatten ++ x = fs.flatten) :
    ∃ rest, fs = ds ++ rest ∧ x = rest.flatten := by
  rcases hC.flatten_compare (y := []) hd hf (by simpa using h) with
    ⟨rest, hfs, hx⟩ | ⟨rest, hds, hnil⟩
  · exact ⟨rest, hfs, by simpa using hx⟩
  · -- no word is empty, so the other list is not the longer one
    obtain ⟨hrest, hx⟩ := List.append_eq_nil_iff.mp hnil.symm
    cases rest with
    | nil => exact ⟨[], by simpa using hds.symm, hx⟩
    | cons w rest =>
      have hw : w = [] := (List.append_eq_nil_iff.mp hrest).1
      exact absurd hw (hC.ne_nil w (hd w (by simp [hds])))

end FilesEvent.PrefixCode
