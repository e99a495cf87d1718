import Mathlib.Algebra.GroupWithZero.Nat

/-! Pieces that tile a part of a sequence: each one starts where the one before
it ends and holds what the sequence has there. Pieces in slots keep a place of
their own each, and may leave some of it free. -/

namespace FilesEvent.Tiling

variable {α β : Type _}

/-- The pieces tile `src` from `lo` to `hi`. A piece `b` says that it starts at
`pos b`, and holds `data b`. -/
def Tiles (pos : β → Nat) (data : β → List α) (src : List α) : Nat → List β → Nat → Prop
  | lo, [], hi => lo = hi
  | lo, b :: bs, hi =>
      pos b = lo ∧ data b <+: src.drop lo ∧ Tiles pos data src (lo + (data b).length) bs hi

variable {pos : β → Nat} {data : β → List α} {src : List α}

theorem tiles_append {lo hi : Nat} {as bs : List β} :
    Tiles pos data src lo (as ++ bs) hi ↔
      ∃ mid, Tiles pos data src lo as mid ∧ Tiles pos data src mid bs hi := by
  induction as generalizing lo with
  | nil => simp [Tiles]
  | cons a as ih =>
    simp only [List.cons_append, Tiles, ih]
    constructor
    · rintro ⟨hpos, hdata, mid, has, hbs⟩
      exact ⟨mid, ⟨hpos, hdata, has⟩, hbs⟩
    · rintro ⟨mid, ⟨hpos, hdata, has⟩, hbs⟩
      exact ⟨hpos, hdata, mid, has, hbs⟩

/-- One more piece at the end of a tiling. -/
theorem Tiles.snoc {lo hi : Nat} {bs : List β} (h : Tiles pos data src lo bs hi) {b : β}
    (hpos : pos b = hi) (hdata : data b <+: src.drop hi) :
    Tiles pos data src lo (bs ++ [b]) (hi + (data b).length) :=
  tiles_append.mpr ⟨hi, h, hpos, hdata, rfl⟩

theorem Tiles.hi_eq {lo hi : Nat} {bs : List β} (h : Tiles pos data src lo bs hi) :
    hi = lo + (bs.map fun b => (data b).length).sum := by
  induction bs generalizing lo with
  | nil => simpa [Tiles] using h.symm
  | cons b bs ih =>
    have := ih h.2.2
    simp only [List.map_cons, List.sum_cons]
    omega

/-- A piece starts behind all that the pieces before it hold. -/
theorem Tiles.pos_eq {hi : Nat} {as bs : List β} {b : β}
    (h : Tiles pos data src 0 (as ++ b :: bs) hi) :
    pos b = (as.map fun a => (data a).length).sum := by
  obtain ⟨mid, has, hbs⟩ := tiles_append.mp h
  have := has.hi_eq
  rw [hbs.1]
  omega

/-- The pieces put together are the part that they tile. -/
theorem Tiles.flatMap_append {lo hi : Nat} {bs : List β} (h : Tiles pos data src lo bs hi) :
    bs.flatMap data ++ src.drop hi = src.drop lo := by
  induction bs generalizing lo with
  | nil =>
    have hlo : lo = hi := h
    simp [hlo]
  | cons b bs ih =>
    obtain ⟨rest, hrest⟩ := h.2.1
    have htail := ih h.2.2
    rw [← List.drop_drop, ← hrest, List.drop_left] at htail
    rw [List.flatMap_cons, List.append_assoc, htail, hrest]

theorem Tiles.flatMap_eq_take {n : Nat} {bs : List β} (h : Tiles pos data src 0 bs n) :
    n ≤ src.length ∧ bs.flatMap data = src.take n := by
  have happ := h.flatMap_append
  have hn := h.hi_eq
  rw [Nat.zero_add, ← List.length_flatMap] at hn
  have hlen := congrArg List.length happ
  simp only [List.length_append, List.length_drop, Nat.sub_zero] at hlen
  rw [List.drop_zero] at happ
  refine ⟨by omega, ?_⟩
  rw [hn, ← happ, List.take_left]

/-! ## Slots -/

/-- The pieces lie in slots of width `wid`, one slot behind the other from `lo`;
each piece starts its slot and may end before the slot does. -/
def Slots (pos wid : β → Nat) (data : β → List α) (src : List α) : Nat → List β → Prop
  | _, [] => True
  | lo, b :: bs =>
      pos b = lo ∧ data b <+: src.drop lo ∧ (data b).length ≤ wid b ∧
        Slots pos wid data src (lo + wid b) bs

/-- The pieces that hold something. -/
def filled (data : β → List α) (bs : List β) : List β := bs.filter fun b => !(data b).isEmpty

variable {wid : β → Nat}

theorem filled_flatMap (bs : List β) : (filled data bs).flatMap data = bs.flatMap data := by
  induction bs with
  | nil => rfl
  | cons b bs ih =>
    rw [filled] at ih ⊢
    cases hb : data b with
    | nil => simp [hb, ih]
    | cons x xs => simp [hb, ih]

theorem filled_eq_nil {bs : List β} : filled data bs = [] ↔ ∀ b ∈ bs, data b = [] := by
  simp [filled]

theorem Slots.le_pos {lo : Nat} {bs : List β} (h : Slots pos wid data src lo bs) :
    ∀ b ∈ bs, lo ≤ pos b := by
  induction bs generalizing lo with
  | nil => simp
  | cons b bs ih =>
    obtain ⟨hpos, -, -, hrest⟩ := h
    intro c hc
    rcases List.mem_cons.mp hc with rfl | hc
    · omega
    · have := ih hrest c hc
      omega

/-- A tiling from before the first slot has no piece. -/
theorem Slots.tiles_before_iff {lo lo' : Nat} {bs : List β}
    (h : Slots pos wid data src lo' bs) (hlo : lo < lo') :
    (∃ n, Tiles pos data src lo (filled data bs) n) ↔ ∀ b ∈ bs, data b = [] := by
  rw [← filled_eq_nil]
  constructor
  · rintro ⟨n, hn⟩
    cases hf : filled data bs with
    | nil => rfl
    | cons b fs =>
      have hb : b ∈ bs := (List.mem_filter.mp (show b ∈ filled data bs by simp [hf])).1
      have hpos := h.le_pos b hb
      rw [hf] at hn
      have := hn.1
      omega
  · intro hf
    exact ⟨lo, by rw [hf]; rfl⟩

theorem tiles_filled_cons {lo : Nat} {b : β} {bs : List β} (hpos : pos b = lo)
    (hdata : data b <+: src.drop lo) :
    (∃ n, Tiles pos data src lo (filled data (b :: bs)) n) ↔
      ∃ n, Tiles pos data src (lo + (data b).length) (filled data bs) n := by
  cases hb : data b with
  | nil => simp [filled, hb]
  | cons x xs => simp [filled, hb, Tiles, hpos, hb ▸ hdata]

/-- The pieces that hold something tile the sequence exactly if nothing comes
after a piece that leaves some of its slot free. -/
theorem Slots.tiles_filled_iff {lo : Nat} {bs : List β} (h : Slots pos wid data src lo bs) :
    (∃ n, Tiles pos data src lo (filled data bs) n) ↔
      bs.Pairwise fun a b => (data a).length = wid a ∨ data b = [] := by
  induction bs generalizing lo with
  | nil => exact iff_of_true ⟨lo, rfl⟩ .nil
  | cons b bs ih =>
    obtain ⟨hpos, hdata, hwid, hrest⟩ := h
    rw [tiles_filled_cons hpos hdata, List.pairwise_cons]
    by_cases hfull : (data b).length = wid b
    · rw [hfull, ih hrest]
      simp
    · rw [hrest.tiles_before_iff (by omega)]
      constructor
      · intro hnone
        exact ⟨fun c hc => .inr (hnone c hc),
          List.pairwise_of_forall_mem_list fun _ _ c hc => .inr (hnone c hc)⟩
      · rintro ⟨hnone, -⟩ c hc
        exact (hnone c hc).resolve_left hfull

end FilesEvent.Tiling
