import FilesEvent.Net.Tree
import FilesEvent.Lib.Runs

/-! What the macros of `tree.h` do to the list of the elements in ascending
order, over every run of insertions and removals. -/

namespace FilesEvent.RB

open RedBlack RedBlack.ColorTree

variable {α κ : Type} [LinearOrder κ] {key : α → κ} {cmp : α → α → Int}

/-- The comparison function tells how the keys are ordered. -/
structure Orders (cmp : α → α → Int) (key : α → κ) : Prop where
  neg : ∀ a b, cmp a b < 0 ↔ key a < key b
  pos : ∀ a b, 0 < cmp a b ↔ key b < key a

def Sorted (key : α → κ) (l : List α) : Prop := l.Pairwise fun a b => key a < key b

theorem Sorted.nodup {l : List α} (h : Sorted key l) : l.Nodup :=
  List.Pairwise.imp (fun {a b} (hab : key a < key b) (e : a = b) =>
    absurd (e ▸ hab) (lt_irrefl _)) h

/-- Elements of a sorted list differ in their keys. -/
theorem Sorted.inj {l : List α} (h : Sorted key l) {a b : α} (ha : a ∈ l) (hb : b ∈ l)
    (e : key a = key b) : a = b := by
  have hne : l.Pairwise fun a b => key a = key b → a = b :=
    List.Pairwise.imp (fun {a b} (hab : key a < key b) e => absurd e hab.ne) h
  have hflip : l.Pairwise (flip fun a b => key a = key b → a = b) :=
    List.Pairwise.imp (fun {a b} (hab : key a < key b) e => absurd e hab.ne') h
  exact List.Pairwise.forall_of_forall_of_flip (fun _ _ _ => rfl) hne hflip ha hb e

theorem Sorted.find_eq {l : List α} (h : Sorted key l) {a x : α} (ha : a ∈ l)
    (e : key a = key x) : l.find? (fun y => decide (key y = key x)) = some a := by
  cases hf : l.find? (fun y => decide (key y = key x)) with
  | none => exact absurd e (by simpa using List.find?_eq_none.mp hf a ha)
  | some b =>
    have hb := List.find?_some hf
    rw [h.inj ha (List.mem_of_find?_eq_some hf) (e.trans (of_decide_eq_true hb).symm)]

/-- The place of `x` in a sorted list. -/
theorem orderedInsert_eq {l r : List α} {x : α} (hl : ∀ y ∈ l, key y < key x)
    (hr : ∀ y ∈ r, key x < key y) :
    (l ++ r).orderedInsert (fun a b => key a ≤ key b) x = l ++ x :: r := by
  induction l with
  | nil =>
    cases r with
    | nil => rfl
    | cons y r => exact List.orderedInsert_cons_of_le _ _ (hr y (.head _)).le
  | cons y l ih =>
    have hy : ¬key x ≤ key y := not_le.mpr (hl y (.head _))
    rw [List.cons_append, List.orderedInsert_of_not_le (fun a b => key a ≤ key b) _ hy,
      ih fun z hz => hl z (.tail _ hz), List.cons_append]

theorem Sorted.orderedInsert {l : List α} (h : Sorted key l) {x : α}
    (hx : ∀ y ∈ l, key y ≠ key x) :
    Sorted key (l.orderedInsert (fun a b => key a ≤ key b) x) := by
  induction l with
  | nil => exact List.pairwise_singleton _ _
  | cons y l ih =>
    obtain ⟨hy, hl⟩ := List.pairwise_cons.mp h
    rw [List.orderedInsert]
    split
    next hle =>
      have hlt := lt_of_le_of_ne hle (hx y (.head _)).symm
      refine List.pairwise_cons.mpr ⟨fun z hz => ?_, h⟩
      rcases List.mem_cons.mp hz with rfl | hz
      · exact hlt
      · exact hlt.trans (hy z hz)
    next hle =>
      refine List.pairwise_cons.mpr ⟨fun z hz => ?_, ih hl fun z hz => hx z (.tail _ hz)⟩
      rcases (List.mem_orderedInsert _).mp hz with rfl | hz
      · exact not_le.mp hle
      · exact hy z hz

/-- A node of a sorted tree stands between its subtrees. -/
theorem Sorted.node {p : Path α} {c : Color} {l r : ColorTree α} {a : α}
    (h : Sorted key (zip p (node c l a r)).toList) :
    (∀ y ∈ l.toList, key y < key a) ∧ ∀ y ∈ r.toList, key a < key y := by
  rw [toList_zip, toList, Sorted, List.pairwise_append, List.pairwise_append] at h
  obtain ⟨-, hlr, hy⟩ := h.1.2.1 |> List.pairwise_append.mp
  exact ⟨fun y hm => hy y hm a (.head _), (List.pairwise_cons.mp hlr).1⟩

/-! ### Places -/

theorem zip_descend {x : α} {p q : Path α} {t : ColorTree α} (h : descend cmp x p t = .inr q) :
    zip q nil = zip p t := by
  induction t generalizing p with
  | nil => cases h; rfl
  | node c l a r ihl ihr =>
    rw [descend] at h
    split at h
    · exact ihl h
    · split at h
      · exact ihr h
      · cases h

/-- The free place is the one between the smaller and the larger elements. -/
theorem descend_between (ho : Orders cmp key) {x : α} {p q : Path α} {t : ColorTree α}
    (hs : Sorted key (zip p t).toList) (hb : ∀ y ∈ before p, key y < key x)
    (ha : ∀ y ∈ after p, key x < key y) (h : descend cmp x p t = .inr q) :
    (∀ y ∈ before q, key y < key x) ∧ ∀ y ∈ after q, key x < key y := by
  induction t generalizing p with
  | nil => cases h; exact ⟨hb, ha⟩
  | node c l a r ihl ihr =>
    obtain ⟨hl, hr⟩ := hs.node
    rw [descend] at h
    split at h
    next hc =>
      have hxa := (ho.neg x a).mp hc
      refine ihl (p := ⟨.left, c, a, r⟩ :: p) hs hb (fun y hy => ?_) h
      simp only [after, List.mem_append, List.mem_cons] at hy
      obtain (rfl | hy) | hy := hy
      · exact hxa
      · exact hxa.trans (hr y hy)
      · exact ha y hy
    next hc =>
      split at h
      next hc' =>
        have hxa := (ho.pos x a).mp hc'
        refine ihr (p := ⟨.right, c, a, l⟩ :: p) hs (fun y hy => ?_) ha h
        simp only [before, List.mem_append, List.mem_singleton] at hy
        obtain (hy | hy) | rfl := hy
        · exact hb y hy
        · exact (hl y hy).trans hxa
        · exact hxa
      next => cases h

theorem descend_found {x a : α} {p : Path α} {t : ColorTree α} (ho : Orders cmp key)
    (h : descend cmp x p t = .inl a) : a ∈ t.toList ∧ key a = key x := by
  induction t generalizing p with
  | nil => cases h
  | node c l b r ihl ihr =>
    rw [descend] at h
    split at h
    · exact ⟨List.mem_append_left _ (ihl h).1, (ihl h).2⟩
    next hc =>
      split at h
      · exact ⟨List.mem_append_right _ (.tail _ (ihr h).1), (ihr h).2⟩
      next hc' =>
        cases h
        refine ⟨List.mem_append_right _ (.head _), ?_⟩
        exact le_antisymm (not_lt.mp fun hlt => hc ((ho.neg _ _).mpr hlt))
          (not_lt.mp fun hlt => hc' ((ho.pos _ _).mpr hlt))

/-- Where the place of `x` is. -/
theorem locate_eq [DecidableEq α] {x : α} {p q : Path α} {t u : ColorTree α}
    (h : locate x p t = some (q, u)) :
    zip q u = zip p t ∧ ∃ c l r, u = node c l x r := by
  induction t generalizing p with
  | nil => cases h
  | node c l b r ihl ihr =>
    rw [locate] at h
    split at h
    next e => cases h; exact ⟨rfl, c, l, r, e ▸ rfl⟩
    next =>
      cases hl : locate x (⟨.left, c, b, r⟩ :: p) l with
      | some v =>
        rw [hl, Option.some_or] at h
        cases h
        exact ihl hl
      | none =>
        rw [hl, Option.none_or] at h
        exact ihr h

theorem locate_none [DecidableEq α] {x : α} {p : Path α} {t : ColorTree α} :
    locate x p t = none ↔ x ∉ t.toList := by
  induction t generalizing p with
  | nil => simp [locate, toList]
  | node c l b r ihl ihr =>
    rw [locate]
    split
    next e => simp [toList, e]
    next e =>
      simp only [Option.or_eq_none_iff, ihl, ihr, toList, List.mem_append, List.mem_cons, not_or]
      exact ⟨fun h => ⟨h.1, fun e' => e e'.symm, h.2⟩, fun h => ⟨h.1, h.2.2⟩⟩

theorem node_ne_nil (c : Color) (l : ColorTree α) (a : α) (r : ColorTree α) : node c l a r ≠ nil := by
  intro h
  cases h

theorem leftmost_eq {p : Path α} {t : ColorTree α} (h : t ≠ nil) :
    ∃ q c a r, leftmost p t = (q ++ p, node c nil a r) ∧
      zip (q ++ p) (node c nil a r) = zip p t ∧ before q = [] := by
  induction t generalizing p with
  | nil => exact absurd rfl h
  | node c l a r ihl ihr =>
    cases l with
    | nil => exact ⟨[], c, a, r, rfl, rfl, rfl⟩
    | node c' l' a' r' =>
      obtain ⟨q, c₁, a₁, r₁, e, hz, hb⟩ := ihl (p := ⟨.left, c, a, r⟩ :: p) nofun
      refine ⟨q ++ [⟨.left, c, a, r⟩], c₁, a₁, r₁, ?_, ?_, ?_⟩
      · rw [leftmost, e, List.append_assoc, List.singleton_append]
      · rw [List.append_assoc, List.singleton_append, hz]; rfl
      · simp [before_append, hb, before]

/-! ### The operations -/

/-- `RB_INSERT` keeps the tree red-black and never follows a null pointer. It changes
the tree only where no element has the key of `x`. -/
theorem insert_spec (ho : Orders cmp key) {x : α} {t : ColorTree α} (ht : Legal t)
    (hs : Sorted key t.toList) : ∃ o u, insert cmp x t = some (o, u) ∧ Legal u ∧
      o = t.toList.find? (fun y => decide (key y = key x)) ∧
      u.toList = if o.isSome then t.toList
        else t.toList.orderedInsert (fun a b => key a ≤ key b) x := by
  cases hd : descend cmp x [] t with
  | inl a =>
    obtain ⟨ha, hk⟩ := descend_found ho hd
    exact ⟨some a, t, by rw [insert, hd], ht, (hs.find_eq ha hk).symm, rfl⟩
  | inr q =>
    have hz : zip q nil = t := zip_descend hd
    obtain ⟨hb, ha⟩ := descend_between ho hs (p := []) nofun nofun hd
    obtain ⟨c, c', n, hp, hn, -⟩ := Context.of_zip (p := q) (t := nil) (hz ▸ ht)
    cases hn with
    | nil =>
      obtain ⟨u, hu, hl⟩ := legal_insertColor hp (Balanced.red (a := x) .nil .nil)
      have e : t.toList = before q ++ after q := by rw [← hz, toList_zip]; simp [toList]
      refine ⟨none, u, by simp only [insert, hd, hu, Option.map_some], hl, ?_, ?_⟩
      · rw [e, eq_comm, List.find?_eq_none]
        intro y hy
        rcases List.mem_append.mp hy with hy | hy
        · simpa using (hb y hy).ne
        · simpa using (ha y hy).ne'
      · rw [toList_insertColor hu, toList_zip, e]
        simp [toList, orderedInsert_eq hb ha]

theorem legal_splice {p : Path α} {c k k' : Color} {n : Nat} {t : ColorTree α}
    (hp : Context p k (c.rank n)) (ht : Balanced k' n t)
    (hc : c = .red → k = .black ∧ k' = .black) : ∃ u, splice c p t = some u ∧ Legal u := by
  rw [splice]
  cases c with
  | black => exact legal_removeColor hp (.of_balanced ht)
  | red => exact ⟨_, rfl, hp.zip ht fun h => absurd ((hc rfl).1 ▸ h) nofun⟩

theorem toList_splice {p : Path α} {c : Color} {t u : ColorTree α} (h : splice c p t = some u) :
    u.toList = (zip p t).toList := by
  rw [splice] at h
  split at h
  · exact toList_removeColor h
  · cases h; rfl

theorem erase_node [DecidableEq α] {p : Path α} {c : Color} {l r : ColorTree α} {x : α}
    (hn : (zip p (node c l x r)).toList.Nodup) :
    (zip p (node c l x r)).toList.erase x = before p ++ (l.toList ++ r.toList) ++ after p := by
  have e : (zip p (node c l x r)).toList =
      (before p ++ l.toList) ++ x :: (r.toList ++ after p) := by
    simp [toList_zip, toList]
  rw [e] at hn ⊢
  have hx : x ∉ before p ++ l.toList := fun h =>
    (List.nodup_append.mp hn).2.2 x h x (.head _) rfl
  rw [List.erase_append_right _ hx, List.erase_cons_head]
  simp

/-- The place of the successor of an element with two children. -/
theorem context_successor {p q : Path α} {c c' : Color} {l r s : ColorTree α} {x a : α}
    (hq : zip q (node c' nil a s) = r) (ht : Legal (zip p (node c l x r))) :
    ∃ k n, Context (q ++ ⟨.right, c, x, l⟩ :: p) k n ∧ Balanced c' n (node c' nil a s) ∧
      (c' = .red → k = .black) := by
  subst hq
  have hz : zip (q ++ ⟨.right, c, x, l⟩ :: p) (node c' nil a s) =
      zip p (node c l x (zip q (node c' nil a s))) := by
    rw [zip_append]
    rfl
  obtain ⟨k, k', n, hp, hb, hk⟩ := Context.of_zip (hz ▸ ht)
  obtain rfl := hb.inv.1
  exact ⟨k, n, hp, hb, hk⟩

/-- `RB_REMOVE` of an element of the tree keeps the tree red-black and never follows
a null pointer. -/
theorem remove_spec [DecidableEq α] {x : α} {t : ColorTree α} (ht : Legal t) (hn : t.toList.Nodup)
    (hx : x ∈ t.toList) : ∃ u, remove x t = some u ∧ Legal u ∧ u.toList = t.toList.erase x := by
  cases hl : locate x [] t with
  | none => exact absurd hx (locate_none.mp hl)
  | some v =>
    obtain ⟨p, w⟩ := v
    obtain ⟨hz, c, l, r, rfl⟩ := locate_eq hl
    obtain rfl : zip p (node c l x r) = t := hz
    have he := erase_node hn
    obtain ⟨k, k', n, hp, hb, hk⟩ := Context.of_zip ht
    obtain ⟨rfl, m, kl, kr, rfl, hbl, hbr, hc⟩ := hb.inv
    cases l with
    | nil =>
      obtain ⟨u, hu, hleg⟩ := legal_splice hp hbr fun h => ⟨hk h, (hc h).2⟩
      refine ⟨u, by simp only [remove, hl, hu], hleg, ?_⟩
      rw [toList_splice hu, toList_zip, he]
      rfl
    | node c₁ l₁ a₁ r₁ =>
      cases r with
      | nil =>
        obtain ⟨u, hu, hleg⟩ := legal_splice hp hbl fun h => ⟨hk h, (hc h).1⟩
        refine ⟨u, by simp only [remove, hl, hu], hleg, ?_⟩
        rw [toList_splice hu, toList_zip, he]
        simp [toList]
      | node c₂ l₂ a₂ r₂ =>
        obtain ⟨q, c₃, a₃, r₃, e, hq, hbq⟩ := leftmost_eq (p := []) (node_ne_nil c₂ l₂ a₂ r₂)
        rw [List.append_nil] at e hq
        obtain ⟨k', n, hq', hb', hk'⟩ := context_successor hq ht
        obtain ⟨-, m', _, kr', rfl, -, hbr', hc'⟩ := hb'.inv
        obtain ⟨u, hu, hleg⟩ := legal_splice (hq'.replace (b := a₃)) hbr' fun h => ⟨hk' h, (hc' h).2⟩
        refine ⟨u, by simp only [remove, hl, e, hu], hleg, ?_⟩
        rw [toList_splice hu, toList_zip, he, show (node c₂ l₂ a₂ r₂).toList = _ from hq ▸ toList_zip q _]
        simp [before_append, after_append, before, after, hbq, toList]

theorem find_spec (ho : Orders cmp key) {x : α} {p : Path α} {t : ColorTree α}
    (hs : Sorted key (zip p t).toList) :
    find cmp x t = t.toList.find? fun y => decide (key y = key x) := by
  induction t generalizing p with
  | nil => rfl
  | node c l a r ihl ihr =>
    obtain ⟨hl, hr⟩ := hs.node
    rw [find, toList, List.find?_append, List.find?_cons]
    split
    next hc =>
      have hxa := (ho.neg x a).mp hc
      have h₀ : r.toList.find? (fun y => decide (key y = key x)) = none :=
        List.find?_eq_none.mpr fun y hy => by simpa using (hxa.trans (hr y hy)).ne'
      simp [ihl (p := ⟨.left, c, a, r⟩ :: p) hs, hxa.ne', h₀]
    next hc =>
      have h₀ (h : ¬key x < key a) : l.toList.find? (fun y => decide (key y = key x)) = none :=
        List.find?_eq_none.mpr fun y hy => by simpa using ((hl y hy).trans_le (not_lt.mp h)).ne
      have hxa := mt (ho.neg x a).mpr hc
      split
      next hc' =>
        have hax := (ho.pos x a).mp hc'
        simp [ihr (p := ⟨.right, c, a, l⟩ :: p) hs, hax.ne, h₀ hxa]
      next hc' =>
        have e := le_antisymm (not_lt.mp (mt (ho.pos x a).mpr hc')) (not_lt.mp hxa)
        simp [e, e ▸ h₀ hxa]

theorem minmax_spec (val : Int) (t : ColorTree α) (o : Option α) :
    minmax val o t = (if val < 0 then t.toList.head? else t.toList.getLast?).or o := by
  induction t generalizing o with
  | nil => simp [minmax, toList]
  | node c l a r ihl ihr =>
    rw [minmax]
    split
    next hv =>
      rw [ihl, if_pos hv, toList, List.head?_append]
      simp
    next hv =>
      rw [ihr, if_neg hv, toList, List.getLast?_append]
      cases r.toList <;> simp [List.getLast?_cons]

theorem nextUp_eq (p : Path α) : nextUp p = (after p).head? := by
  induction p with
  | nil => rfl
  | cons f p ih => cases hd : f.dir <;> simp [nextUp, after, hd, ih]

/-- `RB_NEXT` gives the first element with a larger key. -/
theorem next_spec [DecidableEq α] {x : α} {t : ColorTree α} (hs : Sorted key t.toList)
    (hx : x ∈ t.toList) :
    next x t = some (t.toList.find? fun y => decide (key x < key y)) := by
  cases hl : locate x [] t with
  | none => exact absurd hx (locate_none.mp hl)
  | some v =>
    obtain ⟨p, w⟩ := v
    obtain ⟨hz, c, l, r, rfl⟩ := locate_eq hl
    obtain rfl : zip p (node c l x r) = t := hz
    have e : (zip p (node c l x r)).toList =
        (before p ++ l.toList) ++ x :: (r.toList ++ after p) := by
      simp [toList_zip, toList]
    rw [e] at hs ⊢
    obtain ⟨-, hr, hlx⟩ := List.pairwise_append.mp hs
    have h₀ : (before p ++ l.toList).find? (fun y => decide (key x < key y)) = none :=
      List.find?_eq_none.mpr fun y hy => by simpa using (hlx y hy x (.head _)).le
    have h₁ : (r.toList ++ after p).find? (fun y => decide (key x < key y)) =
        (r.toList ++ after p).head? := by
      cases hra : r.toList ++ after p with
      | nil => rfl
      | cons y ys =>
        have hy := (List.pairwise_cons.mp hr).1 y (hra ▸ .head _)
        simp [hy]
    rw [List.find?_append, h₀, Option.none_or, List.find?_cons, h₁]
    simp only [lt_irrefl, decide_false]
    cases r with
    | nil => simp only [next, hl, nextUp_eq]; rfl
    | node c₂ l₂ a₂ r₂ =>
      obtain ⟨q, c₃, a₃, r₃, e₃, hq, hbq⟩ := leftmost_eq (p := []) (node_ne_nil c₂ l₂ a₂ r₂)
      rw [List.append_nil] at e₃ hq
      have hlist : (node c₂ l₂ a₂ r₂).toList = a₃ :: (r₃.toList ++ after q) := by
        rw [show node c₂ l₂ a₂ r₂ = zip q (node c₃ nil a₃ r₃) from hq.symm, toList_zip, hbq]
        simp [toList]
      simp only [next, hl, e₃, hlist]
      rfl

/-! ### Runs -/

/-- A call of one of the macros. -/
inductive Call (α : Type)
  | insert (x : α)
  | remove (x : α)
  | find (x : α)
  | minmax (val : Int)
  | next (x : α)
  deriving Repr

/-- What a call returns, and the tree after it. -/
def call [DecidableEq α] (cmp : α → α → Int) (t : ColorTree α) : Call α → Option (Option α × ColorTree α)
  | .insert x => RB.insert cmp x t
  | .remove x => (RB.remove x t).map fun u => (some x, u)
  | .find x => some (RB.find cmp x t, t)
  | .minmax val => some (RB.minmax val none t, t)
  | .next x => (RB.next x t).map fun o => (o, t)

/-- What the calls are for, on the elements in ascending order. An element that is
removed, or whose successor is wanted, has to be there. -/
def listCall [DecidableEq α] (key : α → κ) (l : List α) : Call α → Option (Option α × List α)
  | .insert x =>
    let o := l.find? fun y => decide (key y = key x)
    some (o, if o.isSome then l else l.orderedInsert (fun a b => key a ≤ key b) x)
  | .remove x => if x ∈ l then some (some x, l.erase x) else none
  | .find x => some (l.find? fun y => decide (key y = key x), l)
  | .minmax val => some (if val < 0 then l.head? else l.getLast?, l)
  | .next x => if x ∈ l then some (l.find? fun y => decide (key x < key y), l) else none

/-- A call that keeps what it returned. -/
def logged {σ : Type} (f : σ → Call α → Option (Option α × σ)) (s : σ × List (Option α))
    (c : Call α) : Option (σ × List (Option α)) :=
  (f s.1 c).map fun (o, s') => (s', s.2 ++ [o])

theorem sorted_listCall [DecidableEq α] {l l' : List α} {c : Call α} {o : Option α}
    (hs : Sorted key l) (h : listCall key l c = some (o, l')) : Sorted key l' := by
  cases c with
  | insert x =>
    cases h
    split
    next => exact hs
    next hf => exact hs.orderedInsert (by simpa using hf)
  | remove x =>
    simp only [listCall] at h
    split at h
    next => cases h; exact hs.sublist List.erase_sublist
    next => cases h
  | find x => cases h; exact hs
  | minmax val => cases h; exact hs
  | next x =>
    simp only [listCall] at h
    split at h
    next => cases h; exact hs
    next => cases h

theorem call_spec [DecidableEq α] (ho : Orders cmp key) {t : ColorTree α} {c : Call α} {o : Option α}
    {l' : List α} (ht : Legal t) (hs : Sorted key t.toList)
    (h : listCall key t.toList c = some (o, l')) :
    ∃ u, call cmp t c = some (o, u) ∧ Legal u ∧ u.toList = l' := by
  cases c with
  | insert x =>
    obtain ⟨o', u, hu, hl, rfl, he⟩ := insert_spec ho (x := x) ht hs
    cases h
    exact ⟨u, hu, hl, he⟩
  | remove x =>
    simp only [listCall] at h
    split at h
    next hx =>
      cases h
      obtain ⟨u, hu, hl, he⟩ := remove_spec ht hs.nodup hx
      exact ⟨u, by rw [call, hu]; rfl, hl, he⟩
    next => cases h
  | find x =>
    cases h
    exact ⟨t, by rw [call, find_spec ho (p := []) hs], ht, rfl⟩
  | minmax val =>
    cases h
    exact ⟨t, by rw [call, minmax_spec, Option.or_none], ht, rfl⟩
  | next x =>
    simp only [listCall] at h
    split at h
    next hx =>
      cases h
      exact ⟨t, by rw [call, next_spec hs hx]; rfl, ht, rfl⟩
    next => cases h

/-- A tree and a list that every call treats alike. -/
def Holds (key : α → κ) (s : List α × List (Option α)) (u : ColorTree α × List (Option α)) : Prop :=
  u.2 = s.2 ∧ u.1.toList = s.1 ∧ Sorted key s.1 ∧ Legal u.1

theorem holds_step [DecidableEq α] (ho : Orders cmp key) {s s' : List α × List (Option α)}
    {u : ColorTree α × List (Option α)} {c : Call α} (hR : Holds key s u)
    (h : logged (listCall key) s c = some s') :
    ∃ u', logged (call cmp) u c = some u' ∧ Holds key s' u' := by
  obtain ⟨l, rs⟩ := s
  obtain ⟨t, rs'⟩ := u
  obtain ⟨rfl, rfl, hs, ht⟩ := hR
  obtain ⟨⟨o, l'⟩, hc, e⟩ := Option.map_eq_some_iff.mp h
  obtain rfl := e
  obtain ⟨u', hu, hl, rfl⟩ := call_spec ho ht hs hc
  exact ⟨(u', rs' ++ [o]), by rw [logged, hu]; rfl, rfl, rfl, sorted_listCall hs hc, hl⟩

theorem holds_run [DecidableEq α] (ho : Orders cmp key) {calls : List (Call α)}
    {s : List α × List (Option α)}
    (h : Runs.run (logged (listCall key)) ([], []) calls = some s) :
    ∃ u, Runs.run (logged (call cmp)) (nil, []) calls = some u ∧ Holds key s u := by
  have h₀ : Holds key (([] : List α), []) (nil, []) :=
    ⟨rfl, rfl, List.Pairwise.nil, legal_nil⟩
  refine Runs.run_simulates ?_ h₀ h
  exact fun _ _ _ _ hR hc => holds_step ho hR hc

/-- Every run of the macros on a tree that was empty at first returns what the same
calls do on the sorted list of the elements. It never follows a null
pointer, and the tree is red-black at its end. -/
theorem calls_like_sorted_list [DecidableEq α] (ho : Orders cmp key) (calls : List (Call α))
    (l : List α) (rs : List (Option α))
    (h : Runs.run (logged (listCall key)) ([], []) calls = some (l, rs)) :
    ∃ t, Runs.run (logged (call cmp)) (nil, []) calls = some (t, rs) ∧ t.toList = l ∧
      Sorted key l ∧ Legal t := by
  obtain ⟨⟨t, rs'⟩, hu, rfl, ht, hs, hl⟩ := holds_run ho h
  exact ⟨t, hu, ht, hs, hl⟩

theorem orders_sub : Orders (fun a b : Int => a - b) id := by
  constructor <;> intro a b <;> simp only [id] <;> omega

/-- Insertions in a falling order, a collision, the neighbours of an element, and a removal. -/
def fallingCalls : List (Call Int) :=
  [.insert 5, .insert 4, .insert 3, .insert 4, .insert 2, .insert 1, .next 2, .remove 4,
    .minmax (-1), .next 3]

def fallingResults : List (Option Int) :=
  [none, none, none, some 4, none, none, some 3, some 4, some 1, some 5]

theorem calls_like_sorted_list_falling :
    ∃ t, Runs.run (logged (call fun a b : Int => a - b)) (nil, []) fallingCalls =
        some (t, fallingResults) ∧
      t.toList = [1, 2, 3, 5] ∧ Sorted (id : Int → Int) [1, 2, 3, 5] ∧ Legal t :=
  calls_like_sorted_list orders_sub fallingCalls [1, 2, 3, 5] fallingResults (by decide)

/-! ### Cost -/

/-- How often the loop of `RB_INSERT` or `RB_FIND` calls the comparison function. -/
def comparisons (cmp : α → α → Int) (x : α) : ColorTree α → Nat
  | nil => 0
  | node _ l a r =>
    if cmp x a < 0 then comparisons cmp x l + 1
    else if cmp x a > 0 then comparisons cmp x r + 1
    else 1

theorem comparisons_le_height (x : α) (t : ColorTree α) : comparisons cmp x t ≤ t.height := by
  induction t with
  | nil => exact Nat.le_refl _
  | node c l a r ihl ihr =>
    rw [comparisons, height]
    split
    · omega
    · split <;> omega

/-- After every run on a tree that was empty at first, a search among `n` elements
takes at most `2 * log2 (n + 1)` comparisons, and no climb to the root is longer. -/
theorem cost_logarithmic [DecidableEq α] (ho : Orders cmp key) (calls : List (Call α))
    (l : List α) (rs : List (Option α))
    (h : Runs.run (logged (listCall key)) ([], []) calls = some (l, rs)) :
    ∃ t, Runs.run (logged (call cmp)) (nil, []) calls = some (t, rs) ∧
      (∀ x, comparisons cmp x t ≤ 2 * Nat.log2 (l.length + 1)) ∧
      ∀ p u, zip p u = t → p.length ≤ 2 * Nat.log2 (l.length + 1) := by
  obtain ⟨⟨t, rs'⟩, hu, rfl, ht, hs, hl⟩ := holds_run ho h
  obtain rfl : t.toList = l := ht
  have hh := hl.height_le
  rw [← length_toList] at hh
  refine ⟨t, hu, fun x => (comparisons_le_height x t).trans hh, fun p u e => ?_⟩
  subst e
  exact (Nat.le_of_add_right_le (length_le_height p u)).trans hh

theorem cost_logarithmic_falling :
    ∃ t, Runs.run (logged (call fun a b : Int => a - b)) (nil, []) fallingCalls =
        some (t, fallingResults) ∧
      (∀ x, comparisons (fun a b : Int => a - b) x t ≤ 4) ∧
      ∀ p u, zip p u = t → p.length ≤ 4 :=
  cost_logarithmic orders_sub fallingCalls [1, 2, 3, 5] fallingResults (by decide)

end FilesEvent.RB
