import Mathlib

/-! Red-black trees and the places in them. A place is a subtree with the path
from it to the root, so an algorithm that climbs by parent pointers becomes a
recursion over the path. -/

namespace FilesEvent.RedBlack

inductive Color
  | black
  | red
  deriving DecidableEq, Repr

/-- The black height of a node of the colour over children of black height `n`. -/
def Color.rank (n : Nat) : Color → Nat
  | black => n + 1
  | red => n

inductive ColorTree (α : Type)
  | nil
  | node (color : Color) (left : ColorTree α) (elm : α) (right : ColorTree α)
  deriving DecidableEq, Repr

inductive Dir
  | left
  | right
  deriving DecidableEq, Repr

def Dir.other : Dir → Dir
  | left => right
  | right => left

/-- One ancestor: the side on which the place hangs, the ancestor's own colour
and element, and its other subtree. -/
structure Frame (α : Type) where
  dir : Dir
  color : Color
  elm : α
  sibling : ColorTree α
  deriving DecidableEq, Repr

abbrev Path (α : Type) := List (Frame α)

variable {α : Type}

namespace ColorTree

/-- A node with `t` on the side `d` and `s` on the other side. -/
def hang (d : Dir) (c : Color) (a : α) (t s : ColorTree α) : ColorTree α :=
  match d with
  | .left => node c t a s
  | .right => node c s a t

def toList : ColorTree α → List α
  | nil => []
  | node _ l a r => l.toList ++ a :: r.toList

def size : ColorTree α → Nat
  | nil => 0
  | node _ l _ r => l.size + 1 + r.size

def height : ColorTree α → Nat
  | nil => 0
  | node _ l _ r => max l.height r.height + 1

/-- Every way down from the root meets `n` black nodes, and no red node has a
red child. `c` is the colour of the root, black for `nil`. -/
inductive Balanced : Color → Nat → ColorTree α → Prop
  | nil : Balanced .black 0 nil
  | red {n : Nat} {l r : ColorTree α} {a : α} :
      Balanced .black n l → Balanced .black n r → Balanced .red n (node .red l a r)
  | black {n : Nat} {l r : ColorTree α} {a : α} {c c' : Color} :
      Balanced c n l → Balanced c' n r → Balanced .black (n + 1) (node .black l a r)

/-- A red-black tree: balanced, with a black root. -/
def Legal (t : ColorTree α) : Prop := ∃ n, Balanced .black n t

theorem legal_nil : Legal (nil : ColorTree α) := ⟨0, .nil⟩

theorem length_toList (t : ColorTree α) : t.toList.length = t.size := by
  induction t with
  | nil => rfl
  | node c l a r ihl ihr => simp [toList, size, ihl, ihr]; omega

theorem Balanced.hang {n : Nat} {d : Dir} {a : α} {c c' : Color} {t s : ColorTree α}
    (ht : Balanced c n t) (hs : Balanced c' n s) : Balanced .black (n + 1) (hang d .black a t s) := by
  cases d with
  | left => exact .black ht hs
  | right => exact .black hs ht

theorem Balanced.hang_red {n : Nat} {d : Dir} {a : α} {t s : ColorTree α}
    (ht : Balanced .black n t) (hs : Balanced .black n s) :
    Balanced .red n (ColorTree.hang d .red a t s) := by
  cases d with
  | left => exact .red ht hs
  | right => exact .red hs ht

/-- Black children suit a node of either colour. -/
theorem Balanced.node {n : Nat} {l r : ColorTree α} (hl : Balanced .black n l)
    (hr : Balanced .black n r) (c : Color) (a : α) :
    Balanced c (c.rank n) (ColorTree.node c l a r) := by
  cases c with
  | black => exact .black hl hr
  | red => exact .red hl hr

theorem Balanced.ne_nil {c : Color} {n : Nat} {t : ColorTree α} (h : Balanced c (n + 1) t) :
    t ≠ ColorTree.nil := by
  rintro rfl
  cases h

theorem Balanced.ne_nil_of_red {n : Nat} {t : ColorTree α} (h : Balanced .red n t) : t ≠ ColorTree.nil := by
  rintro rfl
  cases h

theorem Balanced.inv {k c : Color} {n : Nat} {l r : ColorTree α} {a : α}
    (h : Balanced k n (ColorTree.node c l a r)) : k = c ∧ ∃ m kl kr, n = c.rank m ∧
      Balanced kl m l ∧ Balanced kr m r ∧ (c = .red → kl = .black ∧ kr = .black) := by
  cases h with
  | red hl hr => exact ⟨rfl, _, _, _, rfl, hl, hr, fun _ => ⟨rfl, rfl⟩⟩
  | black hl hr => exact ⟨rfl, _, _, _, rfl, hl, hr, nofun⟩

/-! ### Size and height -/

/-- A balanced tree of black height `n` holds at least `2 ^ n - 1` elements. -/
theorem Balanced.two_pow_le {c : Color} {n : Nat} {t : ColorTree α} (h : Balanced c n t) :
    2 ^ n ≤ t.size + 1 := by
  induction h with
  | nil => simp [size]
  | red _ _ ihl ihr => simp only [size]; omega
  | black _ _ ihl ihr => simp only [size, Nat.pow_succ]; omega

/-- A way down has at most one red node above and below each black one. -/
theorem Balanced.height_le {c : Color} {n : Nat} {t : ColorTree α} (h : Balanced c n t) :
    t.height ≤ 2 * n + (if c = .red then 1 else 0) := by
  induction h with
  | nil => simp [height]
  | red _ _ ihl ihr => simp [height] at *; omega
  | @black n l r a c c' _ _ ihl ihr =>
    have hl : l.height ≤ 2 * n + 1 := by split at ihl <;> omega
    have hr : r.height ≤ 2 * n + 1 := by split at ihr <;> omega
    simp [height]
    omega

/-- A red-black tree of `m` elements is at most `2 * log2 (m + 1)` high. -/
theorem Legal.height_le {t : ColorTree α} (h : Legal t) :
    t.height ≤ 2 * Nat.log2 (t.size + 1) := by
  obtain ⟨n, hn⟩ := h
  have hh := hn.height_le
  have hlog : n ≤ Nat.log2 (t.size + 1) := (Nat.le_log2 (by omega)).mpr hn.two_pow_le
  simp at hh
  omega

end ColorTree

open ColorTree

/-! ### Places -/

def Frame.attach (f : Frame α) (t : ColorTree α) : ColorTree α := hang f.dir f.color f.elm t f.sibling

/-- The whole tree around the place `t` below `p`. -/
def zip : Path α → ColorTree α → ColorTree α
  | [], t => t
  | f :: p, t => zip p (f.attach t)

theorem zip_append (p q : Path α) (t : ColorTree α) : zip (p ++ q) t = zip q (zip p t) := by
  induction p generalizing t with
  | nil => rfl
  | cons f p ih => exact ih _

theorem zip_ne_nil {p : Path α} {t : ColorTree α} (h : t ≠ nil) : zip p t ≠ nil := by
  induction p generalizing t with
  | nil => exact h
  | cons f p ih => exact ih (by cases hd : f.dir <;> simp [Frame.attach, hang, hd])

/-- The elements of the whole tree that stand before those of the place. -/
def before : Path α → List α
  | [] => []
  | f :: p =>
    match f.dir with
    | .left => before p
    | .right => before p ++ f.sibling.toList ++ [f.elm]

/-- The elements of the whole tree that stand after those of the place. -/
def after : Path α → List α
  | [] => []
  | f :: p =>
    match f.dir with
    | .left => f.elm :: f.sibling.toList ++ after p
    | .right => after p

theorem before_append (p q : Path α) : before (p ++ q) = before q ++ before p := by
  induction p with
  | nil => simp [before]
  | cons f p ih => cases hd : f.dir <;> simp [before, hd, ih]

theorem after_append (p q : Path α) : after (p ++ q) = after p ++ after q := by
  induction p with
  | nil => simp [after]
  | cons f p ih => cases hd : f.dir <;> simp [after, hd, ih]

theorem toList_zip (p : Path α) (t : ColorTree α) :
    (zip p t).toList = before p ++ t.toList ++ after p := by
  induction p generalizing t with
  | nil => simp [zip, before, after]
  | cons f p ih =>
    rw [zip, ih]
    cases hd : f.dir <;> simp [Frame.attach, hang, before, after, hd, toList]

/-- Two places below one path hold the same elements in the same order when the
places do. -/
theorem toList_zip_congr {p : Path α} {t u : ColorTree α} (h : t.toList = u.toList) :
    (zip p t).toList = (zip p u).toList := by
  rw [toList_zip, toList_zip, h]

theorem length_le_height (p : Path α) (t : ColorTree α) : p.length + t.height ≤ (zip p t).height := by
  induction p generalizing t with
  | nil => simp [zip]
  | cons f p ih =>
    have h := ih (f.attach t)
    have ha : t.height + 1 ≤ (f.attach t).height := by
      cases hd : f.dir <;> simp [Frame.attach, hang, hd, height]
    rw [zip, List.length_cons]
    omega

/-- A place below `p` whose parent has the colour `c` and that wants a subtree of
black height `n`. The root has no parent. It counts as one below a red parent,
since it has to be black. -/
inductive Context : Path α → Color → Nat → Prop
  | top {n : Nat} : Context [] .red n
  | red {d : Dir} {a : α} {s : ColorTree α} {p : Path α} {n : Nat} :
      Context p .black n → Balanced .black n s → Context (⟨d, .red, a, s⟩ :: p) .red n
  | black {d : Dir} {a : α} {s : ColorTree α} {p : Path α} {n : Nat} {c c' : Color} :
      Context p c (n + 1) → Balanced c' n s → Context (⟨d, .black, a, s⟩ :: p) .black n

/-- What the parent says of the places above and beside it. -/
theorem Context.inv {f : Frame α} {p : Path α} {c : Color} {n : Nat} (h : Context (f :: p) c n) :
    c = f.color ∧ ∃ c₀ c', Context p c₀ (f.color.rank n) ∧ Balanced c' n f.sibling ∧
      (f.color = .red → c₀ = .black ∧ c' = .black) := by
  cases h with
  | red hp hs => exact ⟨rfl, _, _, hp, hs, fun _ => ⟨rfl, rfl⟩⟩
  | black hp hs => exact ⟨rfl, _, _, hp, hs, nofun⟩

/-- No red node is the root. -/
theorem Context.not_top {n : Nat} (h : Context ([] : Path α) .black n) : False := by
  cases h

/-- The elements do not matter to the places. -/
theorem Context.replace {p q : Path α} {d : Dir} {c k : Color} {a b : α} {s : ColorTree α} {n : Nat}
    (h : Context (p ++ ⟨d, c, a, s⟩ :: q) k n) : Context (p ++ ⟨d, c, b, s⟩ :: q) k n := by
  induction p generalizing k n with
  | nil => cases h with
    | red hp hs => exact .red hp hs
    | black hp hs => exact .black hp hs
  | cons f p ih => cases h with
    | red hp hs => exact .red (ih hp) hs
    | black hp hs => exact .black (ih hp) hs

/-- A subtree that suits its place makes the whole tree red-black. -/
theorem Context.zip {p : Path α} {c c' : Color} {n : Nat} {t : ColorTree α} (h : Context p c n)
    (ht : Balanced c' n t) (hc : c = .red → c' = .black) : Legal (zip p t) := by
  induction h generalizing c' t with
  | top => exact ⟨_, hc rfl ▸ ht⟩
  | red hp hs ih => exact ih (.hang_red (hc rfl ▸ ht) hs) nofun
  | black hp hs ih => exact ih (ht.hang hs) fun _ => rfl

/-- Every place of a red-black tree suits its subtree. -/
theorem Context.of_zip {p : Path α} {t : ColorTree α} (h : Legal (RedBlack.zip p t)) :
    ∃ c c' n, Context p c n ∧ Balanced c' n t ∧ (c' = .red → c = .black) := by
  induction p generalizing t with
  | nil =>
    obtain ⟨n, hn⟩ := h
    exact ⟨.red, .black, n, .top, hn, nofun⟩
  | cons f p ih =>
    obtain ⟨d, c, a, s⟩ := f
    obtain ⟨c₀, c₁, n, hp, ht, hc⟩ := ih h
    cases d <;> cases ht with
    | red hl hr =>
      obtain rfl := hc rfl
      first
        | exact ⟨_, _, _, .red hp hr, hl, nofun⟩
        | exact ⟨_, _, _, .red hp hl, hr, nofun⟩
    | black hl hr => first
        | exact ⟨_, _, _, .black hp hr, hl, fun _ => rfl⟩
        | exact ⟨_, _, _, .black hp hl, hr, fun _ => rfl⟩

end FilesEvent.RedBlack
