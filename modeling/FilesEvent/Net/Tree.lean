import FilesEvent.Lib.RedBlack

/-! The red-black tree macros of `net/evsys/tree.h`. A pointer into the tree is
a place: the parent pointers are the path. `none` stands for the dereference
of a null pointer. -/

namespace FilesEvent.RB

open RedBlack RedBlack.ColorTree

variable {α : Type}

/-- `RB_COLOR(elm) = RB_BLACK` where `elm` is dereferenced without a test. -/
def blacken : ColorTree α → Option (ColorTree α)
  | nil => none
  | node _ l a r => some (node .black l a r)

/-- `if (elm) RB_COLOR(elm) = RB_BLACK`. -/
def blackenIf : ColorTree α → ColorTree α
  | nil => nil
  | node _ l a r => node .black l a r

def redden : ColorTree α → ColorTree α
  | nil => nil
  | node _ l a r => node .red l a r

def isRed : ColorTree α → Bool
  | node .red _ _ _ => true
  | _ => false

/-- `RB_ROTATE_LEFT` for `left`, `RB_ROTATE_RIGHT` for `right`: the child on the other
side comes up, and the root goes down on the side `d`. -/
def rotate : Dir → ColorTree α → Option (ColorTree α)
  | .left, node c l a (node c' l' a' r') => some (node c' (node c l a l') a' r')
  | .right, node c (node c' l' a' r') a r => some (node c' l' a' (node c r' a r))
  | _, _ => none

/-- The rotations of `RB_INSERT_COLOR` at the parent `f` and the grandparent `g`. An
element on the inner side first changes places with its parent. -/
def turn (f g : Frame α) (elm : ColorTree α) : Option (ColorTree α) :=
  let parent := hang f.dir .red f.elm elm f.sibling
  let parent := if f.dir = g.dir then some parent else rotate g.dir parent
  (parent.bind blacken).bind fun parent =>
    rotate g.dir.other (hang g.dir .red g.elm parent g.sibling)

/-- `RB_INSERT_COLOR`. The element is the root of the subtree. -/
def insertColor : Path α → ColorTree α → Option (ColorTree α)
  | [], elm => blacken elm
  | [f], elm => if f.color = .red then none else blacken (zip [f] elm)
  | f :: g :: p, elm =>
    if f.color = .red then
      if isRed g.sibling then
        insertColor p (hang g.dir .red g.elm (hang f.dir .black f.elm elm f.sibling)
          (blackenIf g.sibling))
      else
        -- the parent of the red element is black then, and the loop ends
        (turn f g elm).bind fun top => blacken (zip p top)
    else blacken (zip (f :: g :: p) elm)

/-- The first step of `RB_REMOVE_COLOR` at the parent `f`. A red sibling comes up
above the parent, which turns red. The second component is its frame. -/
def liftSibling (f : Frame α) : Option (Frame α × Path α) :=
  match f.sibling with
  | nil => none
  | node .black _ _ _ => some (f, [])
  | node .red l a r =>
    match f.dir with
    | .left => some (⟨.left, .red, f.elm, l⟩, [⟨.left, .black, a, r⟩])
    | .right => some (⟨.right, .red, f.elm, r⟩, [⟨.right, .black, a, l⟩])

/-- The sibling in the last step of `RB_REMOVE_COLOR`: a red child that is on the inner
side alone is rotated out. -/
def turnOut : Dir → ColorTree α → Option (ColorTree α)
  | .left, node c l a r =>
    if isRed r then some (node c l a r) else rotate .right (node .red (blackenIf l) a r)
  | .right, node c l a r =>
    if isRed l then some (node c l a r) else rotate .left (node .red l a (blackenIf r))
  | _, nil => none

/-- The last step of `RB_REMOVE_COLOR` at the parent `f`, where the sibling has a
red child: the sibling takes the parent's place and colour. -/
def balance (f : Frame α) (elm : ColorTree α) : Option (ColorTree α) :=
  (turnOut f.dir f.sibling).bind fun tmp =>
    match f.dir, tmp with
    | .left, node _ l a r => rotate .left (node .black elm f.elm (node f.color l a (blackenIf r)))
    | .right, node _ l a r =>
      rotate .right (node .black (node f.color (blackenIf l) a r) f.elm elm)
    | _, nil => none

/-- The parent's subtree after `RB_COLOR(tmp) = RB_RED` for the sibling `tmp`. -/
def reddenSibling (f : Frame α) (elm : ColorTree α) : ColorTree α :=
  hang f.dir f.color f.elm elm (redden f.sibling)

/-- `RB_REMOVE_COLOR`. -/
def removeColor : Path α → ColorTree α → Option (ColorTree α)
  | [], elm => some (blackenIf elm)
  | f :: p, elm =>
    if isRed elm then some (zip (f :: p) (blackenIf elm))
    else
      match liftSibling f with
      | none => none
      | some (f, up) =>
        match f.sibling with
        | nil => none
        | node _ l _ r =>
          if isRed l || isRed r then (balance f elm).bind fun top => blacken (zip (up ++ p) top)
          else
            match up with
            | [] => removeColor p (reddenSibling f elm)
            -- the parent is red here, so the loop ends with it
            | _ => some (zip (up ++ p) (blackenIf (reddenSibling f elm)))

/-- The way down that `RB_INSERT` takes: to the element that compares equal to `x`,
or to the free place for it. -/
def descend (cmp : α → α → Int) (x : α) : Path α → ColorTree α → α ⊕ Path α
  | p, nil => .inr p
  | p, node c l a r =>
    if cmp x a < 0 then descend cmp x (⟨.left, c, a, r⟩ :: p) l
    else if cmp x a > 0 then descend cmp x (⟨.right, c, a, l⟩ :: p) r
    else .inl a

/-- `RB_INSERT`: the element already there, if any, and the tree. -/
def insert (cmp : α → α → Int) (x : α) (t : ColorTree α) : Option (Option α × ColorTree α) :=
  match descend cmp x [] t with
  | .inl a => some (some a, t)
  | .inr p => (insertColor p (node .red nil x nil)).map fun t => (none, t)

/-- `RB_FIND`. -/
def find (cmp : α → α → Int) (x : α) : ColorTree α → Option α
  | nil => none
  | node _ l a r =>
    if cmp x a < 0 then find cmp x l
    else if cmp x a > 0 then find cmp x r
    else some a

/-- The place that a pointer to `x` names. -/
def locate [DecidableEq α] (x : α) : Path α → ColorTree α → Option (Path α × ColorTree α)
  | _, nil => none
  | p, node c l a r =>
    if a = x then some (p, node c l a r)
    else (locate x (⟨.left, c, a, r⟩ :: p) l).or (locate x (⟨.right, c, a, l⟩ :: p) r)

/-- The leftmost place of a subtree. -/
def leftmost : Path α → ColorTree α → Path α × ColorTree α
  | p, node c (node c' l' a' r') a r => leftmost (⟨.left, c, a, r⟩ :: p) (node c' l' a' r')
  | p, t => (p, t)

/-- The end of `RB_REMOVE`, where a node of the colour made way for `child`. -/
def splice (color : Color) (p : Path α) (child : ColorTree α) : Option (ColorTree α) :=
  if color = .black then removeColor p child else some (zip p child)

/-- `RB_REMOVE`, for an element of the tree. With two children, its successor
takes over its fields, and the place to repair is the successor's old one. -/
def remove [DecidableEq α] (x : α) (t : ColorTree α) : Option (ColorTree α) :=
  match locate x [] t with
  | some (p, node c nil _ r) => splice c p r
  | some (p, node c l _ nil) => splice c p l
  | some (p, node c l _ r) =>
    match leftmost [] r with
    | (q, node color _ elm child) => splice color (q ++ ⟨.right, c, elm, l⟩ :: p) child
    | _ => none
  | _ => none

/-- `RB_MINMAX`: `RB_MIN` for a negative value. -/
def minmax (val : Int) : Option α → ColorTree α → Option α
  | parent, nil => parent
  | _, node _ l a r => if val < 0 then minmax val (some a) l else minmax val (some a) r

/-- The climb of `RB_NEXT` to the first ancestor that has the place on its left. -/
def nextUp : Path α → Option α
  | [] => none
  | f :: p => if f.dir = .left then some f.elm else nextUp p

/-- `RB_NEXT`, for an element of the tree. -/
def next [DecidableEq α] (x : α) (t : ColorTree α) : Option (Option α) :=
  match locate x [] t with
  | some (p, node _ _ _ nil) => some (nextUp p)
  | some (_, node _ _ _ r) =>
    match leftmost [] r with
    | (_, node _ _ a _) => some (some a)
    | _ => none
  | _ => none

/-! ### The order of the elements -/

theorem toList_hang_congr {d : Dir} {c c' : Color} {a : α} {t t' s s' : ColorTree α}
    (ht : t.toList = t'.toList) (hs : s.toList = s'.toList) :
    (hang d c a t s).toList = (hang d c' a t' s').toList := by
  cases d <;> simp [hang, toList, ht, hs]

@[simp] theorem toList_blackenIf (t : ColorTree α) : (blackenIf t).toList = t.toList := by
  cases t <;> rfl

@[simp] theorem toList_redden (t : ColorTree α) : (redden t).toList = t.toList := by
  cases t <;> rfl

theorem toList_blacken {t u : ColorTree α} (h : blacken t = some u) : u.toList = t.toList := by
  cases t with
  | nil => cases h
  | node c l a r => cases h; rfl

/-- A rotation keeps the order. -/
theorem toList_rotate {d : Dir} {t u : ColorTree α} (h : rotate d t = some u) : u.toList = t.toList := by
  unfold rotate at h
  split at h
  · cases h; simp [toList]
  · cases h; simp [toList]
  · cases h

theorem toList_turn {f g : Frame α} {elm u : ColorTree α} (h : turn f g elm = some u) :
    u.toList = (g.attach (f.attach elm)).toList := by
  simp only [turn, Option.bind_eq_some_iff] at h
  obtain ⟨t₂, ⟨t₁, h₁, h₂⟩, h₃⟩ := h
  have e₁ : t₁.toList = (f.attach elm).toList := by
    split at h₁
    · cases h₁; exact toList_hang_congr rfl rfl
    · rw [toList_rotate h₁]; exact toList_hang_congr rfl rfl
  exact (toList_rotate h₃).trans (toList_hang_congr ((toList_blacken h₂).trans e₁) rfl)

theorem toList_insertColor {p : Path α} {t u : ColorTree α} (h : insertColor p t = some u) :
    u.toList = (zip p t).toList := by
  fun_induction insertColor p t with
  | case1 elm => exact toList_blacken h
  | case2 f elm => cases h
  | case3 f elm => exact toList_blacken h
  | case4 f g p elm hf hg ih =>
    rw [ih h]
    exact toList_zip_congr (toList_hang_congr (toList_hang_congr rfl rfl) (toList_blackenIf _))
  | case5 f g p elm hf hg =>
    obtain ⟨top, ht, h⟩ := Option.bind_eq_some_iff.mp h
    exact (toList_blacken h).trans (toList_zip_congr (toList_turn ht))
  | case6 f g p elm hf => exact toList_blacken h

theorem toList_liftSibling {f g : Frame α} {p : Path α} (h : liftSibling f = some (g, p))
    (elm : ColorTree α) : (zip p (g.attach elm)).toList = (f.attach elm).toList := by
  obtain ⟨d, c, a, s⟩ := f
  unfold liftSibling at h
  cases s with
  | nil => cases h
  | node c' l b r =>
    cases c' with
    | black => cases h; rfl
    | red => cases d <;> cases h <;> simp [zip, Frame.attach, hang, toList]

theorem toList_turnOut {d : Dir} {t u : ColorTree α} (h : turnOut d t = some u) :
    u.toList = t.toList := by
  unfold turnOut at h
  split at h
  · split at h
    · cases h; rfl
    · rw [toList_rotate h]; simp [toList]
  · split at h
    · cases h; rfl
    · rw [toList_rotate h]; simp [toList]
  · cases h

theorem toList_balance {f : Frame α} {elm u : ColorTree α} (h : balance f elm = some u) :
    u.toList = (f.attach elm).toList := by
  obtain ⟨tmp, ht, h⟩ := Option.bind_eq_some_iff.mp h
  have e := toList_turnOut ht
  split at h
  next hd => rw [toList_rotate h]; simp [Frame.attach, hang, hd, toList, ← e]
  next hd => rw [toList_rotate h]; simp [Frame.attach, hang, hd, toList, ← e]
  next => cases h

theorem toList_removeColor {p : Path α} {t u : ColorTree α} (h : removeColor p t = some u) :
    u.toList = (zip p t).toList := by
  fun_induction removeColor p t with
  | case1 elm => cases h; exact toList_blackenIf _
  | case2 f p elm hr => cases h; exact toList_zip_congr (toList_blackenIf _)
  | case3 f p elm hr hl => cases h
  | case4 f p elm hr f' up hl hs => cases h
  | case5 f p elm hr f' up hl c l a r hs hc =>
    obtain ⟨top, hb, h⟩ := Option.bind_eq_some_iff.mp h
    rw [toList_blacken h, zip_append]
    refine toList_zip_congr (.trans ?_ (toList_liftSibling hl elm))
    exact toList_zip_congr (toList_balance hb)
  | case6 f p elm hr f' c l a r hs hc hl ih =>
    refine (ih h).trans (toList_zip_congr (.trans ?_ (toList_liftSibling hl elm)))
    exact toList_hang_congr rfl (toList_redden _)
  | case7 f p elm hr f' up hl c l a r hs hc hu =>
    cases h
    rw [zip_append]
    refine toList_zip_congr (.trans ?_ (toList_liftSibling hl elm))
    refine toList_zip_congr ((toList_blackenIf _).trans ?_)
    exact toList_hang_congr rfl (toList_redden _)

/-! ### The colours -/

theorem isRed_iff {c : Color} {n : Nat} {t : ColorTree α} (h : Balanced c n t) :
    isRed t = true ↔ c = .red := by
  cases h <;> simp [isRed]

theorem balanced_blackenIf {c : Color} {n : Nat} {t : ColorTree α} (h : Balanced c n t) :
    ∃ m, Balanced .black m (blackenIf t) ∧ m = if c = .red then n + 1 else n := by
  cases h with
  | nil => exact ⟨0, .nil, rfl⟩
  | red hl hr => exact ⟨_, .black hl hr, rfl⟩
  | black hl hr => exact ⟨_, .black hl hr, rfl⟩

theorem blacken_legal {t : ColorTree α} (h : Legal t) (hn : t ≠ nil) : blacken t = some t := by
  obtain ⟨n, h⟩ := h
  cases h with
  | nil => exact absurd rfl hn
  | black hl hr => rfl

/-- Where the place and its subtree suit each other, the root is black already. -/
theorem blacken_zip {p : Path α} {c c' : Color} {n : Nat} {t : ColorTree α} (hp : Context p c n)
    (ht : Balanced c' n t) (hc : c = .red → c' = .black) (hn : t ≠ nil) :
    ∃ u, blacken (zip p t) = some u ∧ Legal u :=
  ⟨_, blacken_legal (hp.zip ht hc) (zip_ne_nil hn), hp.zip ht hc⟩

theorem balanced_turn {f g : Frame α} {elm : ColorTree α} {c : Color} {n : Nat}
    (he : Balanced .red n elm) (hf : Balanced .black n f.sibling) (hg : Balanced c n g.sibling)
    (hc : ¬isRed g.sibling) : ∃ top, turn f g elm = some top ∧ Balanced .black (n + 1) top := by
  obtain ⟨d, _, a, s⟩ := f
  obtain ⟨d', _, b, s'⟩ := g
  cases he with
  | red hl hr =>
    have hb : c = .black := by
      cases c with
      | black => rfl
      | red => exact absurd ((isRed_iff hg).mpr rfl) hc
    subst hb
    cases d <;> cases d' <;> refine ⟨_, rfl, ?_⟩
    · exact .black (.red hl hr) (.red hf hg)
    · exact .black (.red hg hl) (.red hr hf)
    · exact .black (.red hf hl) (.red hr hg)
    · exact .black (.red hg hf) (.red hl hr)

/-- `RB_INSERT_COLOR` at a red element over black subtrees repairs the tree. -/
theorem legal_insertColor {p : Path α} {t : ColorTree α} {c : Color} {n : Nat}
    (hp : Context p c n) (ht : Balanced .red n t) :
    ∃ u, insertColor p t = some u ∧ Legal u := by
  fun_induction insertColor p t generalizing c n with
  | case1 elm =>
    cases ht with
    | red hl hr => exact ⟨_, rfl, _, .black hl hr⟩
  | case2 f elm hf =>
    obtain ⟨-, c₀, c', hp, -, hc⟩ := hp.inv
    exact absurd ((hc hf).1 ▸ hp) Context.not_top
  | case3 f elm hf =>
    obtain ⟨rfl, -⟩ := hp.inv
    exact blacken_zip hp ht (fun h => absurd h hf) ht.ne_nil_of_red
  | case4 f g p elm hf hg ih =>
    obtain ⟨-, c₀, c', hp, hs, hc⟩ := hp.inv
    obtain ⟨rfl, rfl⟩ := hc hf
    obtain ⟨hgc, c₁, c₂, hp, hs', -⟩ := hp.inv
    have hr := (isRed_iff hs').mp hg
    obtain ⟨m, hb, hm⟩ := balanced_blackenIf hs'
    rw [hf] at hs' hp hm
    rw [← hgc] at hp
    rw [hm, if_pos hr] at hb
    exact ih hp (.hang_red (ht.hang hs) hb)
  | case5 f g p elm hf hg =>
    obtain ⟨-, c₀, c', hp, hs, hc⟩ := hp.inv
    obtain ⟨rfl, rfl⟩ := hc hf
    obtain ⟨hgc, c₁, c₂, hp, hs', -⟩ := hp.inv
    rw [hf] at hs' hp
    rw [← hgc] at hp
    obtain ⟨top, h, hb⟩ := balanced_turn ht hs hs' hg
    rw [h]
    exact blacken_zip hp hb (fun _ => rfl) hb.ne_nil
  | case6 f g p elm hf =>
    obtain ⟨rfl, -⟩ := hp.inv
    exact blacken_zip hp ht (fun h => absurd h hf) ht.ne_nil_of_red

theorem not_isRed {c : Color} {n : Nat} {t : ColorTree α} (h : Balanced c n t) (hr : ¬isRed t) :
    Balanced .black n t := by
  cases h with
  | nil => exact .nil
  | red => exact absurd rfl hr
  | black h₁ h₂ => exact .black h₁ h₂

theorem balanced_balance {f : Frame α} {elm : ColorTree α} {n : Nat} (he : Balanced .black n elm)
    (hs : Balanced .black (n + 1) f.sibling) {c : Color} {l r : ColorTree α} {b : α}
    (e : f.sibling = node c l b r) (hr : isRed l || isRed r) :
    ∃ top, balance f elm = some top ∧ Balanced f.color (f.color.rank (n + 1)) top := by
  obtain ⟨d, c₀, a, s⟩ := f
  obtain rfl : s = node c l b r := e
  cases hs with
  | black hsl hsr =>
    cases d with
    | left =>
      cases hsr with
      | red h₁ h₂ => exact ⟨_, rfl, .node (.black he hsl) (.black h₁ h₂) _ _⟩
      | nil =>
        cases hsl with
        | red h₁ h₂ => exact ⟨_, rfl, .node (.black he h₁) (.black h₂ .nil) _ _⟩
        | nil => cases hr
      | black h₃ h₄ =>
        cases hsl with
        | red h₁ h₂ => exact ⟨_, rfl, .node (.black he h₁) (.black h₂ (.black h₃ h₄)) _ _⟩
        | black => cases hr
    | right =>
      cases hsl with
      | red h₁ h₂ => exact ⟨_, rfl, .node (.black h₁ h₂) (.black hsr he) _ _⟩
      | nil =>
        cases hsr with
        | red h₁ h₂ => exact ⟨_, rfl, .node (.black .nil h₁) (.black h₂ he) _ _⟩
        | nil => cases hr
      | black h₃ h₄ =>
        cases hsr with
        | red h₁ h₂ => exact ⟨_, rfl, .node (.black (.black h₃ h₄) h₁) (.black h₂ he) _ _⟩
        | black => cases hr

/-- A sibling of positive black height can be brought up until it is black, and the
place stays one that wants a subtree of black height `n + 1`. -/
theorem context_liftSibling {f : Frame α} {p : Path α} {c : Color} {n : Nat}
    (hp : Context (f :: p) c (n + 1)) : ∃ g up, liftSibling f = some (g, up) ∧
      Balanced .black (n + 1) g.sibling ∧ (up = [] ∧ g = f ∨ up ≠ [] ∧ g.color = .red) ∧
      ∃ c₀, Context (up ++ p) c₀ (g.color.rank (n + 1)) ∧ (g.color = .red → c₀ = .black) := by
  obtain ⟨d, c', a, s⟩ := f
  obtain ⟨-, c₀, c₁, hp, hs, hc⟩ := hp.inv
  cases hs with
  | black hl hr => exact ⟨_, [], rfl, .black hl hr, .inl ⟨rfl, rfl⟩, c₀, hp, fun h => (hc h).1⟩
  | red hl hr =>
    cases c' with
    | red => exact absurd (hc rfl).2 nofun
    | black =>
      cases d with
      | left => exact ⟨_, _, rfl, hl, .inr ⟨nofun, rfl⟩, .black, .black hp hr, fun _ => rfl⟩
      | right => exact ⟨_, _, rfl, hr, .inr ⟨nofun, rfl⟩, .black, .black hp hl, fun _ => rfl⟩

/-- A subtree that is one black node short of `n + 1`. A red one becomes right when it
is blackened. -/
def Short (n : Nat) (t : ColorTree α) : Prop :=
  if isRed t then Balanced .black (n + 1) (blackenIf t) else Balanced .black n t

theorem Short.of_balanced {c : Color} {n : Nat} {t : ColorTree α} (h : Balanced c n t) : Short n t := by
  cases h with
  | nil => exact .nil
  | red hl hr => exact .black hl hr
  | black hl hr => exact .black hl hr

theorem Short.red {n : Nat} {t : ColorTree α} (h : Short n t) (hr : isRed t) :
    Balanced .black (n + 1) (blackenIf t) := by
  rwa [Short, if_pos hr] at h

theorem Short.black {n : Nat} {t : ColorTree α} (h : Short n t) (hr : ¬isRed t) :
    Balanced .black n t := by
  rwa [Short, if_neg hr] at h

theorem balanced_redden {n : Nat} {s : ColorTree α} (h : Balanced .black (n + 1) s) {c : Color}
    {l r : ColorTree α} {a : α} (e : s = node c l a r) (hr : ¬(isRed l || isRed r)) :
    Balanced .red n (redden s) := by
  subst e
  simp only [Bool.or_eq_true, not_or] at hr
  cases h with
  | black hl hr' => exact .red (not_isRed hl hr.1) (not_isRed hr' hr.2)

/-- Where the sibling has no red child, it is reddened, and what is short is the
parent's subtree. -/
theorem short_parent {g : Frame α} {t : ColorTree α} {n : Nat} (ht : Balanced .black n t)
    (hs : Balanced .red n (redden g.sibling)) :
    ∃ m, Short m (reddenSibling g t) ∧
      g.color.rank (n + 1) = m + 1 ∧
      (g.color = .red → isRed (reddenSibling g t)) := by
  obtain ⟨d, c, a, s⟩ := g
  cases c with
  | black => exact ⟨n + 1, .of_balanced (ht.hang hs), rfl, nofun⟩
  | red =>
    cases d with
    | left => exact ⟨n, Balanced.black ht hs, rfl, fun _ => rfl⟩
    | right => exact ⟨n, Balanced.black hs ht, rfl, fun _ => rfl⟩

/-- `RB_REMOVE_COLOR` at a subtree that is one black node short repairs the tree. -/
theorem legal_removeColor {p : Path α} {t : ColorTree α} {c : Color} {n : Nat}
    (hp : Context p c (n + 1)) (ht : Short n t) : ∃ u, removeColor p t = some u ∧ Legal u := by
  fun_induction removeColor p t generalizing c n with
  | case1 elm =>
    by_cases hr : isRed elm
    · exact ⟨_, rfl, _, ht.red hr⟩
    · obtain ⟨m, hb, -⟩ := balanced_blackenIf (ht.black hr)
      exact ⟨_, rfl, m, hb⟩
  | case2 f p elm hr => exact ⟨_, rfl, hp.zip (ht.red hr) fun _ => rfl⟩
  | case3 f p elm hr hl =>
    obtain ⟨g, up, h, -⟩ := context_liftSibling hp
    cases hl.symm.trans h
  | case4 f p elm hr g up hl hs =>
    obtain ⟨g', up', h, hb, -⟩ := context_liftSibling hp
    cases hl.symm.trans h
    exact absurd hs hb.ne_nil
  | case5 f p elm hr g up hl c' l a r hs hc =>
    obtain ⟨g', up', h, hb, -, c₀, hp', hr'⟩ := context_liftSibling hp
    cases hl.symm.trans h
    obtain ⟨top, h, hb⟩ := balanced_balance (ht.black hr) hb hs hc
    rw [h]
    refine blacken_zip hp' hb (fun h₀ => ?_) ?_
    · cases hg : g.color with
      | black => rfl
      | red => rw [hr' hg] at h₀; cases h₀
    · rintro rfl
      generalize g.color = k at hb
      cases k <;> cases hb
  | case6 f p elm hr g c' l a r hs hc hl ih =>
    obtain ⟨g', up', h, hb, -, c₀, hp', -⟩ := context_liftSibling hp
    cases hl.symm.trans h
    obtain ⟨m, hm, e, -⟩ := short_parent (ht.black hr) (balanced_redden hb hs hc)
    rw [e] at hp'
    exact ih hp' hm
  | case7 f p elm hr g up hl c' l a r hs hc hu =>
    obtain ⟨g', up', h, hb, hg, c₀, hp', -⟩ := context_liftSibling hp
    cases hl.symm.trans h
    obtain ⟨-, hg⟩ := hg.resolve_left fun h => hu h.1
    obtain ⟨m, hm, e, hr'⟩ := short_parent (ht.black hr) (balanced_redden hb hs hc)
    rw [e] at hp'
    exact ⟨_, rfl, hp'.zip (hm.red (hr' hg)) fun _ => rfl⟩

end FilesEvent.RB
