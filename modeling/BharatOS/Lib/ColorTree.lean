import Mathlib.Data.List.Perm.Basic
import Mathlib.Order.BoundedOrder.Lattice
import Mathlib.Order.MinMax

/-!
# Red-black trees and their paths

`fill` is the tree around a hole, `Hole c n` says what balances it, and `join d` is a node with its
first subtree on side `d`, so that lemmas hold for both sides.
-/

namespace BharatOS

open List

inductive ChildSide where
  | left | right
  deriving DecidableEq, Repr

namespace ChildSide

def other : ChildSide → ChildSide
  | left => right
  | right => left

@[simp] theorem other_other (d : ChildSide) : d.other.other = d := by cases d <;> rfl

@[simp] theorem other_ne (d : ChildSide) : d.other ≠ d := by cases d <;> decide

@[simp] theorem ne_other (d : ChildSide) : d ≠ d.other := by cases d <;> decide

theorem eq_or_other (d e : ChildSide) : e = d ∨ e = d.other := by cases d <;> cases e <;> decide

end ChildSide

inductive Color where
  | black | red
  deriving DecidableEq, Repr

inductive ColorTree (α : Type) where
  | nil
  | node (c : Color) (l : ColorTree α) (a : α) (r : ColorTree α)

/-- One step of the way up from a hole: the node above, on which side of it the hole is, and the
tree on its other side. -/
structure Hop (α : Type) where
  side : ChildSide
  color : Color
  node : α
  sibling : ColorTree α

namespace ColorTree

variable {α β : Type}

def root : ColorTree α → Option α
  | nil => none
  | node _ _ a _ => some a

/-- The nodes from left to right. -/
def nodes : ColorTree α → List α
  | nil => []
  | node _ l a r => l.nodes ++ a :: r.nodes

def height : ColorTree α → Nat
  | nil => 0
  | node _ l _ r => max l.height r.height + 1

/-- The node with `s` on side `d` and `t` on the other side. -/
def join (d : ChildSide) (c : Color) (s : ColorTree α) (a : α) (t : ColorTree α) : ColorTree α :=
  match d with
  | .left => node c s a t
  | .right => node c t a s

@[simp] theorem root_join (d : ChildSide) (c : Color) (s : ColorTree α) (a : α) (t : ColorTree α) :
    (join d c s a t).root = some a := by cases d <;> rfl

theorem join_other (d : ChildSide) (c : Color) (s : ColorTree α) (a : α) (t : ColorTree α) :
    join d.other c s a t = join d c t a s := by cases d <;> rfl

theorem eq_nil_or_join (d : ChildSide) (t : ColorTree α) : t = nil ∨ ∃ c s a u, t = join d c s a u := by
  cases t with
  | nil => exact .inl rfl
  | node c l a r =>
    cases d with
    | left => exact .inr ⟨c, l, a, r, rfl⟩
    | right => exact .inr ⟨c, r, a, l, rfl⟩

theorem nodes_join (d : ChildSide) (c : Color) (s : ColorTree α) (a : α) (t : ColorTree α) :
    (join d c s a t).nodes.Perm (a :: (s.nodes ++ t.nodes)) := by
  cases d with
  | left => exact perm_middle
  | right => exact perm_middle.trans (perm_append_comm.cons a)

variable {a : α} {hop : Hop α} {c : Color} {n : Nat}

theorem root_mem {t : ColorTree α} (h : t.root = some a) : a ∈ t.nodes := by
  cases t with
  | nil => cases h
  | node c l b r =>
    cases h
    simp [nodes]

/-! ## Balance -/

inductive Balanced : ColorTree α → Color → Nat → Prop
  | nil : Balanced nil .black 0
  | red {l r : ColorTree α} {a : α} {n : Nat} (left : Balanced l .black n)
      (right : Balanced r .black n) : Balanced (node .red l a r) .red n
  | black {l r : ColorTree α} {a : α} {c c' : Color} {n : Nat} (left : Balanced l c n)
      (right : Balanced r c' n) : Balanced (node .black l a r) .black (n + 1)

namespace Balanced

variable {d : ChildSide} {c c' : Color} {s t : ColorTree α} {a : α} {n : Nat}

theorem join_red (hs : s.Balanced .black n) (ht : t.Balanced .black n) :
    (join d .red s a t).Balanced .red n := by
  cases d with
  | left => exact .red hs ht
  | right => exact .red ht hs

theorem join_black (hs : s.Balanced c n) (ht : t.Balanced c' n) :
    (join d .black s a t).Balanced .black (n + 1) := by
  cases d with
  | left => exact .black hs ht
  | right => exact .black ht hs

theorem of_join_red (h : (join d .red s a t).Balanced c n) :
    c = .red ∧ s.Balanced .black n ∧ t.Balanced .black n := by
  cases d with
  | left => cases h with | red left right => exact ⟨rfl, left, right⟩
  | right => cases h with | red left right => exact ⟨rfl, right, left⟩

theorem of_join_black (h : (join d .black s a t).Balanced c n) :
    ∃ m c₁ c₂, c = .black ∧ n = m + 1 ∧ s.Balanced c₁ m ∧ t.Balanced c₂ m := by
  cases d with
  | left => cases h with | black left right => exact ⟨_, _, _, rfl, rfl, left, right⟩
  | right => cases h with | black left right => exact ⟨_, _, _, rfl, rfl, right, left⟩

/-- A tree with black nodes on its ways down, seen from side `d`. -/
theorem exists_join (h : s.Balanced .black (n + 1)) (d : ChildSide) :
    ∃ t a u c₁ c₂, s = join d .black t a u ∧ t.Balanced c₁ n ∧ u.Balanced c₂ n := by
  obtain rfl | ⟨c', t, a, u, rfl⟩ := eq_nil_or_join d s
  · cases h
  obtain rfl := (show Color.black = c' from by
    cases c' with
    | red => exact h.of_join_red.1
    | black => rfl)
  obtain ⟨m, c₁, c₂, -, same, ht, hu⟩ := h.of_join_black
  obtain rfl := Nat.succ.inj same
  exact ⟨t, a, u, c₁, c₂, rfl, ht, hu⟩

theorem exists_join_red (h : s.Balanced .red n) (d : ChildSide) :
    ∃ t a u, s = join d .red t a u ∧ t.Balanced .black n ∧ u.Balanced .black n := by
  obtain rfl | ⟨c', t, a, u, rfl⟩ := eq_nil_or_join d s
  · cases h
  cases c' with
  | red => exact ⟨t, a, u, rfl, h.of_join_red.2⟩
  | black =>
    obtain ⟨m, c₁, c₂, same, -⟩ := h.of_join_black
    cases same

/-- The colour is that of the root. -/
theorem color_eq (h : (join d c s a t).Balanced c' n) : c' = c := by
  cases c with
  | red => exact (of_join_red h).1
  | black =>
    obtain ⟨-, -, -, black, -⟩ := of_join_black h
    exact black

end Balanced

/-! ## Paths -/

def fill : List (Hop α) → ColorTree α → ColorTree α
  | [], t => t
  | hop :: rest, t => fill rest (join hop.side hop.color t hop.node hop.sibling)

/-- The nodes that a path goes through or by. -/
def along : List (Hop α) → List α
  | [] => []
  | hop :: rest => hop.node :: (hop.sibling.nodes ++ along rest)

variable {path : List (Hop α)} {t : ColorTree α}

theorem sibling_along (h : hop ∈ path) (member : a ∈ hop.sibling.nodes) : a ∈ along path := by
  induction path with
  | nil => cases h
  | cons first rest ih =>
    rcases mem_cons.mp h with rfl | h
    · simp [along, member]
    · simp [along, ih h]

/-- The node above the hole. -/
def above (path : List (Hop α)) : Option α := path.head?.map (·.node)

/-- The nodes to the left of the hole. -/
def before : List (Hop α) → List α
  | [] => []
  | hop :: rest => before rest ++
      match hop.side with
      | .left => []
      | .right => hop.sibling.nodes ++ [hop.node]

theorem before_subset (h : a ∈ before path) : a ∈ along path := by
  induction path with
  | nil => exact h
  | cons hop rest ih =>
    obtain ⟨side, c, b, sibling⟩ := hop
    rcases mem_append.mp h with h | h
    · simp [along, ih h]
    cases side with
    | left => cases h
    | right =>
      simp only [mem_append, mem_singleton] at h
      simp only [along, mem_cons, mem_append]
      tauto

/-- The nodes to the right of the hole. -/
def after : List (Hop α) → List α
  | [] => []
  | hop :: rest =>
      (match hop.side with
      | .left => hop.node :: hop.sibling.nodes
      | .right => []) ++ after rest

/-- The node to the left of the hole is on the path, not beside it. -/
theorem last_before_away (last : (before path).getLast? = some a) (nodup : (along path).Nodup)
    (member : hop ∈ path) : a ∉ hop.sibling.nodes := by
  induction path with
  | nil => cases last
  | cons first rest ih =>
    obtain ⟨side, c, b, sibling⟩ := first
    obtain ⟨notNode, apart⟩ := nodup_cons.mp nodup
    obtain ⟨-, nodupRest, apart⟩ := nodup_append.mp apart
    cases side with
    | left =>
      simp only [before, append_nil] at last
      rcases mem_cons.mp member with rfl | member
      · exact fun inside => apart a inside a (before_subset (mem_of_getLast? last)) rfl
      · exact ih last nodupRest member
    | right =>
      obtain rfl : b = a := by simpa [before] using last
      rcases mem_cons.mp member with rfl | member
      · exact fun inside => notNode (mem_append_left _ inside)
      · exact fun inside => notNode (mem_append_right _ (sibling_along member inside))

theorem nodes_fill (path : List (Hop α)) (t : ColorTree α) :
    (fill path t).nodes = before path ++ t.nodes ++ after path := by
  induction path generalizing t with
  | nil => simp [fill, before, after]
  | cons hop rest ih =>
    obtain ⟨side, color, a, sibling⟩ := hop
    rw [fill, ih]
    cases side <;> simp [join, nodes, before, after]

theorem nodes_fill_congr (path : List (Hop α)) {u : ColorTree α} (same : t.nodes = u.nodes) :
    (fill path t).nodes = (fill path u).nodes := by
  rw [nodes_fill, nodes_fill, same]

/-- A rotation keeps the order of the nodes. -/
theorem nodes_rotate (d : ChildSide) (c c' : Color) (A B C : ColorTree α) (x y : α) :
    (join d c' (join d c A x B) y C).nodes = (join d c A x (join d c' B y C)).nodes := by
  cases d <;> simp [join, nodes]

theorem nodes_fill_perm (path : List (Hop α)) (t : ColorTree α) :
    (fill path t).nodes.Perm (t.nodes ++ along path) := by
  induction path generalizing t with
  | nil => simp [fill, along]
  | cons hop rest ih =>
    refine (ih _).trans (((nodes_join _ _ _ _ _).append_right _).trans ?_)
    simp only [along, cons_append, append_assoc]
    exact perm_middle.symm

theorem nodes_focus (path : List (Hop α)) (d : ChildSide) (c : Color) (s : ColorTree α) (a : α)
    (t : ColorTree α) : (fill path (join d c s a t)).nodes.Perm
      (a :: (s.nodes ++ (t.nodes ++ along path))) := by
  simpa only [cons_append, append_assoc] using
    (nodes_fill_perm path _).trans ((nodes_join d c s a t).append_right (along path))

theorem nodes_fill_single (path : List (Hop α)) (d : ChildSide) (c : Color) (a : α)
    (t : ColorTree α) : (fill path (join d c .nil a t)).nodes.Perm (a :: (fill path t).nodes) :=
  (nodes_focus path d c .nil a t).trans ((nodes_fill_perm path t).symm.cons a)

/-- The two nodes of a rotation come first. -/
theorem nodes_focus_pair (path : List (Hop α)) (d : ChildSide) (c c' : Color) (A B C : ColorTree α)
    (x y : α) : (fill path (join d c A x (join d c' B y C))).nodes.Perm
      (x :: y :: (A.nodes ++ (B.nodes ++ (C.nodes ++ along path)))) := by
  have inner := ((nodes_join d c' B y C).append_right (along path)).append_left A.nodes
  simp only [cons_append, append_assoc] at inner
  exact (nodes_focus path d c A x _).trans ((inner.trans perm_middle).cons x)

/-- A tree with a node is not empty. -/
theorem fill_join {d e : ChildSide} {s : ColorTree α} :
    ∃ c' s' b t', fill path (join d c s a t) = join e c' s' b t' := by
  induction path generalizing d c s a t with
  | nil =>
    rcases e.eq_or_other d with rfl | rfl
    · exact ⟨c, s, a, t, rfl⟩
    · exact ⟨c, t, a, s, join_other ..⟩
  | cons hop rest ih => exact ih ..

theorem root_fill (hop : Hop α) (rest : List (Hop α)) (t u : ColorTree α) :
    (fill (hop :: rest) t).root = (fill (hop :: rest) u).root := by
  induction rest generalizing hop t u with
  | nil => simp [fill]
  | cons next rest ih => exact ih next _ _

theorem root_fill_mem (hop : Hop α) (rest : List (Hop α)) (t : ColorTree α) :
    ∃ a ∈ along (hop :: rest), (fill (hop :: rest) t).root = some a := by
  induction rest generalizing hop t with
  | nil => exact ⟨hop.node, by simp [along], by simp [fill]⟩
  | cons next rest ih =>
    obtain ⟨a, member, root⟩ := ih next (join hop.side hop.color t hop.node hop.sibling)
    exact ⟨a, mem_cons_of_mem _ (mem_append_right _ member), root⟩

inductive Hole : List (Hop α) → Color → Nat → Prop
  | root {n : Nat} : Hole [] .black n
  | red {d : ChildSide} {a : α} {t : ColorTree α} {rest : List (Hop α)} {n : Nat}
      (sibling : t.Balanced .black n) (up : Hole rest .red n) :
      Hole (⟨d, .red, a, t⟩ :: rest) .black n
  | black {d : ChildSide} {a : α} {t : ColorTree α} {rest : List (Hop α)} {c c' : Color} {n : Nat}
      (sibling : t.Balanced c' n) (up : Hole rest .black (n + 1)) :
      Hole (⟨d, .black, a, t⟩ :: rest) c n

theorem Hole.fill (h : Hole path c n) (ht : t.Balanced c n) :
    ∃ m, (fill path t).Balanced .black m := by
  induction h generalizing t with
  | root => exact ⟨_, ht⟩
  | red sibling _ ih => exact ih (.join_red ht sibling)
  | black sibling _ ih => exact ih (.join_black ht sibling)

/-- Where a red tree fits, a black one does. -/
theorem Hole.to_black (h : Hole path c n) : Hole path .black n := by
  cases h with
  | root => exact .root
  | red sibling up => exact .red sibling up
  | black sibling up => exact .black sibling up

/-- Which nodes are on the path does not matter. -/
theorem Hole.rename {rest : List (Hop α)} {d : ChildSide} {c' : Color} {b : α}
    (h : Hole (path ++ ⟨d, c, a, t⟩ :: rest) c' n) : Hole (path ++ ⟨d, c, b, t⟩ :: rest) c' n := by
  induction path generalizing c' n with
  | nil =>
    cases h with
    | red sibling up => exact .red sibling up
    | black sibling up => exact .black sibling up
  | cons hop path ih =>
    cases h with
    | red sibling up => exact .red sibling (ih up)
    | black sibling up => exact .black sibling (ih up)

theorem fill_append (path rest : List (Hop α)) (t : ColorTree α) :
    ColorTree.fill (path ++ rest) t = ColorTree.fill rest (ColorTree.fill path t) := by
  induction path generalizing t with
  | nil => rfl
  | cons hop path ih => exact ih _

/-- The way down to a node. -/
theorem exists_fill (h : a ∈ t.nodes) : ∃ path c l r, t = ColorTree.fill path (node c l a r) := by
  induction t with
  | nil => cases h
  | node c l b r ihl ihr =>
    rcases mem_append.mp h with h | h
    · obtain ⟨path, c', l', r', rfl⟩ := ihl h
      exact ⟨path ++ [⟨.left, c, b, r⟩], c', l', r', by rw [fill_append]; rfl⟩
    rcases mem_cons.mp h with rfl | h
    · exact ⟨[], c, l, r, rfl⟩
    obtain ⟨path, c', l', r', rfl⟩ := ihr h
    exact ⟨path ++ [⟨.right, c, b, l⟩], c', l', r', by rw [fill_append]; rfl⟩

/-- The way down to a subtree of a balanced tree. -/
theorem Hole.of_fill {m : Nat} (h : (ColorTree.fill path t).Balanced .black m) :
    ∃ c n, t.Balanced c n ∧ Hole path c n := by
  suffices all : ∀ path' : List (Hop α), (∃ c n, (ColorTree.fill path t).Balanced c n ∧
      Hole path' c n) → ∃ c n, t.Balanced c n ∧ Hole (path ++ path') c n by
    simpa using all [] ⟨_, _, h, .root⟩
  clear h
  induction path generalizing t with
  | nil => exact fun _ h => h
  | cons hop rest ih =>
    obtain ⟨d, color, a, sibling⟩ := hop
    intro path' h
    obtain ⟨c, n, balanced, hole⟩ := ih path' h
    cases color with
    | red =>
      obtain ⟨rfl, near, far⟩ := balanced.of_join_red
      exact ⟨_, _, near, .red far hole⟩
    | black =>
      obtain ⟨m, c₁, c₂, rfl, rfl, near, far⟩ := balanced.of_join_black
      exact ⟨_, _, near, .black far hole⟩

/-! ## The greatest value in a tree -/

section

variable [LinearOrder β] [OrderBot β] (f : α → β)

def sup : ColorTree α → β
  | nil => ⊥
  | node _ l a r => max (f a) (max l.sup r.sup)

theorem sup_join (d : ChildSide) (c : Color) (s : ColorTree α) (a : α) (t : ColorTree α) :
    (join d c s a t).sup f = max (f a) (max (s.sup f) (t.sup f)) := by
  cases d with
  | left => rfl
  | right => exact congrArg _ (max_comm _ _)

variable {t : ColorTree α} {a : α} {v : β} {f' : α → β}

theorem le_sup (h : a ∈ t.nodes) : f a ≤ t.sup f := by
  induction t with
  | nil => cases h
  | node c l b r ihl ihr =>
    rcases mem_append.mp h with h | h
    · exact le_max_of_le_right (le_max_of_le_left (ihl h))
    rcases mem_cons.mp h with rfl | h
    · exact le_max_left _ _
    · exact le_max_of_le_right (le_max_of_le_right (ihr h))

theorem exists_of_lt_sup (h : v < t.sup f) : ∃ a ∈ t.nodes, v < f a := by
  induction t with
  | nil => exact absurd h not_lt_bot
  | node c l b r ihl ihr =>
    simp only [sup, lt_max_iff] at h
    rcases h with h | h | h
    · exact ⟨b, by simp [nodes], h⟩
    · obtain ⟨a, member, less⟩ := ihl h
      exact ⟨a, by simp [nodes, member], less⟩
    · obtain ⟨a, member, less⟩ := ihr h
      exact ⟨a, by simp [nodes, member], less⟩

/-- At every node `top` is the greatest value below. -/
def Tops (top : α → β) : ColorTree α → Prop
  | nil => True
  | node c l a r => top a = (node c l a r).sup f ∧ l.Tops top ∧ r.Tops top

/-- Also above a hole, for a tree there whose greatest value is given. -/
def TopsAlong (top : α → β) : List (Hop α) → β → Prop
  | [], _ => True
  | hop :: rest, v => top hop.node = max (f hop.node) (max v (hop.sibling.sup f)) ∧
      hop.sibling.Tops f top ∧ TopsAlong top rest (max (f hop.node) (max v (hop.sibling.sup f)))

variable {f} {top top' : α → β}

theorem tops_join {d : ChildSide} {s u : ColorTree α} :
    (join d c s a u).Tops f top ↔
      top a = max (f a) (max (s.sup f) (u.sup f)) ∧ s.Tops f top ∧ u.Tops f top := by
  cases d with
  | left => rfl
  | right =>
    simp only [join, Tops, sup, max_comm (u.sup f)]
    tauto

theorem tops_fill : (fill path t).Tops f top ↔ t.Tops f top ∧ TopsAlong f top path (t.sup f) := by
  induction path generalizing t with
  | nil => simp [fill, TopsAlong]
  | cons hop rest ih =>
    rw [fill, ih, tops_join, sup_join, TopsAlong]
    tauto

theorem Tops.congr (h : t.Tops f top) (same : ∀ a ∈ t.nodes, top' a = top a) : t.Tops f top' := by
  induction t with
  | nil => trivial
  | node c l a r ihl ihr =>
    exact ⟨(same a (by simp [nodes])).trans h.1, ihl h.2.1 fun b hb => same b (by simp [nodes, hb]),
      ihr h.2.2 fun b hb => same b (by simp [nodes, hb])⟩

theorem sup_congr (same : ∀ a ∈ t.nodes, f' a = f a) : t.sup f' = t.sup f := by
  induction t with
  | nil => rfl
  | node c l a r ihl ihr =>
    rw [sup, sup, same a (by simp [nodes]), ihl fun b hb => same b (by simp [nodes, hb]),
      ihr fun b hb => same b (by simp [nodes, hb])]

theorem Tops.revalue (h : t.Tops f top) (same : ∀ a ∈ t.nodes, f' a = f a) : t.Tops f' top := by
  induction t with
  | nil => trivial
  | node c l a r ihl ihr =>
    exact ⟨h.1.trans (sup_congr same).symm, ihl h.2.1 fun b hb => same b (by simp [nodes, hb]),
      ihr h.2.2 fun b hb => same b (by simp [nodes, hb])⟩

theorem TopsAlong.congr (h : TopsAlong f top path v) (same : ∀ a ∈ along path, top' a = top a) :
    TopsAlong f top' path v := by
  induction path generalizing v with
  | nil => trivial
  | cons hop rest ih =>
    exact ⟨(same _ (by simp [along])).trans h.1, h.2.1.congr fun b hb => same b (by simp [along, hb]),
      ih h.2.2 fun b hb => same b (by simp [along, hb])⟩

theorem Tops.root (h : t.Tops f top) : (t.root.elim ⊥ top) = t.sup f := by
  cases t with
  | nil => rfl
  | node c l a r => exact h.1

/-- After a rotation `top` is wrong only at the two nodes that turned. -/
theorem Tops.rotate {d : ChildSide} {A B C : ColorTree α} {x y : α}
    (h : (fill path (join d c A x (join d c' B y C))).Tops f top)
    (nodup : (fill path (join d c A x (join d c' B y C))).nodes.Nodup)
    (atX : top' x = (join d c A x B).sup f) (atY : top' y = (join d c' (join d c A x B) y C).sup f)
    (others : ∀ a, a ≠ x → a ≠ y → top' a = top a) :
    (fill path (join d c' (join d c A x B) y C)).Tops f top' := by
  have distinct := (nodes_focus_pair path d c c' A B C x y).nodup_iff.mp nodup
  simp only [nodup_cons, mem_cons, mem_append, nodup_append, not_or] at distinct
  obtain ⟨⟨-, xA, xB, xC, xp⟩, ⟨yA, yB, yC, yp⟩, -⟩ := distinct
  have away : ∀ {l : List α}, x ∉ l → y ∉ l → ∀ a ∈ l, top' a = top a := fun xl yl a ha =>
    others a (fun eq => xl (eq ▸ ha)) fun eq => yl (eq ▸ ha)
  obtain ⟨topsXY, topsP⟩ := tops_fill.mp h
  obtain ⟨-, topsA, topsY⟩ := tops_join.mp topsXY
  obtain ⟨-, topsB, topsC⟩ := tops_join.mp topsY
  have sups : (join d c' (join d c A x B) y C).sup f = (join d c A x (join d c' B y C)).sup f := by
    simp only [sup_join]
    ac_rfl
  refine tops_fill.mpr ⟨tops_join.mpr ⟨?_, tops_join.mpr ⟨?_, ?_, ?_⟩, ?_⟩, ?_⟩
  · rw [atY, sup_join]
  · rw [atX, sup_join]
  · exact topsA.congr (away xA yA)
  · exact topsB.congr (away xB yB)
  · exact topsC.congr (away xC yC)
  · rw [sups]
    exact topsP.congr (away xp yp)

end

end ColorTree

end BharatOS
