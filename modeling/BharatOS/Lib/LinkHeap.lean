import Mathlib.Logic.Relation
import Mathlib.Data.List.Nodup
import Mathlib.Order.WellFounded

/-!
# Forests kept as first-child and next-sibling links

A link of a node is null, names a node, or dangles. Below every node of a `Forested` heap there is
exactly one finite forest (`Forested.rep`).
-/

namespace BharatOS

open Option List

/-- A forest: the first tree's root, that root's children, and the other trees. -/
inductive Forest (α : Type) where
  | nil
  | cons (a : α) (kids rest : Forest α)

namespace Forest

variable {α : Type}

def nodes : Forest α → List α
  | nil => []
  | cons a kids rest => a :: (kids.nodes ++ rest.nodes)

def roots : Forest α → List α
  | nil => []
  | cons a _ rest => a :: rest.roots

/-- The nodes with each one after its children. -/
def postorder : Forest α → List α
  | nil => []
  | cons a kids rest => kids.postorder ++ a :: rest.postorder

theorem mem_postorder {F : Forest α} {x : α} : x ∈ F.postorder ↔ x ∈ F.nodes := by
  induction F with
  | nil => simp [postorder, nodes]
  | cons a kids rest ihKids ihRest =>
    simp only [postorder, nodes, mem_append, mem_cons, ihKids, ihRest]
    tauto

end Forest

structure LinkHeap (α ℓ : Type) where
  isNull : ℓ → Bool
  target : ℓ → Option α
  parent : α → ℓ
  first : α → ℓ
  next : α → ℓ
  target_null : ∀ l, isNull l = true → target l = none

namespace LinkHeap

variable {α ℓ : Type}

section
variable (H : LinkHeap α ℓ)

def parentOf (c : α) : Option α := H.target (H.parent c)

def ChildOf (c p : α) : Prop := H.parentOf c = some p

/-- A proper descendant, following parent links. -/
def Descends : α → α → Prop := Relation.TransGen H.ChildOf

inductive Chain : ℓ → List α → Prop
  | nil {l : ℓ} (null : H.isNull l = true) : Chain l []
  | cons {l : ℓ} {a : α} {xs : List α} (head : H.target l = some a)
      (tail : Chain (H.next a) xs) : Chain l (a :: xs)

inductive Rep : α → ℓ → Forest α → Prop
  | nil {p : α} {l : ℓ} (null : H.isNull l = true) : Rep p l .nil
  | cons {p a : α} {l : ℓ} {kids rest : Forest α} (head : H.target l = some a)
      (child : H.parentOf a = some p) (below : Rep a (H.first a) kids)
      (beside : Rep p (H.next a) rest) : Rep p l (.cons a kids rest)

/-- Ranks grow from parent to child and stay below a bound. -/
def Ranked : Prop :=
  ∃ (rank : α → Nat) (bound : Nat), ∀ c p, H.parentOf c = some p →
    rank p < rank c ∧ rank c < bound

/-- Every child list is complete apart from the detached nodes `D`. -/
structure Forested (D : α → Prop) : Prop where
  children : ∀ n, ∃ xs, H.Chain (H.first n) xs ∧
    ∀ c, c ∈ xs ↔ H.parentOf c = some n ∧ ¬ D c
  ranked : H.Ranked

end

variable {H H' : LinkHeap α ℓ} {D : α → Prop} {l : ℓ} {a p n c r : α} {xs ys : List α}
  {F : Forest α}

theorem not_null_of_target (h : H.target l = some a) : H.isNull l = false := by
  cases hn : H.isNull l
  · rfl
  · rw [H.target_null l hn] at h; cases h

/-! ## Chains -/

theorem Chain.unique (hx : H.Chain l xs) (hy : H.Chain l ys) : xs = ys := by
  induction hx generalizing ys with
  | nil null =>
    cases hy with
    | nil => rfl
    | cons head => rw [H.target_null _ null] at head; cases head
  | cons head _ ih =>
    cases hy with
    | nil null => rw [H.target_null _ null] at head; cases head
    | cons head' tail' =>
      obtain rfl : _ = _ := some.inj (head.symm.trans head')
      rw [ih tail']

theorem Chain.after (h : H.Chain l (xs ++ a :: ys)) : H.Chain (H.next a) ys := by
  induction xs generalizing l with
  | nil => cases h with | cons _ tail => exact tail
  | cons x xs ih => cases h with | cons _ tail => exact ih tail

theorem Chain.nodup (h : H.Chain l xs) : xs.Nodup := by
  induction h with
  | nil => exact nodup_nil
  | @cons l a xs head tail ih =>
    refine nodup_cons.mpr ⟨?_, ih⟩
    intro mem
    obtain ⟨us, vs, rfl⟩ := append_of_mem mem
    have same := tail.unique tail.after
    have := congrArg length same
    simp at this
    omega

theorem Chain.congr (h : H.Chain l xs) (hnull : ∀ l, H.isNull l = true → H'.isNull l = true)
    (htarget : ∀ l a, a ∈ xs → H.target l = some a → H'.target l = some a)
    (hnext : ∀ a ∈ xs, H'.next a = H.next a) : H'.Chain l xs := by
  induction h with
  | nil null => exact .nil (hnull _ null)
  | cons head _ ih =>
    refine .cons (htarget _ _ mem_cons_self head) ?_
    rw [hnext _ mem_cons_self]
    exact ih (fun l a ha => htarget l a (mem_cons_of_mem _ ha))
      (fun a ha => hnext a (mem_cons_of_mem _ ha))

theorem roots_sub_nodes {F : Forest α} : ∀ c ∈ F.roots, c ∈ F.nodes := by
  induction F with
  | nil => simp [Forest.roots]
  | cons a kids rest _ ih =>
    intro c hc
    rcases mem_cons.mp hc with rfl | hc
    · exact mem_cons_self
    · simp [Forest.nodes, ih c hc]

section

variable (h : H.Rep p l F)

include h

/-! ## Represented forests -/

theorem Rep.chain : H.Chain l F.roots := by
  induction h with
  | nil null => exact .nil null
  | cons head _ _ _ _ ih => exact .cons head ih

theorem Rep.eq_nil (null : H.isNull l = true) : F = .nil := by
  cases h with
  | nil => rfl
  | cons head => rw [H.target_null l null] at head; cases head

theorem Rep.root_child : ∀ c ∈ F.roots, H.parentOf c = some p := by
  induction h with
  | nil => simp [Forest.roots]
  | cons _ child _ _ _ ih =>
    intro c hc
    rcases mem_cons.mp hc with rfl | hc
    · exact child
    · exact ih c hc

/-- Every node of a represented forest hangs below one of its roots. -/
theorem Rep.under_root : ∀ c ∈ F.nodes, ∃ b ∈ F.roots, Relation.ReflTransGen H.ChildOf c b := by
  induction h with
  | nil => simp [Forest.nodes]
  | @cons p a l kids rest head child below beside ihKids ihRest =>
    intro c hc
    simp only [Forest.nodes, mem_cons, mem_append] at hc
    rcases hc with rfl | hc | hc
    · exact ⟨c, by simp [Forest.roots], .refl⟩
    · obtain ⟨b, hb, path⟩ := ihKids c hc
      exact ⟨a, by simp [Forest.roots], path.tail (below.root_child b hb)⟩
    · obtain ⟨b, hb, path⟩ := ihRest c hc
      exact ⟨b, by simp [Forest.roots, hb], path⟩

theorem Rep.descends : ∀ c ∈ F.nodes, H.Descends c p := by
  intro c hc
  obtain ⟨b, hb, path⟩ := h.under_root c hc
  exact Relation.TransGen.tail' path (h.root_child b hb)

/-- Below a node of a represented forest hangs a represented forest again. -/
theorem Rep.subforest : ∀ c ∈ F.nodes, ∃ G, H.Rep c (H.first c) G ∧ ∀ x ∈ G.nodes, x ∈ F.nodes := by
  induction h with
  | nil => simp [Forest.nodes]
  | @cons p a l kids rest head child below beside ihKids ihRest =>
    intro c hc
    simp only [Forest.nodes, mem_cons, mem_append] at hc
    rcases hc with rfl | hc | hc
    · exact ⟨kids, below, fun x hx => by simp [Forest.nodes, hx]⟩
    · obtain ⟨G, rep, sub⟩ := ihKids c hc
      exact ⟨G, rep, fun x hx => by simp [Forest.nodes, sub x hx]⟩
    · obtain ⟨G, rep, sub⟩ := ihRest c hc
      exact ⟨G, rep, fun x hx => by simp [Forest.nodes, sub x hx]⟩

theorem Rep.congr (hnull : ∀ l, H.isNull l = true → H'.isNull l = true)
    (htarget : ∀ l a, a = p ∨ a ∈ F.nodes → H.target l = some a → H'.target l = some a)
    (hlinks : ∀ a ∈ F.nodes, H'.parent a = H.parent a ∧ H'.first a = H.first a ∧
      H'.next a = H.next a) : H'.Rep p l F := by
  induction h with
  | nil null => exact .nil (hnull _ null)
  | @cons p a l kids rest head child below beside ihKids ihRest =>
    have ha : a ∈ (Forest.cons a kids rest).nodes := by simp [Forest.nodes]
    obtain ⟨hp, hf, hn⟩ := hlinks a ha
    have hkids : ∀ x ∈ kids.nodes, x ∈ (Forest.cons a kids rest).nodes :=
      fun x hx => by simp [Forest.nodes, hx]
    have hrest : ∀ x ∈ rest.nodes, x ∈ (Forest.cons a kids rest).nodes :=
      fun x hx => by simp [Forest.nodes, hx]
    refine .cons (htarget l a (.inr ha) head) ?_ ?_ ?_
    · rw [parentOf, hp]
      exact htarget _ p (.inl rfl) child
    · rw [hf]
      refine ihKids (fun l x hx => htarget l x (.inr ?_)) (fun x hx => hlinks x (hkids x hx))
      rcases hx with rfl | hx
      · exact ha
      · exact hkids x hx
    · rw [hn]
      refine ihRest (fun l x hx => htarget l x ?_) (fun x hx => hlinks x (hrest x hx))
      rcases hx with rfl | hx
      · exact .inl rfl
      · exact .inr (hrest x hx)

end

/-! ## Ancestors -/

theorem childOf_rightUnique : Relator.RightUnique H.ChildOf := by
  intro c p q hp hq
  exact some.inj (hp.symm.trans hq)

theorem Ranked.mono (h : H.Ranked) (sub : ∀ c p, H'.parentOf c = some p → H.parentOf c = some p) :
    H'.Ranked := by
  obtain ⟨rank, bound, grows⟩ := h
  exact ⟨rank, bound, fun c p e => grows c p (sub c p e)⟩

theorem Ranked.irrefl (h : H.Ranked) (c : α) : ¬ H.Descends c c := by
  obtain ⟨rank, bound, grows⟩ := h
  have down : ∀ x y, H.Descends x y → rank y < rank x := by
    intro x y path
    induction path with
    | single step => exact (grows _ _ step).1
    | tail _ step ih => exact Nat.lt_trans (grows _ _ step).1 ih
  exact fun path => Nat.lt_irrefl _ (down c c path)

/-- Two siblings are never ancestors of one node. -/
theorem Ranked.sibling_unique (h : H.Ranked) {x b : α} (ha : Relation.ReflTransGen H.ChildOf x a)
    (hb : Relation.ReflTransGen H.ChildOf x b) (pa : H.parentOf a = some p)
    (pb : H.parentOf b = some p) : a = b := by
  have climb : ∀ {a b : α}, Relation.ReflTransGen H.ChildOf a b → H.parentOf a = some p →
      H.parentOf b = some p → a = b := by
    intro a b path pa pb
    rcases Relation.ReflTransGen.cases_head path with same | ⟨q, step, later⟩
    · exact same
    obtain rfl : q = p := some.inj (step.symm.trans pa)
    exact absurd (Relation.TransGen.tail' later pb) (h.irrefl q)
  rcases Relation.ReflTransGen.total_of_right_unique childOf_rightUnique ha hb with path | path
  · exact climb path pa pb
  · exact (climb path pb pa).symm

theorem Rep.nodup (ranked : H.Ranked) (h : H.Rep p l F) : F.nodes.Nodup := by
  induction h with
  | nil => exact nodup_nil
  | @cons p a l kids rest head child below beside ihKids ihRest =>
    have chain : H.Chain l (a :: rest.roots) := .cons head beside.chain
    have fresh : a ∉ rest.roots := (nodup_cons.mp chain.nodup).1
    -- a node below `a` that also hangs below a later sibling would make the two equal
    have apart : ∀ x, Relation.ReflTransGen H.ChildOf x a → x ∉ rest.nodes := by
      intro x path mem
      obtain ⟨b, hb, path'⟩ := beside.under_root x mem
      have same := ranked.sibling_unique path path' child (beside.root_child b hb)
      exact fresh (same ▸ hb)
    have self : a ∉ kids.nodes := fun mem => ranked.irrefl a (below.descends a mem)
    simp only [Forest.nodes, nodup_cons, mem_append, not_or]
    refine ⟨⟨self, apart a .refl⟩, ?_⟩
    refine List.Nodup.append ihKids ihRest ?_
    intro x hx hx'
    exact apart x (below.descends x hx).to_reflTransGen hx'

theorem Rep.not_mem (ranked : H.Ranked) (h : H.Rep p l F) : p ∉ F.nodes :=
  fun mem => ranked.irrefl p (h.descends p mem)

/-! ## Well-formed forests -/

theorem Chain.rep (h : H.Chain l xs) (child : ∀ c ∈ xs, H.parentOf c = some n)
    (below : ∀ c ∈ xs, ∃ F, H.Rep c (H.first c) F) : ∃ F, H.Rep n l F := by
  induction h with
  | nil null => exact ⟨.nil, .nil null⟩
  | @cons l a xs head tail ih =>
    obtain ⟨kids, hk⟩ := below a mem_cons_self
    obtain ⟨rest, hr⟩ := ih (fun c hc => child c (mem_cons_of_mem a hc))
      (fun c hc => below c (mem_cons_of_mem a hc))
    exact ⟨.cons a kids rest, .cons head (child a mem_cons_self) hk hr⟩

section

variable (h : H.Forested D)

include h

theorem Forested.exists_rep (n : α) : ∃ F, H.Rep n (H.first n) F := by
  obtain ⟨rank, bound, grows⟩ := h.ranked
  -- the induction runs down the forest: ranks grow towards the bound
  induction hd : bound - rank n using Nat.strongRecOn generalizing n with
  | ind d ih =>
    obtain ⟨xs, chain, complete⟩ := h.children n
    refine chain.rep (fun c hc => ((complete c).mp hc).1) (fun c hc => ?_)
    have step := grows c n ((complete c).mp hc).1
    exact ih (bound - rank c) (by omega) c rfl

theorem Forested.mem_nodes (rep : H.Rep n (H.first n) F)
    (kept : ∀ x, H.Descends x n → ¬ D x) (path : H.Descends c n) : c ∈ F.nodes := by
  have child : ∀ {m x : α} {G : Forest α}, H.Rep m (H.first m) G → H.parentOf x = some m →
      ¬ D x → x ∈ G.nodes := by
    intro m x G rep step keep
    obtain ⟨xs, chain, complete⟩ := h.children m
    have mem := (complete x).mpr ⟨step, keep⟩
    rw [chain.unique rep.chain] at mem
    exact roots_sub_nodes x mem
  induction path using Relation.TransGen.head_induction_on with
  | single step => exact child rep step (kept _ (.single step))
  | head step later ih =>
    obtain ⟨G, repG, sub⟩ := rep.subforest _ ih
    exact sub _ (child repG step (kept _ (.head step later)))

/-- The forest below a node: its nodes are the descendants, each once. -/
theorem Forested.rep (n : α) (kept : ∀ x, H.Descends x n → ¬ D x) :
    ∃ F, H.Rep n (H.first n) F ∧ ∀ c, c ∈ F.nodes ↔ H.Descends c n := by
  obtain ⟨F, rep⟩ := h.exists_rep n
  exact ⟨F, rep, fun c => ⟨rep.descends c, h.mem_nodes rep kept⟩⟩

theorem Rep.kept (rep : H.Rep p l F) (tops : ∀ c ∈ F.roots, ¬ D c) : ∀ c ∈ F.nodes, ¬ D c := by
  induction rep with
  | nil => simp [Forest.nodes]
  | @cons p a l kids rest head child below beside ihKids ihRest =>
    intro c hc
    simp only [Forest.nodes, mem_cons, mem_append] at hc
    rcases hc with rfl | hc | hc
    · exact tops c (by simp [Forest.roots])
    · refine ihKids (fun x hx => ?_) c hc
      obtain ⟨xs, chain, complete⟩ := h.children a
      rw [chain.unique below.chain] at complete
      exact ((complete x).mp hx).2
    · exact ihRest (fun x hx => tops x (by simp [Forest.roots, hx])) c hc

/-- Every link that the sibling list of a child passes on starts a forest. -/
theorem Forested.rep_next (child : H.parentOf c = some p) (keep : ¬ D c) :
    ∃ F, H.Rep p (H.next c) F ∧ ∀ x ∈ F.nodes, ¬ D x := by
  obtain ⟨xs, chain, complete⟩ := h.children p
  obtain ⟨us, vs, rfl⟩ := append_of_mem ((complete c).mpr ⟨child, keep⟩)
  have sub : ∀ x ∈ vs, H.parentOf x = some p ∧ ¬ D x := fun x hx => (complete x).mp (by simp [hx])
  obtain ⟨F, rep⟩ := chain.after.rep (fun x hx => (sub x hx).1) (fun x _ => h.exists_rep x)
  have roots := chain.after.unique rep.chain
  exact ⟨F, rep, rep.kept h (fun x hx => (sub x (roots ▸ hx)).2)⟩

end

/-! ## The four changes -/

/-- `H'` is `H` with one new node `c`, which no old link names. -/
structure Adds (H H' : LinkHeap α ℓ) (c : α) : Prop where
  null : ∀ l, H'.isNull l = H.isNull l
  target : ∀ l a, a ≠ c → (H'.target l = some a ↔ H.target l = some a)
  absent : ∀ l, H.target l ≠ some c
  unborn : H.parentOf c = none
  stale : ∀ n, n ≠ c → H'.parentOf n ≠ some c
  parent : ∀ n, n ≠ c → H'.parent n = H.parent n
  next : ∀ n, n ≠ c → H'.next n = H.next n
  leaf : H'.isNull (H'.first c) = true

theorem Adds.parentOf_iff (h : Adds H H' c) {m : α} (hn : n ≠ c) :
    H'.parentOf n = some m ↔ H.parentOf n = some m := by
  by_cases hm : m = c
  · subst hm
    exact ⟨fun e => absurd e (h.stale n hn), fun e => absurd e (h.absent _)⟩
  · rw [LinkHeap.parentOf, h.parent n hn, h.target _ m hm, LinkHeap.parentOf]

theorem Adds.chain (h : Adds H H' c) (chain : H.Chain l xs) : H'.Chain l xs ∧ c ∉ xs := by
  induction chain with
  | nil null => exact ⟨.nil ((h.null _).trans null), by simp⟩
  | @cons l a xs head _ ih =>
    have ne : a ≠ c := fun e => h.absent l (e ▸ head)
    refine ⟨.cons ((h.target l a ne).mpr head) ?_, ?_⟩
    · rw [h.next a ne]; exact ih.1
    · simp only [mem_cons, not_or]
      exact ⟨Ne.symm ne, ih.2⟩

theorem Forested.addRoot (h : H.Forested D) (adds : Adds H H' c) (root : H'.parentOf c = none)
    (first : ∀ n, n ≠ c → H'.first n = H.first n) : H'.Forested D := by
  have same : ∀ x m, H'.parentOf x = some m ↔ H.parentOf x = some m := by
    intro x m
    by_cases hx : x = c
    · subst hx; simp [root, adds.unborn]
    · exact adds.parentOf_iff hx
  refine ⟨fun n => ?_, h.ranked.mono fun x m => (same x m).mp⟩
  by_cases hn : n = c
  · subst hn
    refine ⟨[], .nil adds.leaf, fun x => ?_⟩
    simp only [not_mem_nil, same, false_iff, not_and]
    exact fun e => absurd e (adds.absent _)
  · obtain ⟨xs, chain, complete⟩ := h.children n
    refine ⟨xs, ?_, fun x => by rw [complete, same]⟩
    rw [first n hn]
    exact (adds.chain chain).1

theorem Forested.addChild (h : H.Forested D) (adds : Adds H H' c) (apart : p ≠ c)
    (child : H'.parentOf c = some p) (head : H'.target (H'.first p) = some c)
    (tail : H'.next c = H.first p) (free : ¬ D c)
    (first : ∀ n, n ≠ c → n ≠ p → H'.first n = H.first n) : H'.Forested D := by
  classical
  refine ⟨fun n => ?_, ?_⟩
  · by_cases hn : n = c
    · subst hn
      refine ⟨[], .nil adds.leaf, fun x => ?_⟩
      simp only [not_mem_nil, false_iff, not_and]
      intro e
      by_cases hx : x = n
      · subst hx; rw [child] at e; exact absurd (some.inj e) apart
      · exact absurd e (adds.stale x hx)
    obtain ⟨xs, chain, complete⟩ := h.children n
    obtain ⟨chain', fresh⟩ := adds.chain chain
    by_cases hp : n = p
    · subst hp
      refine ⟨c :: xs, .cons head (tail ▸ chain'), fun x => ?_⟩
      rw [mem_cons]
      by_cases hx : x = c
      · subst hx; simp [child, free]
      · rw [adds.parentOf_iff hx, complete]; simp [hx]
    · refine ⟨xs, by rw [first n hn hp]; exact chain', fun x => ?_⟩
      by_cases hx : x = c
      · subst hx
        simp only [fresh, child, some.injEq, false_iff, not_and]
        exact fun e => absurd e.symm hp
      · rw [adds.parentOf_iff hx, complete]
  · obtain ⟨rank, bound, grows⟩ := h.ranked
    -- the new node gets the rank after its parent's; nothing hangs below it yet
    refine ⟨fun x => if x = c then rank p + 1 else rank x, max bound (rank p + 2), fun x m e => ?_⟩
    by_cases hx : x = c
    · subst hx
      rw [child] at e
      cases e
      simp only [apart, ↓reduceIte]
      omega
    · have hm : m ≠ c := fun em => adds.stale x hx (em ▸ e)
      have := grows x m ((adds.parentOf_iff hx).mp e)
      simp only [hx, hm, ↓reduceIte]
      omega

theorem Forested.detach (h : H.Forested fun _ => False) (root : H.parentOf r = none) :
    H.Forested (· = r) := by
  refine ⟨fun n => ?_, h.ranked⟩
  obtain ⟨xs, chain, complete⟩ := h.children n
  refine ⟨xs, chain, fun x => ?_⟩
  rw [complete]
  refine and_congr_right fun e => iff_of_true id fun ex => ?_
  rw [ex, root] at e
  cases e

/-- The chain with one node taken out: its predecessor, or the parent when it
comes first, gets the link that the node passed on. -/
theorem Chain.takeOut {l' : ℓ} (h : H.Chain l (xs ++ r :: ys))
    (null : ∀ l, H'.isNull l = H.isNull l) (target : ∀ l, H'.target l = H.target l)
    (start : xs = [] → l' = H.next r) (start' : xs ≠ [] → l' = l)
    (next : ∀ n, n ∈ xs ++ ys → xs.getLast? ≠ some n → H'.next n = H.next n)
    (jump : ∀ q, xs.getLast? = some q → H'.next q = H.next r) : H'.Chain l' (xs ++ ys) := by
  have nodup := h.nodup
  have last : H'.Chain (H.next r) ys := by
    refine h.after.congr (fun l hl => (null l).trans hl) (fun l a _ e => (target l).trans e)
      (fun a ha => next a (by simp [ha]) ?_)
    intro e
    have hx := mem_of_getLast? e
    have := nodup_append.mp nodup
    exact this.2.2 a hx a (by simp [ha]) rfl
  induction xs generalizing l l' with
  | nil => rw [start rfl]; exact last
  | cons x xs ih =>
    rw [start' (by simp)]
    cases h with
    | cons head tail =>
      refine .cons ((target l).trans head) ?_
      obtain ⟨fresh, nodup⟩ := nodup_cons.mp nodup
      cases xs with
      | nil =>
        rw [jump x rfl]
        exact last
      | cons y zs =>
        have hx : (y :: zs).getLast? ≠ some x := fun e =>
          fresh (mem_append_left _ (mem_of_getLast? e))
        rw [next x mem_cons_self hx]
        exact ih tail nofun (fun _ => rfl) (fun n hn => next n (mem_cons_of_mem x hn)) jump nodup

theorem Forested.unlink (h : H.Forested fun _ => False)
    (chain : H.Chain (H.first p) (xs ++ r :: ys)) (child : H.parentOf r = some p)
    (null : ∀ l, H'.isNull l = H.isNull l) (target : ∀ l, H'.target l = H.target l)
    (parent : ∀ n, H'.parent n = H.parent n) (first : ∀ n, n ≠ p → H'.first n = H.first n)
    (start : xs = [] → H'.first p = H.next r) (start' : xs ≠ [] → H'.first p = H.first p)
    (next : ∀ n, xs.getLast? ≠ some n → H'.next n = H.next n)
    (jump : ∀ q, xs.getLast? = some q → H'.next q = H.next r) : H'.Forested (· = r) := by
  have same : ∀ x, H'.parentOf x = H.parentOf x := fun x => by
    rw [parentOf, parentOf, target, parent]
  obtain ⟨_, here, inP⟩ := h.children p
  obtain rfl := here.unique chain
  refine ⟨fun n => ?_, h.ranked.mono fun x m e => (same x).symm.trans e⟩
  by_cases hn : n = p
  · subst hn
    refine ⟨xs ++ ys, chain.takeOut null target start start'
      (fun m _ hm => next m hm) jump, fun x => ?_⟩
    rw [same]
    by_cases hx : x = r
    · subst hx
      simp [(nodup_middle.mp chain.nodup).notMem]
    · simpa [hx] using inP x
  obtain ⟨zs, hz, complete⟩ := h.children n
  refine ⟨zs, ?_, fun x => ?_⟩
  · rw [first n hn]
    refine hz.congr (fun l hl => (null l).trans hl) (fun l a _ e => (target l).trans e)
      (fun a ha => next a fun e => hn ?_)
    have above := ((inP a).mp (by simp [mem_of_getLast? e])).1
    exact some.inj (((complete a).mp ha).1.symm.trans above)
  · rw [complete, same]
    refine and_congr_right fun e => iff_of_true id fun ex => hn ?_
    rw [ex, child] at e
    exact (some.inj e).symm

/-- Taking out a set of nodes that holds every detached node and, with each
other node, its parent. -/
theorem Forested.erase (h : H.Forested D) (S : α → Prop) (detached : ∀ c, D c → S c)
    (closed : ∀ c p, S c → ¬ D c → H.parentOf c = some p → S p)
    (null : ∀ l, H.isNull l = true → H'.isNull l = true)
    (target : ∀ l a, H'.target l = some a ↔ H.target l = some a ∧ ¬ S a)
    (gone : ∀ n, S n → H'.isNull (H'.first n) = true ∧ H'.isNull (H'.parent n) = true)
    (links : ∀ n, ¬ S n → H'.parent n = H.parent n ∧ H'.first n = H.first n ∧
      H'.next n = H.next n) : H'.Forested fun _ => False := by
  have up : ∀ c n, H'.parentOf c = some n ↔ H.parentOf c = some n ∧ ¬ S c ∧ ¬ S n := by
    intro c n
    by_cases hc : S c
    · simp only [hc, not_true_eq_false, false_and, and_false, iff_false]
      rw [parentOf, H'.target_null _ (gone c hc).2]
      exact fun e => by cases e
    · rw [parentOf, (links c hc).1, target, parentOf]
      simp [hc]
  refine ⟨fun n => ?_, h.ranked.mono fun c p e => ((up c p).mp e).1⟩
  by_cases hn : S n
  · refine ⟨[], .nil (gone n hn).1, fun c => ?_⟩
    simp [up, hn]
  obtain ⟨xs, chain, complete⟩ := h.children n
  have outside : ∀ c ∈ xs, ¬ S c := fun c hc hs =>
    hn (closed c n hs ((complete c).mp hc).2 ((complete c).mp hc).1)
  refine ⟨xs, ?_, fun c => ?_⟩
  · rw [(links n hn).2.1]
    exact chain.congr null (fun l a ha e => (target l a).mpr ⟨e, outside a ha⟩)
      (fun a ha => (links a (outside a ha)).2.2)
  · rw [complete, up]
    constructor
    · rintro ⟨e, hd⟩
      exact ⟨⟨e, outside c ((complete c).mpr ⟨e, hd⟩), hn⟩, id⟩
    · rintro ⟨⟨e, hc, -⟩, -⟩
      exact ⟨e, fun hd => hc (detached c hd)⟩

end LinkHeap

end BharatOS
