import BharatOS.Lib.ColorTree

/-!
# Red-black trees kept as links

The memory of the links is one map for each field. `Rep m up t`: below the pointer to its root
`m` has the tree `t`, and the parent of its root is `up`. `rep_fill` looks at a represented tree
at one of its subtrees; what is above is `RepPath`.
-/

namespace BharatOS

open List

open ColorTree

structure TreeLinks (α : Type) where
  kid : ChildSide → α → Option α
  parent : α → Option α
  color : α → Color

namespace TreeLinks

variable {α β : Type} {m m' : TreeLinks α} {up up' hole hole' : Option α} {t : ColorTree α}
  {path : List (Hop α)}

def Rep (m : TreeLinks α) : Option α → ColorTree α → Prop
  | _, .nil => True
  | up, .node c l a r => m.color a = c ∧ m.parent a = up ∧ m.kid .left a = l.root ∧
      m.kid .right a = r.root ∧ m.Rep (some a) l ∧ m.Rep (some a) r

def RepPath (m : TreeLinks α) : List (Hop α) → Option α → Prop
  | [], _ => True
  | hop :: rest, hole => m.color hop.node = hop.color ∧ m.parent hop.node = above rest ∧
      m.kid hop.side hop.node = hole ∧ m.kid hop.side.other hop.node = hop.sibling.root ∧
      m.Rep (some hop.node) hop.sibling ∧ m.RepPath rest (some hop.node)

variable {d : ChildSide} {s u : ColorTree α} {a : α} {c c' : Color} {y : α}

theorem rep_join :
    m.Rep up (join d c s a u) ↔ m.color a = c ∧ m.parent a = up ∧ m.kid d a = s.root ∧
      m.kid d.other a = u.root ∧ m.Rep (some a) s ∧ m.Rep (some a) u := by
  cases d with
  | left => rfl
  | right =>
    simp only [join, Rep, ChildSide.other]
    tauto

theorem rep_fill : m.Rep none (fill path t) ↔ m.Rep (above path) t ∧ m.RepPath path t.root := by
  suffices all : ∀ path' : List (Hop α), m.Rep (above path') (fill path t) ∧
      m.RepPath path' (fill path t).root ↔
      m.Rep (above (path ++ path')) t ∧ m.RepPath (path ++ path') t.root by
    have h := all []
    simpa [above, RepPath] using h
  induction path generalizing t with
  | nil => exact fun _ => .rfl
  | cons hop rest ih =>
    intro path'
    rw [fill, ih path', rep_join]
    simp only [cons_append, RepPath, root_join, above, head?_cons, Option.map_some]
    tauto

theorem Rep.parent_root (h : m.Rep up t) (root : t.root = some a) : m.parent a = up := by
  cases t with
  | nil => cases root
  | node c l b r =>
    cases root
    exact h.2.1

/-- The links of `a` are the same in `m'` as in `m`. -/
def SameAt (m m' : TreeLinks α) (a : α) : Prop :=
  (∀ d, m'.kid d a = m.kid d a) ∧ m'.parent a = m.parent a ∧ m'.color a = m.color a

theorem Rep.congr (h : m.Rep up t) (same : ∀ a ∈ t.nodes, SameAt m m' a) : m'.Rep up t := by
  induction t generalizing up with
  | nil => trivial
  | node c l a r ihl ihr =>
    obtain ⟨color, parent, left, right, hl, hr⟩ := h
    obtain ⟨kids, parent', color'⟩ := same a (by simp [nodes])
    refine ⟨color'.trans color, parent'.trans parent, (kids _).trans left, (kids _).trans right,
      ihl hl fun b hb => same b (by simp [nodes, hb]), ihr hr fun b hb => same b (by simp [nodes, hb])⟩

/-- The root gets another parent. -/
theorem Rep.reparent (h : m.Rep up t) (nodup : t.nodes.Nodup)
    (kids : ∀ a ∈ t.nodes, (∀ d, m'.kid d a = m.kid d a) ∧ m'.color a = m.color a)
    (root : ∀ a, t.root = some a → m'.parent a = up')
    (parents : ∀ a ∈ t.nodes, t.root ≠ some a → m'.parent a = m.parent a) : m'.Rep up' t := by
  cases t with
  | nil => trivial
  | node c l a r =>
    obtain ⟨color, -, left, right, hl, hr⟩ := h
    obtain ⟨same, color'⟩ := kids a (by simp [nodes])
    simp only [nodes, nodup_append, nodup_cons, mem_cons, ne_eq] at nodup
    refine ⟨color'.trans color, root a rfl, (same _).trans left, (same _).trans right,
      hl.congr fun b hb => ?_, hr.congr fun b hb => ?_⟩
    · have member : b ∈ (node c l a r).nodes := by simp [nodes, hb]
      exact ⟨(kids b member).1, parents b member fun eq =>
        nodup.2.2 b hb a (.inl rfl) (Option.some.inj eq).symm, (kids b member).2⟩
    · have member : b ∈ (node c l a r).nodes := by simp [nodes, hb]
      exact ⟨(kids b member).1, parents b member fun eq =>
        nodup.2.1.1 (Option.some.inj eq ▸ hb), (kids b member).2⟩

/-- The link that leads to the hole. -/
def slot (path : List (Hop α)) : Option (ChildSide × α) := path.head?.map fun hop => (hop.side, hop.node)

theorem slot_mem (h : slot path = some (d, a)) : a ∈ along path := by
  cases path with
  | nil => cases h
  | cons hop rest =>
    cases h
    simp [along]

section

variable (h : m.RepPath path hole)

include h

theorem RepPath.congr (same : ∀ a ∈ along path, SameAt m m' a) : m'.RepPath path hole := by
  induction path generalizing hole with
  | nil => trivial
  | cons hop rest ih =>
    obtain ⟨color, parent, kid, far, sibling, later⟩ := h
    obtain ⟨kids, parent', color'⟩ := same hop.node (by simp [along])
    exact ⟨color'.trans color, parent'.trans parent, (kids _).trans kid, (kids _).trans far,
      sibling.congr fun b hb => same b (by simp [along, hb]),
      ih later fun b hb => same b (by simp [along, hb])⟩

theorem RepPath.kid_slot (there : slot path = some (d, a)) : m.kid d a = hole := by
  cases path with
  | nil => cases there
  | cons hop rest =>
    cases there
    exact h.2.2.1

/-- The hole gets another root. -/
theorem RepPath.refill (nodup : (along path).Nodup)
    (kept : ∀ a ∈ along path, m'.parent a = m.parent a ∧ m'.color a = m.color a)
    (filled : ∀ d a, slot path = some (d, a) → m'.kid d a = hole')
    (kids : ∀ a ∈ along path, ∀ d, slot path ≠ some (d, a) → m'.kid d a = m.kid d a) :
    m'.RepPath path hole' := by
  cases path with
  | nil => trivial
  | cons hop rest =>
    obtain ⟨color, parent, -, far, sibling, later⟩ := h
    obtain ⟨parent', color'⟩ := kept hop.node (by simp [along])
    simp only [along, nodup_cons, mem_append] at nodup
    have same : ∀ b, b ∈ hop.sibling.nodes ∨ b ∈ along rest → SameAt m m' b := by
      intro b hb
      have member : b ∈ along (hop :: rest) := by
        rcases hb with hb | hb <;> simp [along, hb]
      refine ⟨fun d => kids b member d fun eq => ?_, kept b member⟩
      obtain ⟨-, rfl⟩ := Prod.mk.inj (Option.some.inj eq)
      exact nodup.1 hb
    refine ⟨color'.trans color, parent'.trans parent, filled _ _ rfl, ?_,
      sibling.congr fun b hb => same b (.inl hb), later.congr fun b hb => same b (.inr hb)⟩
    rw [kids hop.node (by simp [along]) _ fun eq => by
      exact hop.side.ne_other (Prod.mk.inj (Option.some.inj eq)).1]
    exact far

end

/-- A tree is put into the hole. -/
theorem Rep.graft (h : m.Rep up t) (hp : m.RepPath path hole)
    (nodup : (t.nodes ++ along path).Nodup)
    (filled : ∀ e a, slot path = some (e, a) → m'.kid e a = t.root)
    (kids : ∀ a e, a ∈ t.nodes ∨ a ∈ along path → slot path ≠ some (e, a) → m'.kid e a = m.kid e a)
    (root : ∀ a, t.root = some a → m'.parent a = above path)
    (parents : ∀ a, a ∈ t.nodes ∨ a ∈ along path → t.root ≠ some a → m'.parent a = m.parent a)
    (colors : ∀ a, a ∈ t.nodes ∨ a ∈ along path → m'.color a = m.color a) :
    m'.Rep none (fill path t) := by
  obtain ⟨nodupT, nodupP, apart⟩ := nodup_append.mp nodup
  refine rep_fill.mpr ⟨?_, ?_⟩
  · refine h.reparent nodupT (fun a ha => ⟨fun e => ?_, colors a (.inl ha)⟩) root
      fun a ha => parents a (.inl ha)
    exact kids a e (.inl ha) fun eq => apart a ha a (slot_mem eq) rfl
  · refine hp.refill nodupP (fun a ha => ⟨?_, colors a (.inr ha)⟩) filled
      fun a ha e => kids a e (.inr ha)
    exact parents a (.inr ha) fun eq => apart a (root_mem eq) a ha rfl

/-- A node is put into the hole, with two trees below it. -/
theorem Rep.plant {up₁ up₂ : Option α} (hs : m.Rep up₁ s) (hu : m.Rep up₂ u)
    (hp : m.RepPath path hole) (nodup : (y :: (s.nodes ++ (u.nodes ++ along path))).Nodup)
    (color : m'.color y = c) (parent : m'.parent y = above path) (near : m'.kid d y = s.root)
    (far : m'.kid d.other y = u.root)
    (filled : ∀ e a, slot path = some (e, a) → m'.kid e a = some y)
    (kids : ∀ a e, a ≠ y → slot path ≠ some (e, a) → m'.kid e a = m.kid e a)
    (roots : ∀ a, s.root = some a ∨ u.root = some a → m'.parent a = some y)
    (parents : ∀ a, a ≠ y → s.root ≠ some a → u.root ≠ some a → m'.parent a = m.parent a)
    (colors : ∀ a, a ≠ y → m'.color a = m.color a) : m'.Rep none (fill path (join d c s y u)) := by
  simp only [nodup_cons, nodup_append, mem_append, not_or] at nodup
  obtain ⟨⟨ys, yu, yp⟩, nodupS, ⟨nodupU, nodupP, apart⟩, apartS⟩ := nodup
  have rootS : ∀ a, s.root = some a → a ∈ s.nodes := fun a => root_mem
  have rootU : ∀ a, u.root = some a → a ∈ u.nodes := fun a => root_mem
  have below : ∀ a, a ∉ along path → a ≠ y →
      (∀ e, m'.kid e a = m.kid e a) ∧ m'.color a = m.color a := fun a ap ay =>
    ⟨fun e => kids a e ay fun eq => ap (slot_mem eq), colors a ay⟩
  refine rep_fill.mpr ⟨rep_join.mpr ⟨color, parent, near, far, ?_, ?_⟩, ?_⟩
  · refine hs.reparent nodupS (fun a ha => below a ?_ fun eq => ys (eq ▸ ha))
      (fun a root => roots a (.inl root)) fun a ha notRoot =>
        parents a (fun eq => ys (eq ▸ ha)) notRoot fun root =>
          apartS a ha a (.inl (rootU a root)) rfl
    exact fun ap => apartS a ha a (.inr ap) rfl
  · refine hu.reparent nodupU (fun a ha => below a ?_ fun eq => yu (eq ▸ ha))
      (fun a root => roots a (.inr root)) fun a ha notRoot =>
        parents a (fun eq => yu (eq ▸ ha)) (fun root =>
          apartS a (rootS a root) a (.inl ha) rfl) notRoot
    exact fun ap => apart a ha a ap rfl
  · rw [root_join]
    refine hp.refill nodupP (fun a ha => ?_) filled fun a ha e => kids a e fun eq => yp (eq ▸ ha)
    have ay : a ≠ y := fun eq => yp (eq ▸ ha)
    exact ⟨parents a ay (fun root => apartS a (rootS a root) a (.inr ha) rfl) fun root =>
      apart a (rootU a root) a ha rfl, colors a ay⟩

theorem nodup_focus (h : (fill path (join d c s a u)).nodes.Nodup) :
    (a :: (s.nodes ++ (u.nodes ++ along path))).Nodup :=
  (nodes_focus path d c s a u).nodup_iff.mp h

theorem Rep.recolor (h : m.Rep none (fill path (join d c s a u)))
    (nodup : (fill path (join d c s a u)).nodes.Nodup) (kids : m'.kid = m.kid)
    (parents : m'.parent = m.parent) (color : m'.color a = c')
    (colors : ∀ b, b ≠ a → m'.color b = m.color b) : m'.Rep none (fill path (join d c' s a u)) := by
  obtain ⟨h, hp⟩ := rep_fill.mp h
  obtain ⟨-, parent, near, far, hs, hu⟩ := rep_join.mp h
  refine hs.plant hu hp (nodup_focus nodup) color ?_ ?_ ?_ ?_ ?_ ?_ ?_ colors
  · rw [parents, parent]
  · rw [kids, near]
  · rw [kids, far]
  · intro e b there
    rw [kids, hp.kid_slot there, root_join]
  · exact fun b e _ _ => by rw [kids]
  · rintro b (root | root)
    · rw [parents, hs.parent_root root]
    · rw [parents, hu.parent_root root]
  · exact fun b _ _ _ => by rw [parents]

/-- The node on the other side of `x` takes the place of `x`. -/
theorem Rep.rotate [DecidableEq α] {A B C : ColorTree α} {x : α}
    (h : m.Rep none (fill path (join d c A x (join d c' B y C))))
    (nodup : (fill path (join d c A x (join d c' B y C))).nodes.Nodup)
    (kids : ∀ e a, m'.kid e a = if a = y ∧ e = d then some x
      else if slot path = some (e, a) then some y
      else if a = x ∧ e = d.other then m.kid d y else m.kid e a)
    (parents : ∀ a, m'.parent a = if a = x then some y else if a = y then above path
      else if m.kid d y = some a then some x else m.parent a) (colors : m'.color = m.color) : m'.Rep none (fill path (join d c' (join d c A x B) y C)) := by
  have distinct := (nodes_focus_pair path d c c' A B C x y).nodup_iff.mp nodup
  rw [rep_fill] at h ⊢
  obtain ⟨h, hp⟩ := h
  rw [rep_join] at h
  obtain ⟨colorX, -, kidX', -, hA, h⟩ := h
  rw [rep_join] at h
  obtain ⟨colorY, -, kidB, kidC, hB, hC⟩ := h
  simp only [nodup_cons, mem_append, mem_cons, nodup_append, not_or, ne_eq] at distinct
  obtain ⟨⟨xy, xA, xB, xC, xp⟩, ⟨yA, yB, yC, yp⟩, -, ⟨nodupB, ⟨-, nodupP, Cp⟩, BCp⟩, ABCp⟩ := distinct
  have outside : ∀ a, a ≠ x → a ≠ y → a ∉ along path → ∀ e, m'.kid e a = m.kid e a := by
    intro a ax ay ap e
    rw [kids, if_neg fun eq => ay eq.1, if_neg fun eq => ap (slot_mem eq), if_neg fun eq => ax eq.1]
  have kept : ∀ a, a ≠ x → a ≠ y → B.root ≠ some a → m'.parent a = m.parent a := by
    intro a ax ay aB
    rw [parents, if_neg ax, if_neg ay, kidB, if_neg aB]
  have rootB : ∀ a, B.root = some a → a ∈ B.nodes := fun a => root_mem
  have away : ∀ {up t}, m.Rep up t → x ∉ t.nodes → y ∉ t.nodes → (∀ a ∈ t.nodes, a ∉ along path) →
      (∀ a ∈ t.nodes, B.root ≠ some a) → m'.Rep up t := fun rep xt yt tp tB => rep.congr fun a ha => by
    have ax : a ≠ x := fun eq => xt (eq ▸ ha)
    have ay : a ≠ y := fun eq => yt (eq ▸ ha)
    exact ⟨outside a ax ay (tp a ha), kept a ax ay (tB a ha), congrFun colors a⟩
  have ofA : m'.Rep (some x) A := away hA xA yA
    (fun a ha member => ABCp a ha a (.inr (.inr member)) rfl)
    fun a ha eq => ABCp a ha a (.inl (rootB a eq)) rfl
  have ofB : m'.Rep (some x) B := by
    refine hB.reparent nodupB (fun a ha => ?_) (fun a root => ?_) fun a ha => ?_
    · have ax : a ≠ x := fun eq => xB (eq ▸ ha)
      have ay : a ≠ y := fun eq => yB (eq ▸ ha)
      have ap : a ∉ along path := fun member => BCp a ha a (.inr member) rfl
      exact ⟨outside a ax ay ap, congrFun colors a⟩
    · have ax : a ≠ x := fun eq => xB (eq ▸ rootB a root)
      have ay : a ≠ y := fun eq => yB (eq ▸ rootB a root)
      rw [parents, if_neg ax, if_neg ay, kidB, if_pos root]
    · exact kept a (fun eq => xB (eq ▸ ha)) fun eq => yB (eq ▸ ha)
  have ofC : m'.Rep (some y) C := away hC xC yC (fun a ha member => Cp a ha a member rfl)
    fun a ha eq => BCp a (rootB a eq) a (.inl ha) rfl
  have atX : ∀ e, m'.kid e x = if e = d.other then B.root else m.kid e x := by
    intro e
    simp [kids, xy, kidB, show slot path ≠ some (e, x) from fun eq => xp (slot_mem eq)]
  have atY : m'.kid d.other y = C.root := by
    rw [kids, if_neg fun eq => d.other_ne eq.2, if_neg fun eq => yp (slot_mem eq),
      if_neg fun eq => xy eq.1.symm, kidC]
  refine ⟨rep_join.mpr ⟨?_, ?_, ?_, atY, rep_join.mpr ⟨?_, ?_, ?_, ?_, ofA, ofB⟩, ofC⟩, ?_⟩
  · rw [colors, colorY]
  · rw [parents, if_neg (Ne.symm xy), if_pos rfl]
  · rw [kids, if_pos ⟨rfl, rfl⟩, root_join]
  · rw [colors, colorX]
  · rw [parents, if_pos rfl]
  · rw [atX, if_neg d.ne_other, kidX']
  · rw [atX, if_pos rfl]
  · rw [root_join] at hp ⊢
    refine hp.refill nodupP (fun a ha => ⟨kept a ?_ ?_ ?_, congrFun colors a⟩) (fun e a there => ?_) ?_
    · exact fun eq => xp (eq ▸ ha)
    · exact fun eq => yp (eq ▸ ha)
    · exact fun eq => BCp a (rootB a eq) a (.inr ha) rfl
    · have ay : a ≠ y := fun eq => yp (eq ▸ slot_mem there)
      rw [kids, if_neg fun eq => ay eq.1, if_pos there]
    · intro a ha e notSlot
      have ax : a ≠ x := fun eq => xp (eq ▸ ha)
      have ay : a ≠ y := fun eq => yp (eq ▸ ha)
      rw [kids, if_neg fun eq => ay eq.1, if_neg notSlot, if_neg fun eq => ax eq.1]

end TreeLinks

end BharatOS
