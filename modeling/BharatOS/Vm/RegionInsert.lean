import BharatOS.Vm.RegionTree

/-!
# A region is put into the tree
-/

namespace BharatOS

open Function Option List

open ColorTree TreeLinks Prog

namespace RegionState

variable {s t : RegionState} {d : ChildSide} {path : List (Hop RegionPtr)}

/-! ## `insert_fixup` -/

variable {A B sib uncle T : ColorTree RegionPtr} {z p g : RegionPtr} {rest : List (Hop RegionPtr)}
  {e f : ChildSide} {n : Nat}

/-- The uncle is red: three nodes change their colour. -/
theorem insertFixup_recolor {U₁ U₂ : ColorTree RegionPtr} {y : RegionPtr}
    (h : s.HasTree (fill rest (join d .black (join e .red (join f .red A z B) p sib) g
      (join d .red U₁ y U₂)))) :
    Reshaped s (fill rest (join d .black (join e .red (join f .red A z B) p sib) g
        (join d .red U₁ y U₂))) (((s.setColor p .black).setColor y .black).setColor g .red)
      (fill rest (join d .red (join e .black (join f .red A z B) p sib) g
        (join d .black U₁ y U₂))) := by
  have atP : s.HasTree (fill (⟨d, .black, g, join d .red U₁ y U₂⟩ :: rest)
    (join e .red (join f .red A z B) p sib)) := h
  have first := atP.setColor .black
  have atY : (s.setColor p .black).HasTree (fill
      (⟨d.other, .black, g, join e .black (join f .red A z B) p sib⟩ :: rest)
      (join d .red U₁ y U₂)) := by
    rw [← fill_other]
    exact first.tree
  have second := atY.setColor .black
  rw [← fill_other, ← fill_other] at second
  exact (first.trans second).trans (second.tree.setColor .red)

/-- The uncle is black, and the new node is on the same side as its parent: the parent takes the
place of the grandparent. -/
theorem insertFixup_rotate {Z R : ColorTree RegionPtr} {q : RegionPtr}
    (h : s.HasTree (fill rest (join d .black (join d .red Z q R) g uncle))) :
    Returns (rotate d.other ((s.setColor q .black).setColor g .red) g) fun t =>
      Reshaped s (fill rest (join d .black (join d .red Z q R) g uncle)) t
        (fill (⟨d, .black, q, join d.other .red uncle g R⟩ :: rest) Z) := by
  have atQ : s.HasTree (fill (⟨d, .black, g, uncle⟩ :: rest) (join d .red Z q R)) := h
  have first := atQ.setColor .black
  have atG : (s.setColor q .black).HasTree
    (fill rest (join d .black (join d .black Z q R) g uncle)) := first.tree
  have second := first.trans (atG.setColor .red)
  have turned : join d.other .red uncle g (join d.other .black R q Z) =
      join d .red (join d .black Z q R) g uncle := by
    rw [join_other d .red, join_other d .black]
  have ready := second.tree
  rw [← turned] at ready
  refine (rotate_spec ready).mono fun t third => second.trans ?_
  rw [turned, join_other d .black] at third
  exact third

/-- The tree has a red node `z` whose subtree is balanced, and it fits but for its colour. -/
def RedAt (s : RegionState) (T : ColorTree RegionPtr) (t : RegionState) (z : RegionPtr)
    (path : List (Hop RegionPtr)) : Prop :=
  ∃ f A B n c, Reshaped s T t (fill path (join f .red A z B)) ∧ A.Balanced .black n ∧
    B.Balanced .black n ∧ Hole path c n

/-- If the new node is on the other side than its parent, they change places. -/
theorem insertTurn_spec
    (h : s.HasTree (fill rest (join d .black (join e .red (join f .red A z B) p sib) g uncle)))
    (hA : A.Balanced .black n) (hB : B.Balanced .black n) (hs : sib.Balanced .black n) :
    Returns (s.insertTurn d z p) fun out => ∃ f' A' B' q R,
        Reshaped s (fill rest (join d .black (join e .red (join f .red A z B) p sib) g uncle)) out.1
          (fill rest (join d .black (join d .red (join f' .red A' out.2 B') q R) g uncle)) ∧
        A'.Balanced .black n ∧ B'.Balanced .black n ∧ R.Balanced .black n := by
  have atP : s.HasTree (fill (⟨d, .black, g, uncle⟩ :: rest)
    (join e .red (join f .red A z B) p sib)) := h
  unfold insertTurn
  rcases d.eq_or_other e with rfl | rfl
  · have apart : s.kid e.other p ≠ some z := by
      have atZ : s.HasTree (fill (⟨e, .red, p, sib⟩ :: ⟨e, .black, g, uncle⟩ :: rest)
        (join f .red A z B)) := h
      exact (atZ.hangs e p rfl).2
    rw [if_neg apart]
    exact .pure ⟨f, A, B, p, sib, .refl h, hA, hB, hs⟩
  · have here : s.kid d.other p = some z := by rw [atP.kids.1, root_join]
    rw [if_pos here]
    obtain ⟨A', B', turned, hA', hB'⟩ : ∃ A' B', join f .red A z B = join d .red A' z B' ∧
        A'.Balanced .black n ∧ B'.Balanced .black n := by
      rcases d.eq_or_other f with rfl | rfl
      · exact ⟨A, B, rfl, hA, hB⟩
      · exact ⟨B, A, join_other .., hB, hA⟩
    rw [turned, join_other] at atP
    refine .bind (rotate_spec atP) fun t moved => .pure ⟨d, sib, A', z, B', ?_, hs, hA', hB'⟩
    rw [turned, join_other]
    exact moved

theorem insertFixupSide_spec {c : Color}
    (h : s.HasTree (fill rest (join d .black (join e .red (join f .red A z B) p sib) g uncle)))
    (hA : A.Balanced .black n) (hB : B.Balanced .black n) (hs : sib.Balanced .black n)
    (hu : uncle.Balanced c n) (up : Hole rest .black (n + 1)) :
    Returns (insertFixupSide d s z p g) fun out => ∃ path, path.length < rest.length + 2 ∧
      RedAt s (fill rest (join d .black (join e .red (join f .red A z B) p sib) g uncle)) out.1
        out.2 path := by
  have uncleRed : s.isRed uncle.root = true ↔ c = .red :=
    isRed_root (rep_join.mp (rep_fill.mp h.rep).1).2.2.2.2.2 hu
  unfold insertFixupSide
  simp only [h.kids.2]
  split_ifs with red
  · obtain rfl := uncleRed.mp red
    obtain rfl | ⟨c', U₁, y, U₂, rfl⟩ := eq_nil_or_join d uncle
    · cases hu
    obtain rfl := hu.color_eq
    obtain ⟨-, hU₁, hU₂⟩ := hu.of_join_red
    rw [root_join]
    refine .pure ⟨rest, by omega, d, join e .black (join f .red A z B) p sib,
      join d .black U₁ y U₂, n + 1, .black, insertFixup_recolor h, ?_, ?_, up⟩
    · exact .join_black (.join_red hA hB) hs
    · exact .join_black hU₁ hU₂
  · have black : c = .black := by
      cases c with
      | black => rfl
      | red => exact absurd (uncleRed.mpr rfl) red
    subst black
    refine .bind (insertTurn_spec h hA hB hs) ?_
    rintro ⟨t, z'⟩ ⟨f', A', B', q, R, turned, hA', hB', hR⟩
    have atZ : t.HasTree (fill (⟨d, .red, q, R⟩ :: ⟨d, .black, g, uncle⟩ :: rest)
      (join f' .red A' z' B')) := turned.tree
    have atQ : t.HasTree (fill (⟨d, .black, g, uncle⟩ :: rest)
      (join d .red (join f' .red A' z' B') q R)) := turned.tree
    refine .bind (.deref (Q := (q = ·)) atZ.parent rfl) ?_
    rintro _ rfl
    refine .bind (.deref (Q := (g = ·)) atQ.parent rfl) ?_
    rintro _ rfl
    refine .bind (insertFixup_rotate turned.tree) fun v moved => .pure ?_
    refine ⟨_, ?_, f', A', B', n, .red, turned.trans moved, hA', hB', ?_⟩
    · simp
    · exact .black (.join_red hu hR) up

/-- The tree is balanced when its root is black. -/
def BalancedBelow (s : RegionState) (T : ColorTree RegionPtr) (t : RegionState) : Prop :=
  ∃ e c A a B n, Reshaped s T t (join e c A a B) ∧ (join e .black A a B).Balanced .black n

theorem insertFixupRound_spec (h : RedAt s T t z path) : Returns (t.insertFixupRound z) fun
      | .inl out => ∃ path', path'.length < path.length ∧ RedAt s T out.1 out.2 path'
      | .inr v => BalancedBelow s T v := by
  obtain ⟨f, A, B, n, c, shape, hA, hB, hole⟩ := h
  have parent := shape.tree.parent
  unfold insertFixupRound
  cases hole with
  | root =>
    rw [parent]
    exact .pure ⟨f, .red, A, z, B, n + 1, shape, .join_black hA hB⟩
  | @black d p uncle rest _ _ _ sibling up =>
    have atP : t.HasTree (fill rest (join d .black (join f .red A z B) p uncle)) := shape.tree
    rw [parent]
    simp only [above, head?_cons, map_some, atP.color, reduceCtorEq, if_false]
    have here : (join d .black (join f .red A z B) p uncle).Balanced .black (n + 1) :=
      .join_black (.join_red hA hB) sibling
    obtain ⟨m, balanced⟩ := up.fill here
    obtain ⟨c', A', a, B', whole⟩ := fill_join
    rw [whole] at balanced
    obtain rfl := balanced.color_eq
    exact .pure ⟨.left, .black, A', a, B', m, whole ▸ shape, balanced⟩
  | @red e p sib rest _ sibling up =>
    cases up with
    | @black d g uncle rest _ _ _ hu up =>
      have atP : t.HasTree (fill (⟨d, .black, g, uncle⟩ :: rest)
        (join e .red (join f .red A z B) p sib)) := shape.tree
      rw [parent]
      simp only [above, head?_cons, map_some, atP.color, if_true]
      refine .bind (.deref (Q := (g = ·)) atP.parent rfl) ?_
      rintro _ rfl
      simp only [atP.hangs.side rfl]
      refine .bind (insertFixupSide_spec shape.tree hA hB sibling hu up) fun out later => .pure ?_
      obtain ⟨path', shorter, f', A', B', m, c', moved, rest'⟩ := later
      exact ⟨path', shorter, f', A', B', m, c', shape.trans moved, rest'⟩

/-- A red node that was put in place of an empty tree. -/
theorem insertFixup_spec (h : RedAt s T s z path) :
    Returns (s.insertFixup z) fun t => ∃ T' n, Reshaped s T t T' ∧ T'.Balanced .black n := by
  have rounds : Returns (loop (fun now => now.1.insertFixupRound now.2) (s, z)) (BalancedBelow s T) := by
    refine .loop (fun k now => ∃ path, path.length = k ∧ RedAt s T now.1 now.2 path) ?_
      ⟨path, rfl, h⟩
    rintro k ⟨t, z'⟩ ⟨path', rfl, red⟩
    refine (insertFixupRound_spec red).mono ?_
    rintro (⟨t', z''⟩ | t') done
    · obtain ⟨path'', shorter, red'⟩ := done
      exact ⟨_, shorter, path'', rfl, red'⟩
    · exact done
  refine .bind rounds ?_
  rintro t ⟨e, c, A, a, B, n, shape, balanced⟩
  have atRoot : t.HasTree (fill [] (join e c A a B)) := shape.tree
  refine .bind (.deref (Q := (a = ·)) (shape.tree.root.trans (root_join ..)) rfl) ?_
  rintro _ rfl
  exact .pure ⟨_, n, shape.trans (atRoot.setColor .black), balanced⟩

/-! ## `tree_insert` -/

/-- The regions of the nodes begin one after the other. -/
def Ascending (s : RegionState) (nodes : List RegionPtr) : Prop :=
  nodes.Pairwise fun a b => (s.region a).base < (s.region b).base

/-- The hole is where `z` belongs. -/
structure PlaceOf (s : RegionState) (z : RegionPtr) (path : List (Hop RegionPtr)) : Prop where
  before : ∀ a ∈ before path, (s.region a).base ≤ (s.region z).base
  after : ∀ a ∈ after path, (s.region z).base < (s.region a).base

theorem insertPlace_spec (h : s.HasShape T) (ascending : s.Ascending T.nodes) :
    Returns (s.insertPlace z) fun y => ∃ path, fill path .nil = T ∧ y = above path ∧
      PlaceOf s z path := by
  refine .loop (fun k now => ∃ path t, fill path t = T ∧ t.height = k ∧ now.1 = above path ∧
    now.2 = t.root ∧ PlaceOf s z path) ?_ ⟨[], T, rfl, rfl, rfl, h.root, nofun, nofun⟩
  rintro k ⟨y, x⟩ ⟨path, t, rfl, rfl, rfl, rfl, place⟩
  cases t with
  | nil => exact .pure ⟨path, rfl, rfl, place⟩
  | node c l a r =>
    have order := ascending
    rw [nodes_fill, ColorTree.nodes] at order
    simp only [Ascending, pairwise_append, pairwise_cons, mem_append] at order
    obtain ⟨⟨-, ⟨-, ⟨aboveA, -⟩, belowA⟩, -⟩, -⟩ := order
    obtain ⟨rep, -⟩ := rep_fill.mp h.rep
    obtain ⟨-, -, left, right, -, -⟩ := rep
    by_cases less : (s.region z).base < (s.region a).base
    · refine .pure ⟨l.height, ?_, ⟨.left, c, a, r⟩ :: path, l, rfl, rfl, rfl, ?_, ⟨?_, ?_⟩⟩
      · simp only [height]
        omega
      · exact (if_pos less).trans left
      · simpa [ColorTree.before] using place.before
      · intro b member
        simp only [ColorTree.after, cons_append, mem_cons, mem_append] at member
        rcases member with rfl | member | member
        · exact less
        · exact less.trans (aboveA b member)
        · exact place.after b member
    · refine .pure ⟨r.height, ?_, ⟨.right, c, a, l⟩ :: path, r, rfl, rfl, rfl, ?_, ⟨?_, ?_⟩⟩
      · simp only [height]
        omega
      · exact (if_neg less).trans right
      · intro b member
        simp only [ColorTree.before, mem_append, mem_singleton] at member
        rcases member with member | member | rfl
        · exact place.before b member
        · have smaller := belowA b member a mem_cons_self
          omega
        · omega
      · simpa [ColorTree.after] using place.after

theorem PlaceOf.side {hop : Hop RegionPtr} (h : PlaceOf s z (hop :: rest)) :
    (s.region z).base < (s.region hop.node).base ↔ hop.side = .left := by
  obtain ⟨side, c, a, sibling⟩ := hop
  cases side with
  | left => simpa using h.after a (by simp [ColorTree.after])
  | right => simpa using h.before a (by simp [ColorTree.before])

/-- The links after `z` became a leaf. -/
theorem linkLeaf_spec (place : PlaceOf s z path) (fresh : z ∉ along path) :
    s.linkLeaf z (above path) = { s with
      kid := (s.linkLeaf z (above path)).kid
      parent := update s.parent z (above path)
      color := update s.color z .red
      regionsTreeRoot := if path = [] then some z else s.regionsTreeRoot } ∧
    ∀ e a, (s.linkLeaf z (above path)).kid e a = if a = z then none
      else if slot path = some (e, a) then some z else s.kid e a := by
  have below : ∀ (r : RegionState) e a, ((r.setKid .left z none).setKid .right z none).kid e a =
      if a = z then none else r.kid e a := by
    intro r e a
    rw [setKid_kid, setKid_kid]
    cases e <;> by_cases here : a = z <;> simp [here]
  cases path with
  | nil =>
    refine ⟨rfl, fun e a => ?_⟩
    change ((RegionState.setKid _ .left z none).setKid .right z none).kid e a = _
    rw [below]
    rfl
  | cons hop rest =>
    have branch : ∀ r : RegionState,
        (if (s.region z).base < (s.region hop.node).base then r.setKid .left hop.node (some z)
        else r.setKid .right hop.node (some z)) = r.setKid hop.side hop.node (some z) := by
      intro r
      by_cases less : (s.region z).base < (s.region hop.node).base
      · rw [if_pos less, place.side.mp less]
      have right : hop.side = .right := by
        cases side : hop.side with
        | left => exact absurd (place.side.mpr side) less
        | right => rfl
      rw [if_neg less, right]
    have side : s.linkLeaf z (above (hop :: rest)) = ((((s.setParent z (some hop.node)).setKid
        hop.side hop.node (some z)).setKid .left z none).setKid .right z none).setColor z .red := by
      rw [← branch]
      rfl
    rw [side]
    refine ⟨rfl, fun e a => ?_⟩
    change ((RegionState.setKid _ .left z none).setKid .right z none).kid e a = _
    rw [below, setKid_kid]
    congr 1
    simp only [slot, head?_cons, map_some, some.injEq, Prod.mk.injEq]
    congr 1
    exact propext ⟨fun eq => ⟨eq.2.symm, eq.1.symm⟩, fun eq => ⟨eq.2.symm, eq.1.symm⟩⟩

theorem linkLeaf_shape (h : s.HasShape (fill path .nil)) (place : PlaceOf s z path)
    (fresh : z ∉ along path) :
    (s.linkLeaf z (above path)).HasShape (fill path (.node .red .nil z .nil)) ∧
      Within (z :: along path) s (s.linkLeaf z (above path)) ∧
      (s.linkLeaf z (above path)).maxEnd = s.maxEnd := by
  obtain ⟨same, kids⟩ := linkLeaf_spec place fresh
  generalize s.linkLeaf z (above path) = r at same kids
  have parents : ∀ a, r.parent a = if a = z then above path else s.parent a := by
    intro a
    rw [same]
    exact update_apply ..
  have colors : ∀ a, r.color a = if a = z then .red else s.color a := by
    intro a
    rw [same]
    exact update_apply ..
  have perm := nodes_fill_perm path (node .red .nil z .nil)
  have nodupP : (along path).Nodup := (nodes_fill_perm path .nil).nodup_iff.mp h.nodup
  have nodup : (z :: ((ColorTree.nil : ColorTree RegionPtr).nodes ++ (ColorTree.nil.nodes ++
      along path))).Nodup := nodup_cons.mpr ⟨fresh, nodupP⟩
  refine ⟨⟨?_, ?_, ?_⟩, ⟨?_, fun q out => ?_⟩, by rw [same]⟩
  · rw [same]
    rw [h.root]
    exact root_fill_eq path .nil (.node .red .nil z .nil)
  · have hp := (rep_fill.mp h.rep).2
    have empty : s.toTreeLinks.Rep none .nil := trivial
    refine empty.plant (d := .left) empty hp nodup ?_ ?_ ?_ ?_ ?_ ?_ nofun ?_ ?_
    · rw [colors, if_pos rfl]
    · rw [parents, if_pos rfl]
    · rw [kids, if_pos rfl]
      rfl
    · rw [kids, if_pos rfl]
      rfl
    · intro e a there
      have away : a ≠ z := fun eq => fresh (eq ▸ slot_mem there)
      rw [kids, if_neg away, if_pos there]
    · intro a e away notSlot
      rw [kids, if_neg away, if_neg notSlot]
    · intro a away _ _
      rw [parents, if_neg away]
    · intro a away
      rw [colors, if_neg away]
  · exact perm.nodup_iff.mpr nodup
  · rw [same]
  · simp only [mem_cons, not_or] at out
    refine ⟨⟨fun e => ?_, ?_, ?_⟩, ?_⟩
    · rw [kids, if_neg out.1, if_neg fun there => out.2 (slot_mem there)]
    · rw [parents, if_neg out.1]
    · rw [colors, if_neg out.1]
    · rw [same]

/-- The greatest ends have to be right only beside the way down to the new leaf. -/
theorem treeInsert_spec (h : s.HasShape T) (balanced : T.Balanced .black n)
    (ascending : s.Ascending T.nodes) (fresh : z ∉ T.nodes)
    (beside : ∀ path, fill path .nil = T → PlaceOf s z path → s.TopsBeside path) :
    Returns (s.treeInsert z) fun t => ∃ T' m path, t.HasTree T' ∧ T'.Balanced .black m ∧
      T'.nodes = before path ++ z :: after path ∧ T.nodes = before path ++ after path ∧
      PlaceOf s z path ∧ Within (z :: T.nodes) s t := by
  refine .bind (insertPlace_spec h ascending) ?_
  rintro _ ⟨path, rfl, rfl, place⟩
  have perm : (fill path .nil).nodes.Perm (along path) := nodes_fill_perm path .nil
  have freshP : z ∉ along path := fun member => fresh (perm.mem_iff.mpr member)
  obtain ⟨leaf, linked, maxEnds⟩ := linkLeaf_shape h place freshP
  generalize s.linkLeaf z (above path) = r at leaf linked maxEnds
  -- the leaf gets its own end, and then the nodes above it
  have besideR : r.TopsBeside (⟨.left, .red, z, .nil⟩ :: path) := by
    intro hop member
    rw [linked.stopAt, maxEnds]
    rcases mem_cons.mp member with rfl | member
    · trivial
    · exact beside path rfl place hop member
  have first : Retopped [z] r (r.updateMaxEnd z) := by
    refine ⟨rfl, fun q out => ?_⟩
    rw [updateMaxEnd_maxEnd r .left, if_neg (by simpa using out)]
  obtain ⟨-, besideV⟩ := updateMaxEnd_step (T := .nil) leaf trivial besideR
  have leafV := first.shape leaf
  have withinV := linked.trans (first.within.mono (by simp))
  generalize r.updateMaxEnd z = v at besideV leafV withinV
  have besideV' : v.TopsBeside (⟨.left, .red, z, .nil⟩ :: path) := by
    intro hop member
    rcases mem_cons.mp member with rfl | member
    · trivial
    · exact besideV hop member
  have leafV' : v.HasShape (fill (⟨.left, .red, z, .nil⟩ :: path) .nil) := leafV
  refine .bind (updateUp_spec leafV' trivial besideV') ?_
  rintro w ⟨tree, retopped⟩
  obtain ⟨c, m, empty, hole⟩ := Hole.of_fill balanced
  cases empty
  have red : RedAt w (fill path (.node .red .nil z .nil)) w z path :=
    ⟨.left, .nil, .nil, 0, .black, .refl tree, .nil, .nil, hole⟩
  refine (insertFixup_spec red).mono ?_
  rintro t ⟨T', m', shape, balanced'⟩
  refine ⟨T', m', path, shape.tree, balanced', ?_, ?_, place, ?_⟩
  · rw [shape.nodes, nodes_fill]
    simp [nodes]
  · rw [nodes_fill]
    simp [nodes]
  · have toAll : z :: along path ⊆ z :: (fill path .nil).nodes :=
      cons_subset_cons z fun a member => perm.mem_iff.mpr member
    have leafAll : (fill path (.node .red .nil z .nil)).nodes ⊆ z :: (fill path .nil).nodes :=
      fun a member => toAll ((nodes_fill_perm path _).mem_iff.mp member)
    exact (withinV.mono toAll).trans ((retopped.within.mono leafAll).trans
      (shape.within.mono leafAll))

end RegionState

end BharatOS
