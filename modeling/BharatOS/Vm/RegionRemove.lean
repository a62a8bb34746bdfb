import BharatOS.Vm.RegionTree

/-!
# A region is taken out of the tree
-/

namespace BharatOS

open List

open ColorTree TreeLinks Prog

namespace RegionState

variable {s t : RegionState} {d : ChildSide} {path rest : List (Hop RegionPtr)}
  {T X W : ColorTree RegionPtr} {p : RegionPtr} {c cp : Color} {n : Nat}

/-! ## `delete_fixup` -/

variable {N F l ry : ColorTree RegionPtr} {w y z : RegionPtr}

/-- The sibling is red: it takes the place of the parent, and the new sibling is black. -/
theorem blackSibling_red (h : s.HasTree (fill rest (join d .black X p (join d .red N w F)))) :
    Returns (s.blackSibling d p) fun out =>
      Reshaped s (fill rest (join d .black X p (join d .red N w F))) out.1
        (fill (⟨d, .red, p, N⟩ :: ⟨d, .black, w, F⟩ :: rest) X) ∧ out.2 = N.root := by
  have atW : s.HasTree (fill (⟨d.other, .black, p, X⟩ :: rest) (join d .red N w F)) := by
    rw [← fill_other]
    exact h
  have red : s.isRed (some w) = true := by simp [isRed, atW.color]
  have first := atW.setColor .black
  rw [← fill_other, ← fill_other] at first
  have second := first.trans (first.tree.setColor .red)
  unfold blackSibling
  simp only [h.kids.2, root_join, red, if_true]
  refine .bind (rotate_spec second.tree) fun t third => .pure ⟨second.trans third, ?_⟩
  have atP : t.HasTree (fill (⟨d, .black, w, F⟩ :: rest) (join d .red X p N)) := third.tree
  exact atP.kids.2

/-- The far child of the sibling is black and the near one red: the near one takes the place of
the sibling. -/
theorem redNephew_turn {B C : ColorTree RegionPtr}
    (h : s.HasTree (fill (⟨d.other, cp, p, X⟩ :: rest)
      (join d .black (join d.other .red B y C) w F))) (black : ¬ s.isRed F.root = true) :
    Returns (s.redNephew d p w) fun out =>
      Reshaped s (fill (⟨d.other, cp, p, X⟩ :: rest) (join d .black (join d.other .red B y C) w F))
        out.1 (fill (⟨d.other, cp, p, X⟩ :: rest) (join d .black C y (join d .red B w F))) ∧
      out.2 = some y := by
  have atY : s.HasTree (fill (⟨d, .black, w, F⟩ :: ⟨d.other, cp, p, X⟩ :: rest)
    (join d.other .red B y C)) := h
  have first := atY.setColor .black
  have atW : (s.setColor y .black).HasTree (fill (⟨d.other, cp, p, X⟩ :: rest)
    (join d .black (join d.other .black B y C) w F)) := first.tree
  have second := first.trans (atW.setColor .red)
  have turned : join d.other .red F w (join d.other .black B y C) =
      join d .red (join d.other .black B y C) w F := join_other ..
  have after : join d.other .black (join d.other .red F w B) y C =
      join d .black C y (join d .red B w F) := by
    rw [join_other d .black, join_other d .red]
  have ready := second.tree
  rw [← turned] at ready
  unfold redNephew
  simp only [h.kids.2, black, h.kids.1, root_join]
  refine .bind (rotate_spec ready) fun t third => .pure ?_
  rw [turned, after] at third
  refine ⟨second.trans third, ?_⟩
  have atP : t.HasTree (fill rest (join d cp X p (join d .black C y (join d .red B w F)))) := by
    rw [fill_other]
    exact third.tree
  exact atP.kids.2.trans (root_join ..)

/-- After this step the far child of the sibling is red. -/
theorem redNephew_spec {c₁ c₂ : Color}
    (h : s.HasTree (fill rest (join d cp X p (join d .black N w F)))) (hN : N.Balanced c₁ n)
    (hF : F.Balanced c₂ n) (some_red : c₁ = .red ∨ c₂ = .red) :
    Returns (s.redNephew d p w) fun out => ∃ N' w' F₁ f F₂ c', out.2 = some w' ∧
      Reshaped s (fill rest (join d cp X p (join d .black N w F))) out.1
        (fill rest (join d cp X p (join d .black N' w' (join d .red F₁ f F₂)))) ∧
      N'.Balanced c' n ∧ F₁.Balanced .black n ∧ F₂.Balanced .black n := by
  have atW := h
  rw [fill_other] at atW
  have repF : s.toTreeLinks.Rep (some w) F := (rep_join.mp (rep_fill.mp atW.rep).1).2.2.2.2.2
  have farRed := isRed_root repF hF
  cases c₂ with
  | red =>
    obtain ⟨F₁, f, F₂, rfl, hF₁, hF₂⟩ := hF.exists_join_red d
    unfold redNephew
    simp only [atW.kids.2, farRed.mpr rfl, if_true]
    exact .pure ⟨N, w, F₁, f, F₂, c₁, rfl, .refl h, hN, hF₁, hF₂⟩
  | black =>
    obtain rfl : c₁ = .red := by simpa using some_red
    obtain ⟨B, y, C, rfl, hB, hC⟩ := hN.exists_join_red d.other
    refine (redNephew_turn atW fun red => by cases farRed.mp red).mono ?_
    rintro out ⟨moved, rfl'⟩
    rw [← fill_other, ← fill_other] at moved
    exact ⟨C, y, B, w, F, .black, rfl', moved, hC, hB, hF⟩

/-- The far child of the sibling is red: the sibling takes the place of the parent. -/
theorem deleteFixup_rotate {F₁ F₂ : ColorTree RegionPtr} {f : RegionPtr}
    (h : s.HasTree (fill rest (join d cp X p (join d .black N w (join d .red F₁ f F₂))))) :
    Returns (rotate d ((((s.setColor w (s.color p)).setColorIf
        ((s.setColor w (s.color p)).kid d.other w) .black)).setColor p .black) p) fun t =>
      Reshaped s (fill rest (join d cp X p (join d .black N w (join d .red F₁ f F₂)))) t
        (fill rest (join d cp (join d .black X p N) w (join d .black F₁ f F₂))) := by
  have atW := h
  rw [fill_other] at atW
  have first := atW.setColor cp
  have far : (s.setColor w cp).kid d.other w = some f := by
    rw [first.tree.kids.2, root_join]
  rw [h.color, far]
  have atF : (s.setColor w cp).HasTree (fill (⟨d.other, cp, w, N⟩ :: ⟨d.other, cp, p, X⟩ :: rest)
      (join d .red F₁ f F₂)) := by
    rw [← fill_other]
    exact first.tree
  have second := atF.setColor .black
  simp only [← fill_other] at first second
  have third := first.trans second
  have last := third.trans (third.tree.setColor .black)
  exact (rotate_spec last.tree).mono fun t turned => last.trans turned

/-- On the way from `x` up to the root one black node is missing: `x` is black, or red and about
to become black. -/
def Short (X : ColorTree RegionPtr) (n : Nat) : Prop :=
  X.Balanced .black n ∨ ∃ e A a B, X = join e .red A a B ∧ (join e .black A a B).Balanced .black (n + 1)

/-- The state of `delete_fixup` between two rounds. -/
def ShortAt (k : Nat) (s : RegionState) (T : ColorTree RegionPtr) (t : RegionState)
    (x xParent : Option RegionPtr) : Prop :=
  ∃ path X n, Reshaped s T t (fill path X) ∧ X.root = x ∧ (path ≠ [] → above path = xParent) ∧
    Hole path .black (n + 1) ∧ Short X n ∧ (t.isRed x ∨ path.length < k)

variable {k m : Nat} {hop : Hop RegionPtr} {R : ColorTree RegionPtr} {cy : Color}
  {low : List (Hop RegionPtr)}

/-- A node of the path is not a node below the hole, so the root is not there. -/
theorem HasTree.root_ne (h : s.HasTree (fill (hop :: rest) X)) : X.root ≠ s.regionsTreeRoot := by
  intro same
  obtain ⟨a, member, root⟩ := root_fill_mem hop rest X
  have found := same.trans (h.root.trans root)
  have nodup := (nodes_fill_perm (hop :: rest) X).nodup_iff.mp h.nodup
  exact (nodup_append.mp nodup).2.2 a (root_mem found) a member rfl

section

variable (h : s.HasTree (fill (⟨d, cp, p, W⟩ :: rest) X))

include h

theorem blackSibling_spec (hole : Hole (⟨d, cp, p, W⟩ :: rest) .black (n + 1)) :
    Returns (s.blackSibling d p) fun out => ∃ cp' W' rest',
      Reshaped s (fill (⟨d, cp, p, W⟩ :: rest) X) out.1 (fill (⟨d, cp', p, W'⟩ :: rest') X) ∧
      out.2 = W'.root ∧ W'.Balanced .black (n + 1) ∧
      Hole (⟨d, cp', p, W'⟩ :: rest') .black (n + 1) ∧ (cp' = .black → rest' = rest) := by
  have atP : s.HasTree (fill rest (join d cp X p W)) := h
  have repW : s.toTreeLinks.Rep (some p) W := (rep_join.mp (rep_fill.mp atP.rep).1).2.2.2.2.2
  have stays : W.Balanced .black (n + 1) → Returns (s.blackSibling d p) fun out =>
      Reshaped s (fill (⟨d, cp, p, W⟩ :: rest) X) out.1 (fill (⟨d, cp, p, W⟩ :: rest) X) ∧
        out.2 = W.root := by
    intro hW
    have black : ¬ s.isRed W.root = true := fun red => by cases (isRed_root repW hW).mp red
    unfold blackSibling
    simp only [atP.kids.2, black]
    exact .pure ⟨.refl h, rfl⟩
  cases hole with
  | red hW up =>
    refine (stays hW).mono fun out kept => ⟨.red, W, rest, kept.1, kept.2, hW, .red hW up, nofun⟩
  | @black _ _ _ _ _ c' _ hW up =>
    cases c' with
    | black =>
      exact (stays hW).mono fun out kept =>
        ⟨.black, W, rest, kept.1, kept.2, hW, .black hW up, fun _ => rfl⟩
    | red =>
      obtain ⟨N, w, F, rfl, hN, hF⟩ := hW.exists_join_red d
      exact (blackSibling_red h).mono fun out moved =>
        ⟨.red, N, _, moved.1, moved.2, hN, .red hN (.black hF up), nofun⟩

theorem deleteFixupSide_spec
    (hole : Hole (⟨d, cp, p, W⟩ :: rest) .black (n + 1)) (hX : X.Balanced .black n)
    (short : rest.length + 1 < k) : Returns (s.deleteFixupSide d p) fun out => ∃ j, j < k ∧
      ShortAt j s (fill (⟨d, cp, p, W⟩ :: rest) X) out.1 out.2.1 out.2.2 := by
  refine .bind (blackSibling_spec h hole) ?_
  rintro ⟨t, w⟩ ⟨cp', W', rest', first, rfl, hW, hole', same⟩
  obtain ⟨N, w, F, c₁, c₂, rfl, hN, hF⟩ := hW.exists_join d
  simp only [root_join]
  have atP : t.HasTree (fill rest' (join d cp' X p (join d .black N w F))) := first.tree
  have atW := atP
  rw [fill_other] at atW
  obtain ⟨-, -, -, -, repN, repF⟩ := rep_join.mp (rep_fill.mp atW.rep).1
  rw [atW.kids.1, atW.kids.2]
  have nearRed := isRed_root repN hN
  have farRed := isRed_root repF hF
  split_ifs with black
  · -- both children of the sibling are black: the sibling becomes red, and the parent is short
    obtain rfl : c₁ = .black := by
      cases c₁ with
      | black => rfl
      | red => exact absurd (nearRed.mpr rfl) black.1
    obtain rfl : c₂ = .black := by
      cases c₂ with
      | black => rfl
      | red => exact absurd (farRed.mpr rfl) black.2
    have second := atW.setColor .red
    rw [← fill_other, ← fill_other] at second
    have shape := first.trans second
    have inner : (join d .black X p (join d .red N w F)).Balanced .black (n + 1) :=
      .join_black hX (.join_red hN hF)
    cases hole' with
    | red _ up =>
      refine .pure ⟨0, by omega, rest', _, n, shape, root_join .., fun _ => ?_, up.to_black,
        .inr ⟨d, X, p, _, rfl, inner⟩, .inl ?_⟩
      · exact shape.tree.parent.symm
      · simp [isRed, shape.tree.color]
    | black _ up =>
      obtain rfl := same rfl
      refine .pure ⟨rest'.length + 1, short, rest', _, n + 1, shape, root_join .., fun _ => ?_, up,
        .inl inner, .inr (Nat.lt_succ_self _)⟩
      exact shape.tree.parent.symm
  · have some_red : c₁ = .red ∨ c₂ = .red := by
      by_contra none_red
      rw [not_or, ← nearRed, ← farRed] at none_red
      exact black none_red
    refine .bind (redNephew_spec atP hN hF some_red) ?_
    rintro ⟨v, _⟩ ⟨N', w', F₁, f, F₂, c', rfl, second, hN', hF₁, hF₂⟩
    refine .bind (deleteFixup_rotate second.tree) fun t' third => .pure ?_
    have shape := (first.trans second).trans third
    obtain ⟨m, balanced⟩ : ∃ m, (fill rest' (join d cp' (join d .black X p N') w'
        (join d .black F₁ f F₂))).Balanced .black m := by
      cases hole' with
      | red _ up => exact up.fill (.join_red (.join_black hX hN') (.join_black hF₁ hF₂))
      | black _ up => exact up.fill (.join_black (.join_black hX hN') (.join_black hF₁ hF₂))
    exact ⟨1, by omega, [], _, m, shape, shape.tree.root.symm, fun no => absurd rfl no, .root,
      .inl balanced, .inr Nat.one_pos⟩

/-- On which side of its parent the missing node is. -/
theorem deleteFixup_side (hW : W.Balanced c (n + 1)) :
    (if X.root = s.kid .left p then ChildSide.left else .right) = d := by
  have atP : s.HasTree (fill rest (join d cp X p W)) := h
  cases d with
  | left => rw [if_pos atP.kids.1.symm]
  | right =>
    have left : s.kid .left p = W.root := atP.kids.2
    rw [left, if_neg]
    intro same
    have some_root : ∃ w, W.root = some w := by
      cases hW with
      | red | black => exact ⟨_, rfl⟩
    obtain ⟨w, root⟩ := some_root
    have distinct := nodup_focus atP.nodup
    simp only [nodup_cons, nodup_append, mem_append] at distinct
    exact distinct.2.2.2 w (root_mem (same.trans root)) w (.inl (root_mem root)) rfl

end

theorem deleteFixupRound_spec {x xParent : Option RegionPtr} (h : ShortAt k s T t x xParent) :
    Returns (t.deleteFixupRound x xParent) fun
      | .inl out => ∃ j, j < k ∧ ShortAt j s T out.1 out.2.1 out.2.2
      | .inr out => ∃ path X n, Reshaped s T out.1 (fill path X) ∧ X.root = out.2 ∧
          Hole path .black (n + 1) ∧ Short X n ∧ (path ≠ [] → out.1.isRed out.2) := by
  obtain ⟨path, X, n, shape, rfl, parent, hole, short, bound⟩ := h
  unfold deleteFixupRound
  split_ifs with goes
  · obtain ⟨notRoot, notRed⟩ := goes
    cases path with
    | nil => exact absurd shape.tree.root.symm notRoot
    | cons hop rest =>
      obtain ⟨d, cp, p, W⟩ := hop
      rcases short with hX | ⟨e, A, a, B, rfl, -⟩
      · have few : rest.length + 1 < k := bound.resolve_left notRed
        obtain ⟨c, hW⟩ : ∃ c, W.Balanced c (n + 1) := by
          cases hole with
          | red sibling _ | black sibling _ => exact ⟨_, sibling⟩
        refine .bind (.deref (Q := (p = ·)) (parent nofun).symm rfl) ?_
        rintro _ rfl
        simp only [deleteFixup_side shape.tree hW]
        refine .bind (deleteFixupSide_spec shape.tree hole hX few) fun out later => .pure ?_
        obtain ⟨j, less, path', X', n', moved, rest'⟩ := later
        exact ⟨j, less, path', X', n', shape.trans moved, rest'⟩
      · exact absurd (by simp [isRed, shape.tree.color]) notRed
  · refine .pure ⟨path, X, n, shape, rfl, hole, short, fun nonempty => ?_⟩
    cases path with
    | nil => exact absurd rfl nonempty
    | cons hop rest =>
      by_contra notRed
      exact goes ⟨shape.tree.root_ne, notRed⟩

theorem deleteFixup_spec (h : s.HasTree (fill path X)) (hole : Hole path .black (n + 1))
    (hX : Short X n) :
    Returns (s.deleteFixup X.root (above path)) fun t => ∃ T' m, Reshaped s (fill path X) t T' ∧
      T'.Balanced .black m := by
  have rounds : Returns (loop (fun now => now.1.deleteFixupRound now.2.1 now.2.2)
      (s, X.root, above path)) fun out => ∃ path' X' n', Reshaped s (fill path X) out.1
        (fill path' X') ∧ X'.root = out.2 ∧ Hole path' .black (n' + 1) ∧ Short X' n' ∧
        (path' ≠ [] → out.1.isRed out.2) := by
    refine .loop (fun k now => ShortAt k s (fill path X) now.1 now.2.1 now.2.2) ?_
      ⟨path, X, n, .refl h, rfl, fun _ => rfl, hole, hX, .inr (Nat.lt_succ_self _)⟩
    rintro k ⟨t, x, xParent⟩ short
    refine (deleteFixupRound_spec short).mono ?_
    rintro (out | out) done
    · exact done
    · exact done
  refine .bind rounds ?_
  rintro ⟨t, x⟩ ⟨path', X', n', shape, rfl, hole', short, red⟩
  refine .pure ?_
  rcases short with hX' | ⟨e, A, a, B, rfl, balanced⟩
  · obtain rfl : path' = [] := by
      by_contra nonempty
      have black := (isRed_root (rep_fill.mp shape.tree.rep).1 hX').mp (red nonempty)
      cases black
    obtain rfl | ⟨c', A, a, B, rfl⟩ := eq_nil_or_join .left X'
    · exact ⟨_, n', shape, hX'⟩
    obtain rfl := hX'.color_eq
    refine ⟨_, n', shape.trans ?_, hX'⟩
    exact shape.tree.setColor .black
  · obtain ⟨m, whole⟩ := hole'.fill balanced
    refine ⟨_, m, shape.trans ?_, whole⟩
    rw [root_join]
    exact shape.tree.setColor .black

/-! ## `tree_remove` -/

theorem short_of_balanced (h : X.Balanced c n) : Short X n := by
  cases c with
  | black => exact .inl h
  | red =>
    obtain ⟨A, a, B, rfl, hA, hB⟩ := h.exists_join_red .left
    exact .inr ⟨.left, A, a, B, rfl, .join_black hA hB⟩

/-- A node with an empty tree on one side is taken out. -/
theorem balance_without {c' : Color} (h : (join d c .nil y X).Balanced c' n) (hole : Hole path c' n) :
    (c = .red → ∃ m, (fill path X).Balanced .black m) ∧
      (c = .black → ∃ m, Hole path .black (m + 1) ∧ Short X m) := by
  cases c with
  | red =>
    obtain ⟨-, -, hX⟩ := h.of_join_red
    exact ⟨fun _ => hole.to_black.fill hX, nofun⟩
  | black =>
    obtain ⟨m, c₁, c₂, rfl, rfl, -, hX⟩ := h.of_join_black
    exact ⟨nofun, fun _ => ⟨m, hole, short_of_balanced hX⟩⟩

/-- What hangs at `u` is replaced. -/
theorem treeTransplant_spec {u : RegionPtr} (parent : s.parent u = above path)
    (hangs : s.Hangs path u) (v : Option RegionPtr) :
    s.treeTransplant u v = { s with
      kid := fun e a => if slot path = some (e, a) then v else s.kid e a
      parent := fun a => if v = some a then above path else s.parent a
      regionsTreeRoot := if path = [] then v else s.regionsTreeRoot } := by
  unfold treeTransplant
  rw [parent, replaceKid_eq hangs]
  simp only [parent]
  cases v with
  | none => simp [setParentIf]
  | some v =>
    have parents : ∀ (r : RegionState) q, (r.setParent v q).parent =
        fun a => if some v = some a then q else r.parent a := by
      intro r q
      funext a
      rw [setParent_parent]
      simp [eq_comm]
    simp only [setParentIf]
    rw [show ∀ (r : RegionState) q, r.setParent v q =
      { r with parent := (r.setParent v q).parent } from fun _ _ => rfl, parents]

/-- A node with an empty tree on side `d` is replaced by the tree on its other side. -/
theorem treeTransplant_shape (h : s.HasShape (fill path (join d c .nil z X))) :
    (s.treeTransplant z X.root).HasShape (fill path X) ∧
      Within (fill path (join d c .nil z X)).nodes s (s.treeTransplant z X.root) ∧
      (s.treeTransplant z X.root).maxEnd = s.maxEnd := by
  have form := treeTransplant_spec h.parent h.hangs X.root
  rw [form]
  obtain ⟨rep, hp⟩ := rep_fill.mp h.rep
  obtain ⟨-, -, -, -, -, repX⟩ := rep_join.mp rep
  have distinct : (z :: (X.nodes ++ along path)).Nodup := nodup_focus h.nodup
  obtain ⟨zX, nodup⟩ := nodup_cons.mp distinct
  have perm := nodes_focus path d c .nil z X
  refine ⟨⟨?_, ?_, ?_⟩, ⟨rfl, fun q out => ?_⟩, rfl⟩
  · rw [h.root, root_fill_eq]
  · refine repX.graft hp nodup (fun e a there => if_pos there) (fun a e _ notSlot => if_neg notSlot)
      (fun a root => if_pos root) (fun a _ notRoot => if_neg notRoot) fun a _ => rfl
  · exact (nodes_fill_perm path X).nodup_iff.mpr nodup
  · have away : q ∉ X.nodes ++ along path := fun member =>
      out (perm.mem_iff.mpr (mem_cons_of_mem _ member))
    simp only [mem_append, not_or] at away
    exact ⟨⟨fun e => if_neg fun there => away.2 (slot_mem there),
      if_neg fun root => away.1 (root_mem root), rfl⟩, rfl⟩

/-- Down the left sides to the least node. -/
theorem treeMinimum_spec {r : RegionPtr} (h : s.HasShape (fill path R)) (root : R.root = some r) :
    Returns (s.treeMinimum r) fun y => ∃ low cy ry, R = fill low (.node cy .nil y ry) ∧
      before low = [] := by
  refine .loop (fun k x => ∃ low t, R = fill low t ∧ t.height = k ∧ t.root = some x ∧
    before low = []) ?_ ⟨[], R, rfl, rfl, root, rfl⟩
  rintro k x ⟨low, t, rfl, rfl, found, left⟩
  cases t with
  | nil => cases found
  | node c l y r =>
    obtain rfl := Option.some.inj found
    have atY : s.HasShape (fill (low ++ path) (join .left c l y r)) := by
      rw [fill_append]
      exact h
    have kid : s.kid .left y = l.root := atY.kids.1
    simp only [kid]
    cases l with
    | nil => exact .pure ⟨low, c, r, rfl, left⟩
    | node c' l' y' r' =>
      refine .pure ⟨_, ?_, ⟨.left, c, y, r⟩ :: low, .node c' l' y' r', rfl, rfl, rfl, ?_⟩
      · simp only [height]
        omega
      · simpa [before] using left

/-- The links after `y` took the place of `z`. -/
theorem takePlace_spec (parentZ : s.parent z = above path) (hangs : s.Hangs path z)
    (leftZ : s.kid .left z = l.root) (zp : z ∉ along path) : s.takePlace z y = { s with
      kid := (s.takePlace z y).kid
      parent := (s.takePlace z y).parent
      color := Function.update s.color y (s.color z)
      regionsTreeRoot := if path = [] then some y else s.regionsTreeRoot } ∧
    (∀ e a, (s.takePlace z y).kid e a = if a = y ∧ e = .left then l.root
      else if slot path = some (e, a) then some y else s.kid e a) ∧
    ∀ a, (s.takePlace z y).parent a = if l.root = some a then some y
      else if some y = some a then above path else s.parent a := by
  unfold takePlace
  rw [treeTransplant_spec parentZ hangs]
  have left : (if slot path = some (ChildSide.left, z) then some y else s.kid .left z) = l.root := by
    rw [if_neg fun there => zp (slot_mem there), leftZ]
  simp only [left, setKid_kid, and_self, if_true]
  generalize first : RegionState.setKid _ .left y l.root = r
  have kids : ∀ e a, r.kid e a = if a = y ∧ e = .left then l.root
      else if slot path = some (e, a) then some y else s.kid e a := by
    intro e a
    rw [← first, setKid_kid]
  have same : r = { s with
      kid := r.kid
      parent := fun a => if some y = some a then above path else s.parent a
      regionsTreeRoot := if path = [] then some y else s.regionsTreeRoot } := by
    rw [← first]
    rfl
  have kept : (r.setParentIf l.root (some y)).kid = r.kid := by cases l.root <;> rfl
  refine ⟨?_, fun e a => ?_, fun a => ?_⟩
  · rw [same]
    cases l.root <;> rfl
  · rw [← kids, ← kept]
    rfl
  · change (r.setParentIf l.root (some y)).parent a = _
    rw [setParentIf_parent, same]

/-- `z` is in the tree at the path with `l` on its left, and `y` has `R` on its right. -/
structure ReadyFor (s : RegionState) (path : List (Hop RegionPtr)) (c : Color)
    (l R : ColorTree RegionPtr) (z y : RegionPtr) : Prop where
  parentZ : s.parent z = above path
  hangs : s.Hangs path z
  colorZ : s.color z = c
  leftZ : s.kid .left z = l.root
  rightY : s.kid .right y = R.root
  repL : s.toTreeLinks.Rep (some z) l
  repR : s.toTreeLinks.Rep (some y) R
  hp : s.toTreeLinks.RepPath path (some z)
  root : path ≠ [] → s.regionsTreeRoot = (fill path (.node c l y R)).root

theorem ReadyFor.takePlace (h : ReadyFor s path c l R z y)
    (nodup : (y :: (l.nodes ++ (R.nodes ++ along path))).Nodup) (zp : z ∉ along path) :
    (s.takePlace z y).HasShape (fill path (.node c l y R)) ∧
      Within (y :: (l.nodes ++ (R.nodes ++ along path))) s (s.takePlace z y) ∧
      (s.takePlace z y).maxEnd = s.maxEnd := by
  obtain ⟨parentZ, hangs, colorZ, leftZ, rightY, repL, repR, hp, root⟩ := h
  obtain ⟨same, kids, parents⟩ := takePlace_spec (y := y) parentZ hangs leftZ zp
  generalize s.takePlace z y = r at same kids parents
  have colors : ∀ a, r.color a = if a = y then c else s.color a := by
    intro a
    rw [same]
    exact colorZ ▸ Function.update_apply ..
  have distinct := nodup
  simp only [nodup_cons, mem_append, not_or, nodup_append] at distinct
  obtain ⟨⟨yl, yR, yp⟩, -, ⟨-, -, apart⟩, apartL⟩ := distinct
  refine ⟨⟨?_, ?_, ?_⟩, ⟨?_, fun q out => ?_⟩, by rw [same]⟩
  · rw [same]
    split_ifs with empty
    · subst empty
      rfl
    · exact root empty
  · refine repL.plant (d := .left) repR hp nodup ?_ ?_ ?_ ?_ ?_ ?_ ?_ ?_ ?_
    · rw [colors, if_pos rfl]
    · rw [parents, if_neg fun eq => yl (root_mem eq), if_pos rfl]
    · rw [kids, if_pos ⟨rfl, rfl⟩]
    · rw [kids, if_neg (by simp), if_neg fun there => yp (slot_mem there)]
      exact rightY
    · intro e a there
      have away : a ≠ y := fun eq => yp (eq ▸ slot_mem there)
      rw [kids, if_neg fun eq => away eq.1, if_pos there]
    · intro a e away notSlot
      rw [kids, if_neg fun eq => away eq.1, if_neg notSlot]
    · rintro a (rootL | rootR)
      · rw [parents, if_pos rootL]
      · have notL : l.root ≠ some a := fun eq =>
          apartL a (root_mem eq) a (.inl (root_mem rootR)) rfl
        have away : some y ≠ some a := fun eq => yR (Option.some.inj eq ▸ root_mem rootR)
        rw [parents, if_neg notL, if_neg away, repR.parent_root rootR]
    · intro a away notL _
      rw [parents, if_neg notL, if_neg fun eq => away (Option.some.inj eq).symm]
    · intro a away
      rw [colors, if_neg away]
  · exact (nodes_focus path .left c l y R).nodup_iff.mpr nodup
  · rw [same]
  · simp only [mem_cons, mem_append, not_or] at out
    obtain ⟨qy, ql, -, qp⟩ := out
    refine ⟨⟨fun e => ?_, ?_, ?_⟩, by rw [same]⟩
    · rw [kids, if_neg fun eq => qy eq.1, if_neg fun there => qp (slot_mem there)]
    · rw [parents, if_neg fun eq => ql (root_mem eq), if_neg fun eq => qy (Option.some.inj eq).symm]
    · rw [colors, if_neg qy]

/-- What is left to do after `z` was taken out. -/
structure TakenOut (s : RegionState) (z : RegionPtr) (T : ColorTree RegionPtr) (t : RegionState)
    (x xParent : Option RegionPtr) (color : Color) (path : List (Hop RegionPtr))
    (X : ColorTree RegionPtr) : Prop where
  shape : t.HasShape (fill path X)
  place : X.root = x
  parent : above path = xParent
  tops : X.Tops t.stopAt t.maxEnd
  beside : t.TopsBeside path
  nodes : ∃ xs ys, T.nodes = xs ++ z :: ys ∧ (fill path X).nodes = xs ++ ys
  within : Within T.nodes s t
  red : color = .red → ∃ m, (fill path X).Balanced .black m
  black : color = .black → ∃ m, Hole path .black (m + 1) ∧ Short X m

/-- `z` has an empty tree on one side. -/
theorem takenOut_one (h : s.HasTree (fill path (join d c .nil z X)))
    (balanced : (fill path (join d c .nil z X)).Balanced .black m) :
    TakenOut s z (fill path (join d c .nil z X)) (s.treeTransplant z X.root) X.root (s.parent z)
      (s.color z) path X := by
  obtain ⟨shape, within, maxEnd⟩ := treeTransplant_shape h.toHasShape
  obtain ⟨c', n, here, hole⟩ := Hole.of_fill balanced
  obtain ⟨red, black⟩ := balance_without here hole
  obtain ⟨tops, topsP⟩ := tops_fill.mp h.tops
  rw [h.color]
  refine ⟨shape, rfl, h.parent.symm, ?_, ?_, ?_, within, red, black⟩
  · rw [within.stopAt, maxEnd]
    exact (tops_join.mp tops).2.2
  · intro hop member
    rw [within.stopAt, maxEnd]
    exact TopsBeside.of_along topsP hop member
  · rw [nodes_fill, nodes_fill]
    cases d with
    | left =>
      exact ⟨before path, X.nodes ++ after path, by simp [join, nodes], by simp⟩
    | right =>
      exact ⟨before path ++ X.nodes, after path, by simp [join, nodes], by simp⟩

/-- The least node on the right of `z` is right below it. -/
theorem leavePlace_near (h : s.HasShape (fill path (.node c l z (.node cy .nil y ry)))) :
    s.leavePlace z y = (s, some y) ∧ ReadyFor s path c l ry z y := by
  have atZ : s.HasShape (fill path (join .left c l z (.node cy .nil y ry))) := h
  obtain ⟨rep, hp⟩ := rep_fill.mp h.rep
  obtain ⟨colorZ, parentZ, leftZ, -, repL, repY⟩ := rep
  obtain ⟨-, parentY, -, rightY, -, repR⟩ := repY
  refine ⟨by rw [leavePlace, if_pos parentY], parentZ, atZ.hangs, colorZ, leftZ, rightY, repL, repR,
    hp, fun nonempty => ?_⟩
  rw [h.root]
  cases path with
  | nil => exact absurd rfl nonempty
  | cons hop rest => exact root_fill ..

/-- A node that is not in the tree is given what is on the right of `z`. -/
theorem hooked (h : s.HasShape (fill path (join .left c l z R)))
    (outside : y ∉ (fill path (join .left c l z R)).nodes)
    (moved : (s.setKid .right y R.root).setParentIf R.root (some y) = t) :
    ReadyFor t path c l R z y ∧ t = { s with kid := t.kid, parent := t.parent } ∧
      ∀ a, a ≠ y → R.root ≠ some a → SameAt s.toTreeLinks t.toTreeLinks a := by
  have perm := nodes_focus path .left c l z R
  have distinct := perm.nodup_iff.mp h.nodup
  have apartY := mt perm.mem_iff.mpr outside
  simp only [nodup_cons, nodup_append, mem_append, mem_cons, not_or] at distinct apartY
  obtain ⟨⟨zl, zR, zp⟩, -, ⟨nodupR, -, apart⟩, apartL⟩ := distinct
  obtain ⟨yz, yl, yR, yp⟩ := apartY
  obtain ⟨⟨colorZ, parentZ, leftZ, -, repL, repR⟩, hp⟩ := rep_fill.mp h.rep
  have kids : ∀ e a, t.kid e a = if a = y ∧ e = .right then R.root else s.kid e a := by
    intro e a
    rw [← setKid_kid, ← moved]
    cases R.root <;> rfl
  have parents : ∀ a, t.parent a = if R.root = some a then some y else s.parent a := by
    intro a
    rw [← moved, setParentIf_parent]
    rfl
  have same : t = { s with kid := t.kid, parent := t.parent } := by
    rw [← moved]
    cases R.root <;> rfl
  have colors : t.color = s.color := by rw [same]
  have keeps : ∀ a, a ≠ y → R.root ≠ some a → SameAt s.toTreeLinks t.toTreeLinks a := by
    intro a ay aR
    refine ⟨fun e => ?_, ?_, congrFun colors a⟩
    · rw [kids, if_neg fun eq => ay eq.1]
    · rw [parents, if_neg aR]
  have keepsZ := keeps z (Ne.symm yz) fun eq => zR (root_mem eq)
  have onPath : ∀ a ∈ along path, SameAt s.toTreeLinks t.toTreeLinks a := fun a ha =>
    keeps a (fun eq => yp (eq ▸ ha)) fun eq => apart a (root_mem eq) a ha rfl
  refine ⟨⟨?_, ?_, ?_, ?_, ?_, ?_, ?_, hp.congr onPath, ?_⟩, same, keeps⟩
  · rw [keepsZ.2.1, parentZ]
  · intro e a there
    obtain ⟨kid, -, -⟩ := onPath a (slot_mem there)
    rw [kid, kid]
    exact h.hangs e a there
  · rw [keepsZ.2.2, colorZ]
  · rw [keepsZ.1, leftZ]
  · rw [kids, if_pos ⟨rfl, rfl⟩]
  · exact repL.congr fun a ha => keeps a (fun eq => yl (eq ▸ ha)) fun eq =>
      apartL a ha a (.inl (root_mem eq)) rfl
  · refine repR.reparent nodupR (fun a ha => ⟨fun e => ?_, congrFun colors a⟩) (fun a root => ?_)
      fun a ha notRoot => ?_
    · have ay : a ≠ y := fun eq => yR (eq ▸ ha)
      rw [kids, if_neg fun eq => ay eq.1]
    · rw [parents, if_pos root]
    · rw [parents, if_neg notRoot]
  · intro nonempty
    have root : t.regionsTreeRoot = s.regionsTreeRoot := by rw [same]
    rw [root, h.root]
    cases path with
    | nil => exact absurd rfl nonempty
    | cons hop rest => exact root_fill ..

/-- The least node on the right of `z` is further down. -/
theorem leavePlace_far
    (h : s.HasShape (fill (hop :: low ++ ⟨.right, c, z, l⟩ :: path) (.node cy .nil y ry))) :
    (s.leavePlace z y).2 = some hop.node ∧
      ReadyFor (s.leavePlace z y).1 path c l (fill (hop :: low) ry) z y ∧
      Within (fill (hop :: low ++ ⟨.right, c, z, l⟩ :: path) (.node cy .nil y ry)).nodes s
        (s.leavePlace z y).1 ∧ (s.leavePlace z y).1.maxEnd = s.maxEnd := by
  have atY : s.HasShape (fill (hop :: low ++ ⟨.right, c, z, l⟩ :: path) (join .left cy .nil y ry)) := h
  have parentY : s.parent y = some hop.node := atY.parent
  have rightY : s.kid .right y = ry.root := atY.kids.2
  obtain ⟨shape, within, maxEnd⟩ := treeTransplant_shape atY
  have whole : fill (hop :: low ++ ⟨.right, c, z, l⟩ :: path) ry =
      fill path (join .left c l z (fill (hop :: low) ry)) := fill_append ..
  have without := nodes_fill_single (hop :: low ++ ⟨.right, c, z, l⟩ :: path) .left cy y ry
  rw [whole] at shape without
  -- `y` is no longer in the tree
  have outside := (nodup_cons.mp (without.nodup_iff.mp atY.nodup)).1
  have perm := nodes_focus path .left c l z (fill (hop :: low) ry)
  have inR : hop.node ∈ (fill (hop :: low) ry).nodes :=
    (nodes_fill_perm _ _).mem_iff.mpr (by simp [along])
  have inT : ∀ a, a = y ∨ a ∈ (fill (hop :: low) ry).nodes →
      a ∈ (fill (hop :: low ++ ⟨.right, c, z, l⟩ :: path) (.node cy .nil y ry)).nodes := by
    intro a either
    refine without.mem_iff.mpr (mem_cons.mpr (either.imp_right fun member => ?_))
    exact perm.mem_iff.mpr (by simp [member])
  generalize fill (hop :: low) ry = R at *
  have notZ : s.parent y ≠ some z := by
    rw [parentY]
    have zR := (nodup_cons.mp (perm.nodup_iff.mp shape.nodup)).1
    exact fun eq => zR (Option.some.inj eq ▸ by simp [inR])
  have out : s.leavePlace z y = (((s.treeTransplant y ry.root).setKid .right y R.root).setParentIf
      R.root (some y), some hop.node) := by
    have rightZ : (s.treeTransplant y ry.root).kid .right z = R.root := shape.kids.2
    have atRight : ∀ r : RegionState, (r.setKid .right y R.root).kid .right y = R.root := by
      intro r
      rw [setKid_kid, if_pos ⟨rfl, rfl⟩]
    rw [leavePlace, if_neg notZ]
    simp only [rightY, parentY, rightZ, atRight]
  rw [out]
  obtain ⟨ready, same, keeps⟩ := hooked shape outside rfl
  refine ⟨rfl, ready, within.trans ⟨by rw [same], fun q away => ⟨keeps q
    (fun eq => away (inT q (.inl eq))) fun eq => away (inT q (.inr (root_mem eq))), ?_⟩⟩, ?_⟩
  · rw [same]
  · rw [← maxEnd, same]

/-- The least node on the right of `z` takes its place. -/
theorem takenOut_two (h : s.HasTree (fill path (.node c l z (fill low (.node cy .nil y ry)))))
    (balanced : (fill path (.node c l z (fill low (.node cy .nil y ry)))).Balanced .black m)
    (least : before low = []) :
    TakenOut s z (fill path (.node c l z (fill low (.node cy .nil y ry))))
      ((s.leavePlace z y).1.takePlace z y) (s.kid .right y) (s.leavePlace z y).2 (s.color y)
      (low ++ ⟨.right, c, y, l⟩ :: path) ry := by
  have whole : fill path (.node c l z (fill low (.node cy .nil y ry))) =
      fill (low ++ ⟨.right, c, z, l⟩ :: path) (.node cy .nil y ry) := by
    rw [fill_append]
    rfl
  have atY : s.HasTree (fill (low ++ ⟨.right, c, z, l⟩ :: path) (join .left cy .nil y ry)) :=
    whole ▸ h
  obtain ⟨parentX, ready, left, maxEnd⟩ :
      (s.leavePlace z y).2 = above (low ++ ⟨.right, c, y, l⟩ :: path) ∧
      ReadyFor (s.leavePlace z y).1 path c l (fill low ry) z y ∧
      Within (fill path (.node c l z (fill low (.node cy .nil y ry)))).nodes s
        (s.leavePlace z y).1 ∧
      (s.leavePlace z y).1.maxEnd = s.maxEnd := by
    cases low with
    | nil =>
      obtain ⟨out, ready⟩ := leavePlace_near h.toHasShape
      rw [out]
      exact ⟨rfl, ready, .refl, rfl⟩
    | cons hop low =>
      rw [whole]
      exact leavePlace_far atY.toHasShape
  have whole' : fill (low ++ ⟨.right, c, y, l⟩ :: path) ry =
      fill path (.node c l y (fill low ry)) := by
    rw [fill_append]
    rfl
  have perm : (fill path (.node c l z (fill low (.node cy .nil y ry)))).nodes.Perm
      (z :: y :: (l.nodes ++ ((fill low ry).nodes ++ along path))) := by
    have below := (nodes_fill_single low .left cy y ry).append_right (along path)
    have here := (below.append_left l.nodes).trans perm_middle
    exact (nodes_focus path .left c l z _).trans (here.cons z)
  obtain ⟨zFresh, nodup⟩ := nodup_cons.mp (perm.nodup_iff.mp h.nodup)
  have zp : z ∉ along path := fun member => zFresh (by simp [member])
  obtain ⟨shape, placed, maxEnd'⟩ := ready.takePlace nodup zp
  have within := left.trans (placed.mono fun a member =>
    perm.mem_iff.mpr (mem_cons_of_mem z member))
  obtain ⟨tops, topsP⟩ := tops_fill.mp atY.tops
  obtain ⟨c', n, here, hole⟩ := Hole.of_fill (whole ▸ balanced)
  obtain ⟨red, black⟩ := balance_without (d := .left) here hole.rename
  have rightY : s.kid .right y = ry.root := atY.kids.2
  rw [rightY, atY.color, parentX]
  refine ⟨whole' ▸ shape, rfl, rfl, ?_, ?_, ?_, within, red, black⟩
  · rw [within.stopAt, maxEnd', maxEnd]
    exact (tops_join.mp tops).2.2
  · intro hop member
    rw [within.stopAt, maxEnd', maxEnd]
    have beside := TopsBeside.of_along topsP
    rcases mem_append.mp member with member | member
    · exact beside hop (mem_append_left _ member)
    rcases mem_cons.mp member with rfl | member
    · exact beside ⟨.right, c, z, l⟩ (by simp)
    · exact beside hop (mem_append_right _ (mem_cons_of_mem _ member))
  · refine ⟨before path ++ l.nodes, y :: (ry.nodes ++ after low ++ after path), ?_, ?_⟩
    · rw [nodes_fill, nodes, nodes_fill, least]
      simp [nodes]
    · rw [whole', nodes_fill, nodes, nodes_fill, least]
      simp

theorem takeOut_spec (h : s.HasTree T) (balanced : T.Balanced .black m) (member : z ∈ T.nodes) :
    Returns (s.takeOut z) fun out => ∃ path X,
      TakenOut s z T out.1 out.2.1 out.2.2.1 out.2.2.2 path X := by
  obtain ⟨path, c, l, r, rfl⟩ := exists_fill member
  have atZ : s.HasTree (fill path (join .left c l z r)) := h
  have left : s.kid .left z = l.root := atZ.kids.1
  have right : s.kid .right z = r.root := atZ.kids.2
  unfold takeOut
  rw [left, right]
  cases l with
  | nil => exact .pure ⟨path, r, takenOut_one (d := .left) h balanced⟩
  | node c₁ l₁ a₁ r₁ =>
    cases r with
    | nil => exact .pure ⟨path, _, takenOut_one (d := .right) h balanced⟩
    | node c₂ l₂ a₂ r₂ =>
      have atR : s.HasShape (fill (⟨.right, c, z, .node c₁ l₁ a₁ r₁⟩ :: path)
        (.node c₂ l₂ a₂ r₂)) := h.toHasShape
      refine .bind (treeMinimum_spec atR rfl) ?_
      rintro y ⟨low, cy, ry, found, least⟩
      rw [found] at h balanced ⊢
      exact .pure ⟨_, ry, takenOut_two h balanced least⟩

/-- `tree_remove` takes out one node, wherever it is. -/
theorem treeRemove_spec (h : s.HasTree T) (balanced : T.Balanced .black m) (member : z ∈ T.nodes) :
    Returns (s.treeRemove z) fun t => ∃ T' m', t.HasTree T' ∧ T'.Balanced .black m' ∧
      (∃ xs ys, T.nodes = xs ++ z :: ys ∧ T'.nodes = xs ++ ys) ∧ Within T.nodes s t := by
  refine .bind (takeOut_spec h balanced member) ?_
  rintro ⟨t, x, xParent, color⟩ ⟨path, X, out⟩
  obtain ⟨shape, rfl, rfl, tops, beside, nodes, within, red, black⟩ := out
  refine .bind (updateUp_spec shape tops beside) ?_
  rintro u ⟨tree, retopped⟩
  have sub : (fill path X).nodes ⊆ T.nodes := by
    obtain ⟨xs, ys, before, after⟩ := nodes
    rw [before, after]
    simp
  have soFar := within.trans (retopped.within.mono sub)
  cases color with
  | red =>
    obtain ⟨m', balanced'⟩ := red rfl
    exact .pure ⟨_, m', tree, balanced', nodes, soFar⟩
  | black =>
    obtain ⟨n, hole, short⟩ := black rfl
    refine (deleteFixup_spec tree hole short).mono ?_
    rintro v ⟨T', m', reshaped, balanced'⟩
    exact ⟨T', m', reshaped.tree, balanced', reshaped.nodes ▸ nodes,
      soFar.trans (reshaped.within.mono sub)⟩

end RegionState

end BharatOS
