import BharatOS.Vm.Region
import Mathlib.Order.Nat

/-!
# The tree of regions stays a red-black tree

Each function of the tree is followed from one represented tree to the next, seen at the place
where it works.
-/

namespace BharatOS

open Function Option List

open ColorTree TreeLinks Prog

namespace RegionState

variable {s t u : RegionState} {d : ChildSide} {path : List (Hop RegionPtr)}

/-! ## Fields after an assignment -/

variable {a p : RegionPtr} {q : Option RegionPtr}

theorem setKid_kid {e : ChildSide} :
    (s.setKid d p q).kid e a = if a = p ∧ e = d then q else s.kid e a := by
  by_cases side : e = d
  · subst side
    simp [setKid, update_apply]
  · simp [setKid, side]

theorem setParent_parent : (s.setParent p q).parent a = if a = p then q else s.parent a := by
  simp [setParent, update_apply]

theorem setParentIf_parent {p : Option RegionPtr} :
    (s.setParentIf p q).parent a = if p = some a then q else s.parent a := by
  cases p with
  | none => rfl
  | some p => simp [setParentIf, setParent_parent, eq_comm]

theorem setColor_color {c : Color} : (s.setColor p c).color a = if a = p then c else s.color a := by
  simp [setColor, update_apply]

/-- The end of the region at a node. -/
def stopAt (s : RegionState) (p : RegionPtr) : Nat := (s.region p).stop

theorem updateMaxEnd_maxEnd (s : RegionState) (d : ChildSide) (p a : RegionPtr) :
    (s.updateMaxEnd p).maxEnd a = if a = p then
      max (s.stopAt p) (max ((s.kid d p).elim ⊥ s.maxEnd) ((s.kid d.other p).elim ⊥ s.maxEnd))
      else s.maxEnd a := by
  have value : (s.updateMaxEnd p).maxEnd p = max (s.stopAt p)
      (max ((s.kid .left p).elim ⊥ s.maxEnd) ((s.kid .right p).elim ⊥ s.maxEnd)) := by
    unfold updateMaxEnd stopAt
    cases s.kid .left p <;> cases s.kid .right p <;>
      grind
  split_ifs with here
  · subst here
    rw [value]
    cases d with
    | left => rfl
    | right => rw [ChildSide.other, max_comm ((s.kid .left a).elim ⊥ s.maxEnd)]
  · simp [updateMaxEnd, here]

/-- Only links change, the greatest ends and the root, and links only at the given nodes. -/
structure Within (nodes : List RegionPtr) (s t : RegionState) : Prop where
  same : t = { s with
    toTreeLinks := t.toTreeLinks
    maxEnd := t.maxEnd
    regionsTreeRoot := t.regionsTreeRoot }
  links : ∀ q, q ∉ nodes → SameAt s.toTreeLinks t.toTreeLinks q ∧ t.maxEnd q = s.maxEnd q

namespace Within

variable {nodes : List RegionPtr}

theorem refl : Within nodes s s := ⟨rfl, fun _ _ => ⟨⟨fun _ => rfl, rfl, rfl⟩, rfl⟩⟩

section

variable (h : Within nodes s t)

include h

theorem trans (h' : Within nodes t u) : Within nodes s u where
  same := by rw [h'.same, h.same]
  links q out := by
    obtain ⟨⟨kids, parent, color⟩, maxEnd⟩ := h.links q out
    obtain ⟨⟨kids', parent', color'⟩, maxEnd'⟩ := h'.links q out
    exact ⟨⟨fun d => (kids' d).trans (kids d), parent'.trans parent, color'.trans color⟩,
      maxEnd'.trans maxEnd⟩

theorem mono {more : List RegionPtr} (sub : nodes ⊆ more) :
    Within more s t := ⟨h.same, fun q out => h.links q fun member => out (sub member)⟩

theorem region : t.region = s.region := by rw [h.same]

theorem stopAt : t.stopAt = s.stopAt := by
  unfold RegionState.stopAt
  rw [h.region]

end

end Within

/-- The tree but for the greatest ends. -/
structure HasShape (s : RegionState) (T : ColorTree RegionPtr) : Prop where
  root : s.regionsTreeRoot = T.root
  rep : s.toTreeLinks.Rep none T
  nodup : T.nodes.Nodup

structure HasTree (s : RegionState) (T : ColorTree RegionPtr) : Prop extends HasShape s T where
  tops : T.Tops s.stopAt s.maxEnd

/-- From the tree `T` to the tree `T'` on the same nodes in the same order. -/
structure Reshaped (s : RegionState) (T : ColorTree RegionPtr) (t : RegionState)
    (T' : ColorTree RegionPtr) : Prop where
  tree : t.HasTree T'
  nodes : T'.nodes = T.nodes
  within : Within T.nodes s t

variable {T A B : ColorTree RegionPtr} {x a : RegionPtr} {c : Color}

theorem Reshaped.refl (h : s.HasTree T) : Reshaped s T s T := ⟨h, rfl, .refl⟩

theorem Reshaped.trans {T' T'' : ColorTree RegionPtr} (h : Reshaped s T t T')
    (h' : Reshaped t T' u T'') : Reshaped s T u T'' :=
  ⟨h'.tree, h'.nodes.trans h.nodes, h.within.trans (h.nodes ▸ h'.within)⟩

/-! ## Rotations -/

/-- `x` hangs where the path begins. -/
def Hangs (s : RegionState) (path : List (Hop RegionPtr)) (x : RegionPtr) : Prop :=
  ∀ e a, slot path = some (e, a) → s.kid e a = some x ∧ s.kid e.other a ≠ some x

theorem hangs_of_rep (h : s.toTreeLinks.RepPath path (some x)) (away : x ∉ along path) :
    s.Hangs path x := by
  intro e a there
  cases path with
  | nil => cases there
  | cons hop rest =>
    cases there
    obtain ⟨-, -, kid, far, -, -⟩ := h
    refine ⟨kid, fun eq => away ?_⟩
    have member := root_mem (far.symm.trans eq)
    simp [along, member]

theorem replaceKid_eq {y : Option RegionPtr} (h : s.Hangs path x) :
    s.replaceKid d (above path) x y = { s with
      kid := fun e a => if slot path = some (e, a) then y else s.kid e a
      regionsTreeRoot := if path = [] then y else s.regionsTreeRoot } := by
  cases path with
  | nil => simp [replaceKid, above, slot]
  | cons hop rest =>
    obtain ⟨here, apart⟩ := h hop.side hop.node rfl
    have same : ∀ e, e = hop.side → s.setKid e hop.node y = { s with
        kid := fun e a => if slot (hop :: rest) = some (e, a) then y else s.kid e a
        regionsTreeRoot := if hop :: rest = [] then y else s.regionsTreeRoot } := by
      rintro e rfl
      have kids : (s.setKid hop.side hop.node y).kid =
          fun e a => if slot (hop :: rest) = some (e, a) then y else s.kid e a := by
        funext e a
        rw [setKid_kid]
        simp only [slot, head?_cons, map_some, some.injEq, Prod.mk.injEq]
        congr 1
        exact propext (and_comm.trans (and_congr eq_comm eq_comm))
      rw [← kids]
      rfl
    simp only [replaceKid, above, head?_cons, map_some]
    rcases hop.side.eq_or_other d with rfl | rfl
    · rw [if_pos here]
      exact same _ rfl
    · rw [if_neg apart]
      exact same _ (ChildSide.other_other _)

theorem root_fill_eq (path : List (Hop RegionPtr)) (T T' : ColorTree RegionPtr) :
    (if path = [] then T'.root else (fill path T).root) = (fill path T').root := by
  cases path with
  | nil => rfl
  | cons hop rest => exact root_fill hop rest T T'

/-- The links after a rotation, before the greatest ends are computed again. -/
def relinked (d : ChildSide) (s : RegionState) (x y : RegionPtr) : RegionState :=
  let s := s.setKid d.other x (s.kid d y)
  let s := s.setParentIf (s.kid d y) (some x)
  let s := s.setParent y (s.parent x)
  let s := s.replaceKid d (s.parent x) x (some y)
  let s := s.setKid d y (some x)
  s.setParent x (some y)

variable {y : RegionPtr} {nodes : List RegionPtr}

theorem relinked_spec (xy : x ≠ y) (parentX : s.parent x = above path) (hangs : s.Hangs path x)
    (xp : x ∉ along path) (kidB : s.kid d y ≠ some x) :
    relinked d s x y = { s with
      kid := (relinked d s x y).kid
      parent := (relinked d s x y).parent
      regionsTreeRoot := if path = [] then some y else s.regionsTreeRoot } ∧
    (∀ e a, (relinked d s x y).kid e a = if a = y ∧ e = d then some x
      else if slot path = some (e, a) then some y
      else if a = x ∧ e = d.other then s.kid d y else s.kid e a) ∧
    ∀ a, (relinked d s x y).parent a = if a = x then some y else if a = y then above path
      else if s.kid d y = some a then some x else s.parent a := by
  unfold relinked
  have same : (s.setKid d.other x (s.kid d y)).kid d y = s.kid d y := by
    rw [setKid_kid, if_neg fun eq => d.ne_other eq.2]
  generalize first : s.setKid d.other x (s.kid d y) = s₁ at same
  have parent₁ : s₁.parent = s.parent := by rw [← first]; rfl
  simp only [same]
  generalize second : s₁.setParentIf (s.kid d y) (some x) = s₂
  have parent₂ : s₂.parent x = above path := by
    rw [← second, setParentIf_parent, if_neg kidB, parent₁, parentX]
  rw [parent₂]
  have parent₃ : (s₂.setParent y (above path)).parent x = above path := by
    rw [setParent_parent, if_neg xy, parent₂]
  generalize third : s₂.setParent y (above path) = s₃ at parent₃
  have kid₃ : s₃.kid = s₁.kid := by
    rw [← third, ← second]
    cases s.kid d y <;> rfl
  have same₃ : s₃ = { s with kid := s₃.kid, parent := s₃.parent } := by
    rw [← third, ← second, ← first]
    cases s.kid d y <;> rfl
  have hangs₃ : s₃.Hangs path x := by
    intro e a there
    have ax : a ≠ x := fun eq => xp (eq ▸ slot_mem there)
    have kid : ∀ e, s₃.kid e a = s.kid e a := fun e => by
      rw [kid₃, ← first, setKid_kid, if_neg fun eq => ax eq.1]
    rw [kid, kid]
    exact hangs e a there
  rw [parent₃, replaceKid_eq hangs₃]
  refine ⟨?_, fun e a => ?_, fun a => ?_⟩
  · rw [same₃]
    rfl
  · change (setKid _ d y (some x)).kid e a = _
    simp only [kid₃, ← first, setKid_kid]
  · rw [setParent_parent]
    change (if a = x then some y else s₃.parent a) = _
    rw [← third, setParent_parent, ← second, setParentIf_parent, parent₁]

variable {c' : Color} {C : ColorTree RegionPtr}

/-- The two computations at the end of a rotation. -/
theorem updateMaxEnd_turned
    (rep : s.toTreeLinks.Rep none (fill path (join d c' (join d c A x B) y C))) (xy : x ≠ y)
    (xC : x ∉ C.nodes) (topsA : A.Tops s.stopAt s.maxEnd) (topsB : B.Tops s.stopAt s.maxEnd)
    (topsC : C.Tops s.stopAt s.maxEnd) (t : RegionState)
    (ht : t = (s.updateMaxEnd x).updateMaxEnd y) :
    t.maxEnd x = (join d c A x B).sup s.stopAt ∧
    t.maxEnd y = (join d c' (join d c A x B) y C).sup s.stopAt ∧
    ∀ a, a ≠ x → a ≠ y → t.maxEnd a = s.maxEnd a := by
  obtain ⟨-, -, kidX, kidC, repX, -⟩ := rep_join.mp (rep_fill.mp rep).1
  obtain ⟨-, -, kidA, kidB, -, -⟩ := rep_join.mp repX
  rw [root_join] at kidX
  have maxX : ∀ a, (s.updateMaxEnd x).maxEnd a =
      if a = x then (join d c A x B).sup s.stopAt else s.maxEnd a := by
    intro a
    rw [updateMaxEnd_maxEnd s d, kidA, kidB, topsA.root, topsB.root, sup_join]
  have far : (C.root.elim ⊥ (s.updateMaxEnd x).maxEnd) = C.sup s.stopAt := by
    rw [← topsC.root]
    cases found : C.root with
    | none => rfl
    | some q =>
      have qx : q ≠ x := fun eq => xC (eq ▸ root_mem found)
      simp only [elim_some, maxX, if_neg qx]
  have maxY : ∀ a, t.maxEnd a = if a = y then (join d c' (join d c A x B) y C).sup s.stopAt
      else (s.updateMaxEnd x).maxEnd a := by
    intro a
    rw [ht, updateMaxEnd_maxEnd _ d]
    change (if a = y then max (s.stopAt y) (max ((s.kid d y).elim ⊥ (s.updateMaxEnd x).maxEnd)
      ((s.kid d.other y).elim ⊥ (s.updateMaxEnd x).maxEnd)) else _) = _
    rw [kidX, kidC, far, elim_some, maxX, if_pos rfl, sup_join (a := y)]
  refine ⟨?_, ?_, fun a ax ay => ?_⟩
  · rw [maxY, if_neg xy, maxX, if_pos rfl]
  · rw [maxY, if_pos rfl]
  · rw [maxY, if_neg ay, maxX, if_neg ax]

theorem rotate_spec (h : s.HasTree (fill path (join d c A x (join d c' B y C)))) :
    Returns (rotate d s x) fun t => Reshaped s (fill path (join d c A x (join d c' B y C))) t
      (fill path (join d c' (join d c A x B) y C)) := by
  obtain ⟨rep, hp⟩ := rep_fill.mp h.rep
  obtain ⟨-, parentX, -, kidY, -, repY⟩ := rep_join.mp rep
  obtain ⟨-, -, kidB, -⟩ := rep_join.mp repY
  rw [root_join] at kidY hp
  have perm := nodes_focus_pair path d c c' A B C x y
  have distinct := perm.nodup_iff.mp h.nodup
  simp only [nodup_cons, mem_cons, mem_append, nodup_append, not_or] at distinct
  obtain ⟨⟨xy, xA, xB, xC, xp⟩, -⟩ := distinct
  have notX : s.kid d y ≠ some x := fun eq => xB (root_mem (kidB.symm.trans eq))
  obtain ⟨same, kids, parents⟩ := relinked_spec xy parentX (hangs_of_rep hp xp) xp notX
  refine .bind (.deref (Q := (y = ·)) kidY rfl) ?_
  rintro _ rfl
  refine .pure ?_
  change Reshaped s _ (((relinked d s x y).updateMaxEnd x).updateMaxEnd y) _
  generalize relinked d s x y = r at same kids parents
  have colors : r.color = s.color := by rw [same]
  have turned := h.rep.rotate h.nodup kids parents colors
  have stops : r.stopAt = s.stopAt := by rw [same]; rfl
  have maxEnds : r.maxEnd = s.maxEnd := by rw [same]
  have tops := h.tops
  rw [← stops, ← maxEnds] at tops
  obtain ⟨-, topsA, topsY⟩ := tops_join.mp (tops_fill.mp tops).1
  obtain ⟨-, topsB, topsC⟩ := tops_join.mp topsY
  obtain ⟨atX, atY, others⟩ := updateMaxEnd_turned turned xy xC topsA topsB topsC _ rfl
  have nodes := nodes_fill_congr path (nodes_rotate d c c' A B C x y)
  refine ⟨⟨⟨?_, turned, nodes ▸ h.nodup⟩, tops.rotate h.nodup atX atY others⟩, nodes, ?_,
    fun q out => ?_⟩
  · change r.regionsTreeRoot = _
    rw [same]
    rw [h.root, ← root_fill_eq path (join d c A x (join d c' B y C))
      (join d c' (join d c A x B) y C), root_join]
  · rw [same]
    rfl
  · simp only [perm.mem_iff, mem_cons, mem_append, not_or] at out
    obtain ⟨qx, qy, -, qB, -, qp⟩ := out
    have notQ : s.kid d y ≠ some q := fun eq => qB (root_mem (kidB.symm.trans eq))
    refine ⟨⟨fun e => ?_, ?_, congrFun colors q⟩, (others q qx qy).trans (congrFun maxEnds q)⟩
    · change r.kid e q = s.kid e q
      rw [kids, if_neg fun eq => qy eq.1, if_neg fun eq => qp (slot_mem eq),
        if_neg fun eq => qx eq.1]
    · change r.parent q = s.parent q
      rw [parents, if_neg qx, if_neg qy, if_neg notQ]

/-! ## Colours -/

theorem HasTree.setColor (h : s.HasTree (fill path (join d c A a B))) (c' : Color) :
    Reshaped s (fill path (join d c A a B)) (s.setColor a c') (fill path (join d c' A a B)) := by
  have nodes : (fill path (join d c' A a B)).nodes = (fill path (join d c A a B)).nodes :=
    nodes_fill_congr path (by cases d <;> rfl)
  refine ⟨⟨⟨?_, ?_, nodes ▸ h.nodup⟩, ?_⟩, nodes, rfl, fun q out => ⟨⟨fun _ => rfl, rfl, ?_⟩, rfl⟩⟩
  · change s.regionsTreeRoot = _
    rw [h.root, ← root_fill_eq path (join d c A a B) (join d c' A a B)]
    cases path with
    | nil => simp [fill]
    | cons hop rest => rfl
  · refine h.rep.recolor h.nodup rfl rfl ?_ fun b away => ?_
    · rw [setColor_color, if_pos rfl]
    · rw [setColor_color, if_neg away]
  · obtain ⟨tops, topsP⟩ := tops_fill.mp h.tops
    refine tops_fill.mpr ⟨tops_join.mpr (tops_join.mp tops), ?_⟩
    rw [sup_join] at topsP ⊢
    exact topsP
  · rw [setColor_color, if_neg]
    rintro rfl
    exact out ((nodes_focus path d c A q B).mem_iff.mpr mem_cons_self)

theorem isRed_root {up : Option RegionPtr} {n : Nat} (rep : s.toTreeLinks.Rep up T)
    (balanced : T.Balanced c n) : s.isRed T.root = true ↔ c = .red := by
  cases balanced with
  | nil => simp [root, isRed]
  | red | black => simp [root, isRed, rep.1]

theorem HasShape.hangs (h : s.HasShape (fill path (join d c A a B))) : s.Hangs path a := by
  obtain ⟨-, hp⟩ := rep_fill.mp h.rep
  rw [root_join] at hp
  have distinct := nodup_focus h.nodup
  simp only [nodup_cons, mem_append, not_or] at distinct
  exact hangs_of_rep hp distinct.1.2.2

/-- On which side a node hangs. -/
theorem Hangs.side {g : RegionPtr} (h : s.Hangs path p) (there : slot path = some (d, g)) :
    (if s.kid .left g = some p then ChildSide.left else .right) = d := by
  obtain ⟨here, apart⟩ := h d g there
  cases d with
  | left => rw [if_pos here]
  | right => exact if_neg apart

section

variable (h : s.HasShape (fill path (join d c A a B)))

include h

theorem HasShape.parent : s.parent a = above path := (rep_join.mp (rep_fill.mp h.rep).1).2.1

theorem HasShape.color : s.color a = c := (rep_join.mp (rep_fill.mp h.rep).1).1

theorem HasShape.kids : s.kid d a = A.root ∧ s.kid d.other a = B.root := by
  obtain ⟨-, -, near, far, -, -⟩ := rep_join.mp (rep_fill.mp h.rep).1
  exact ⟨near, far⟩

end

/-- The same tree, seen at the subtree on the other side. -/
theorem fill_other : fill path (join d c A a B) = fill (⟨d.other, c, a, A⟩ :: path) B := by
  rw [fill, join_other]

/-! ## Greatest ends up to the root -/

/-- Below the path the greatest ends are right. -/
def TopsBeside (s : RegionState) (path : List (Hop RegionPtr)) : Prop :=
  ∀ hop ∈ path, hop.sibling.Tops s.stopAt s.maxEnd

theorem TopsBeside.of_along {v : Nat} (h : TopsAlong s.stopAt s.maxEnd path v) : s.TopsBeside path := by
  induction path generalizing v with
  | nil => exact nofun
  | cons hop rest ih =>
    intro hop' member
    rcases mem_cons.mp member with rfl | member
    · exact h.2.1
    · exact ih h.2.2 hop' member

theorem updateMaxEnd_step {hop : Hop RegionPtr} {rest : List (Hop RegionPtr)}
    (h : s.HasShape (fill (hop :: rest) T)) (tops : T.Tops s.stopAt s.maxEnd)
    (beside : s.TopsBeside (hop :: rest)) :
    (join hop.side hop.color T hop.node hop.sibling).Tops s.stopAt
        (s.updateMaxEnd hop.node).maxEnd ∧ (s.updateMaxEnd hop.node).TopsBeside rest := by
  obtain ⟨rep, -⟩ := rep_fill.mp (show s.toTreeLinks.Rep none
    (fill rest (join hop.side hop.color T hop.node hop.sibling)) from h.rep)
  obtain ⟨-, -, near, far, -, -⟩ := rep_join.mp rep
  have distinct := nodup_focus (show (fill rest (join hop.side hop.color T hop.node
    hop.sibling)).nodes.Nodup from h.nodup)
  simp only [nodup_cons, mem_append, not_or] at distinct
  obtain ⟨⟨notT, notSibling, notRest⟩, -⟩ := distinct
  have others : ∀ a, a ≠ hop.node → (s.updateMaxEnd hop.node).maxEnd a = s.maxEnd a := by
    intro a away
    rw [updateMaxEnd_maxEnd s hop.side, if_neg away]
  have sibling := beside hop mem_cons_self
  refine ⟨tops_join.mpr ⟨?_, ?_, ?_⟩, fun hop' member => ?_⟩
  · rw [updateMaxEnd_maxEnd s hop.side, if_pos rfl, near, far, tops.root, sibling.root]
  · exact tops.congr fun a ha => others a fun eq => notT (eq ▸ ha)
  · exact sibling.congr fun a ha => others a fun eq => notSibling (eq ▸ ha)
  · refine (beside hop' (mem_cons_of_mem _ member)).congr fun a ha => others a fun eq => ?_
    exact notRest (eq ▸ sibling_along member ha)

/-- Only the greatest ends of the nodes change. -/
structure Retopped (nodes : List RegionPtr) (s t : RegionState) : Prop where
  same : t = { s with maxEnd := t.maxEnd }
  others : ∀ q, q ∉ nodes → t.maxEnd q = s.maxEnd q

theorem Retopped.within (h : Retopped nodes s t) : Within nodes s t := by
  refine ⟨?_, fun q out => ⟨?_, h.others q out⟩⟩
  · rw [h.same]
  · rw [h.same]
    exact ⟨fun _ => rfl, rfl, rfl⟩

theorem Retopped.shape (h : Retopped nodes s t) (shape : s.HasShape T) : t.HasShape T := by
  rw [h.same]
  exact ⟨shape.root, shape.rep, shape.nodup⟩

theorem updateUp_spec (h : s.HasShape (fill path T)) (tops : T.Tops s.stopAt s.maxEnd)
    (beside : s.TopsBeside path) :
    Returns (s.updateUp (above path)) fun t => t.HasTree (fill path T) ∧
      Retopped (fill path T).nodes s t := by
  refine .loop (fun k now => ∃ path' T', fill path' T' = fill path T ∧ path'.length = k ∧
    now.2 = above path' ∧ Retopped (fill path T).nodes s now.1 ∧
    T'.Tops now.1.stopAt now.1.maxEnd ∧ now.1.TopsBeside path') ?_
    ⟨path, T, rfl, rfl, rfl, ⟨rfl, fun _ _ => rfl⟩, tops, beside⟩
  rintro k ⟨t, curr⟩ ⟨path', T', whole, rfl, rfl, retopped, tops', beside'⟩
  change Retopped _ s t at retopped
  have shape := retopped.shape h
  cases path' with
  | nil =>
    refine .pure ⟨⟨shape, ?_⟩, retopped⟩
    rw [← whole]
    exact tops'
  | cons hop rest =>
    rw [← whole] at shape
    obtain ⟨topsUp, besideUp⟩ := updateMaxEnd_step shape tops' beside'
    have parent : t.parent hop.node = above rest := (rep_fill.mp shape.rep).2.2.1
    refine .pure ⟨rest.length, by simp, rest,
      join hop.side hop.color T' hop.node hop.sibling, whole, rfl, parent, ⟨?_, ?_⟩, topsUp, besideUp⟩
    · rw [retopped.same]
      rfl
    · intro q out
      have away : q ≠ hop.node := by
        rintro rfl
        refine out (whole ▸ ?_)
        exact (nodes_fill_perm _ _).mem_iff.mpr (by simp [along])
      rw [← retopped.others q out, updateMaxEnd_maxEnd t hop.side, if_neg away]

end RegionState

end BharatOS
