import BharatOS.Vm.RegionRange

/-!
# Unmapping the tail of a region

The part of the region in the range is removed and freed, and then removed and freed once more. The
tree may not be a tree after that; the list is still the right one.
-/

namespace BharatOS

open VmRegion List

open Prog

namespace RegionState

variable {s t u : RegionState} {xs ys zs : List RegionPtr} {z new : RegionPtr} {a e : Nat}

/-! ## The tree is aside from the list -/

/-- All but the tree. -/
def aside (s : RegionState) :=
  (s.next, s.prev, s.region, s.live, s.kmallocs, s.regions, s.regionCount, s.state)

section

variable (s : RegionState) (d : ChildSide) (p : RegionPtr) (q up : Option RegionPtr) (c : Color)

@[simp] theorem setKid_aside : (s.setKid d p q).aside = s.aside := rfl

@[simp] theorem setParent_aside : (s.setParent p q).aside = s.aside := rfl

@[simp] theorem setColor_aside : (s.setColor p c).aside = s.aside := rfl

@[simp] theorem setParentIf_aside : (s.setParentIf q up).aside = s.aside := by
  cases q <;> rfl

@[simp] theorem setColorIf_aside : (s.setColorIf q c).aside = s.aside := by
  cases q <;> rfl

@[simp] theorem replaceKid_aside : (s.replaceKid d up p q).aside = s.aside := by
  cases up with
  | none => rfl
  | some g =>
    rw [replaceKid]
    split_ifs <;> rfl

@[simp] theorem updateMaxEnd_aside : (s.updateMaxEnd p).aside = s.aside := rfl

@[simp] theorem treeTransplant_aside : (s.treeTransplant p q).aside = s.aside := by
  simp [treeTransplant]

@[simp] theorem linkLeaf_aside : (s.linkLeaf p q).aside = s.aside := by
  cases q with
  | none => rfl
  | some y =>
    simp only [linkLeaf]
    split_ifs <;> rfl

end

variable {d : ChildSide} {p y : RegionPtr}

theorem rotate_aside {x : RegionPtr} : Yields (rotate d s x) fun t => t.aside = s.aside :=
  .bind (.deref _) fun _ _ => .pure (by simp)

theorem insertTurn_aside : Yields (s.insertTurn d z p) fun out => out.1.aside = s.aside := by
  unfold insertTurn
  split_ifs
  · exact .bind rotate_aside fun _ same => .pure same
  · exact .pure rfl

theorem insertFixupSide_aside {g : RegionPtr} :
    Yields (insertFixupSide d s z p g) fun out => out.1.aside = s.aside := by
  unfold insertFixupSide
  dsimp only
  split_ifs
  · exact .pure (by simp)
  refine .bind insertTurn_aside fun turned same => ?_
  refine .bind (.deref _) fun p _ => .bind (.deref _) fun g _ => ?_
  exact .bind rotate_aside fun _ same' => .pure (same'.trans (by simpa using same))

theorem insertFixup_aside : Yields (s.insertFixup z) fun t => t.aside = s.aside := by
  refine .bind (Q := (·.aside = s.aside)) (.loop (fun now => now.1.aside = s.aside) ?_ rfl) ?_
  · rintro ⟨t, z⟩ same
    unfold insertFixupRound
    dsimp only at same ⊢
    cases t.parent z with
    | none => exact .pure same
    | some p =>
      dsimp only
      split_ifs
      · exact .bind (.deref _) fun g _ => .bind insertFixupSide_aside fun _ same' =>
          .pure (same'.trans same)
      · exact .pure same
  · exact fun t same => .bind (.deref _) fun r _ => .pure same

theorem updateUp_aside {curr : Option RegionPtr} :
    Yields (s.updateUp curr) fun t => t.aside = s.aside := by
  refine .loop (fun now => now.1.aside = s.aside) ?_ rfl
  rintro ⟨t, curr⟩ same
  cases curr <;> exact .pure same

theorem treeInsert_aside : Yields (s.treeInsert z) fun t => t.aside = s.aside := by
  refine .bind (Q := fun _ => True) (fun _ _ _ => trivial) fun y _ => ?_
  refine .bind updateUp_aside fun t same => ?_
  exact (insertFixup_aside).mono fun u same' => same'.trans (same.trans (by simp))

theorem blackSibling_aside : Yields (s.blackSibling d p) fun out => out.1.aside = s.aside := by
  unfold blackSibling
  dsimp only
  split_ifs
  · exact .bind rotate_aside fun _ same => .pure (same.trans (by simp))
  · exact .pure rfl

theorem redNephew_aside {w : RegionPtr} :
    Yields (s.redNephew d p w) fun out => out.1.aside = s.aside := by
  unfold redNephew
  split_ifs
  · exact .pure rfl
  · exact .bind rotate_aside fun _ same => .pure (same.trans (by simp))

theorem deleteFixupSide_aside :
    Yields (s.deleteFixupSide d p) fun out => out.1.aside = s.aside := by
  refine .bind blackSibling_aside ?_
  rintro ⟨t, w⟩ same
  cases w with
  | none => exact .pure same
  | some w =>
    dsimp only at same ⊢
    split_ifs
    · exact .pure same
    refine .bind redNephew_aside ?_
    rintro ⟨u, w'⟩ same'
    refine .bind rotate_aside fun _ same'' => .pure (same''.trans ?_)
    cases w' <;> simpa using same'.trans same

theorem deleteFixup_aside {x xParent : Option RegionPtr} :
    Yields (s.deleteFixup x xParent) fun t => t.aside = s.aside := by
  refine .bind (Q := (·.1.aside = s.aside)) (.loop (fun now => now.1.aside = s.aside) ?_ rfl) ?_
  · rintro ⟨t, x, xParent⟩ same
    unfold deleteFixupRound
    dsimp only at same ⊢
    split_ifs
    · exact .bind (.deref _) fun p _ => .bind deleteFixupSide_aside fun _ same' =>
        .pure (same'.trans same)
    · exact .pure same
  · exact fun out same => .pure (by simpa using same)

theorem leavePlace_aside : (s.leavePlace z y).1.aside = s.aside := by
  unfold leavePlace
  split_ifs <;> simp

theorem takePlace_aside : (s.takePlace z y).aside = s.aside := by
  simp [takePlace]

theorem takeOut_aside : Yields (s.takeOut z) fun out => out.1.aside = s.aside := by
  unfold takeOut
  split
  · exact .pure (by simp)
  · exact .pure (by simp)
  refine .bind (Q := fun _ => True) (fun _ _ _ => trivial) fun y _ => .pure ?_
  exact (takePlace_aside).trans leavePlace_aside

theorem treeRemove_aside : Yields (s.treeRemove z) fun t => t.aside = s.aside := by
  refine .bind takeOut_aside ?_
  rintro ⟨t, x, xParent, color⟩ same
  refine .bind updateUp_aside fun u same' => ?_
  split_ifs
  · exact (deleteFixup_aside).mono fun v same'' => same''.trans (same'.trans same)
  · exact .pure (same'.trans same)

/-! ## The list stays in order -/

/-- A function that changes nothing but the tree does not change what is known of the list. -/
theorem InOrder.of_aside (h : s.InOrder zs) (same : t.aside = s.aside) : t.InOrder zs := by
  simp only [aside, Prod.mk.injEq] at same
  obtain ⟨next, prev, region, live, -, regions, -⟩ := same
  exact ⟨by simpa only [next, prev, regions] using h.list, by simpa only [region] using h.laid,
    by simpa only [live] using h.live⟩

theorem insertRegionSorted_inOrder (list : Listed s.next s.prev s.regions (xs ++ ys))
    (laid : Laid s.region (xs ++ new :: ys)) (live : ∀ p ∈ xs ++ new :: ys, s.live p = true) :
    Yields (s.insertRegionSorted new) fun t => t.InOrder (xs ++ new :: ys) ∧
      t.region = s.region := by
  refine .bind (.of_returns (listPlace_spec list laid)) ?_
  rintro _ rfl
  obtain ⟨list, relisted⟩ := linkBetween_spec list laid.nodup
  dsimp only
  generalize s.linkBetween new xs.getLast? ys.head? = r at list relisted ⊢
  have region : r.region = s.region := by rw [relisted.same]
  have order : r.InOrder (xs ++ new :: ys) := ⟨list, region ▸ laid, by rwa [relisted.same]⟩
  refine .bind treeInsert_aside fun t same => ?_
  have kept := order.of_aside same
  refine .pure ⟨⟨kept.list, kept.laid, kept.live⟩, ?_⟩
  simp only [aside, Prod.mk.injEq] at same
  exact same.2.2.1.trans region

theorem removeRegion_inOrder (h : s.InOrder (xs ++ z :: ys)) :
    Yields (s.removeRegion z) fun t => t.InOrder (xs ++ ys) ∧ t.region = s.region ∧
      t.next z = s.next z ∧ t.prev z = s.prev z := by
  obtain ⟨alone, -⟩ := nodup_cons.mp (nodup_middle.mp h.laid.nodup)
  refine .bind treeRemove_aside fun r same => ?_
  obtain ⟨list, relisted⟩ := unlinkRegion_spec (h.of_aside same).list h.laid.nodup
  simp only [aside, Prod.mk.injEq] at same
  obtain ⟨next, prev, region, live, -⟩ := same
  have unlinked := relisted.links z alone
  have region' : (r.unlinkRegion z).region = s.region := by rw [relisted.same, region]
  have live' : (r.unlinkRegion z).live = s.live := by rw [relisted.same, live]
  obtain ⟨count, dropped, -⟩ := r.dropRegion_eq z
  rw [dropped]
  refine .pure ⟨⟨list, ?_, fun p member => ?_⟩, region', unlinked.1.trans (congrFun next z),
    unlinked.2.trans (congrFun prev z)⟩
  · simp only [region']
    exact h.laid.remove
  · have other : p ≠ z := fun eq => alone (eq ▸ member)
    simp only [Function.update_of_ne other, live']
    exact h.live p (((sublist_cons_self z ys).append_left xs).subset member)

/-- A region that is out of the list already. -/
theorem removeRegion_removed (h : s.InOrder (xs ++ ys)) (removed : s.Removed xs z ys) :
    Yields (s.removeRegion z) fun t => t.InOrder (xs ++ ys) ∧ t.region = s.region := by
  refine .bind treeRemove_aside fun r same => ?_
  have order := h.of_aside same
  simp only [aside, Prod.mk.injEq] at same
  obtain ⟨nextEq, prevEq, region, -⟩ := same
  have next : r.next z = ys.head? := (congrFun nextEq z).trans removed.next
  have prev : r.prev z = xs.getLast? := (congrFun prevEq z).trans removed.prev
  have notLast : xs.getLast? ≠ some z := fun last =>
    removed.away (mem_append_left _ (mem_of_getLast? last))
  obtain ⟨count, dropped, -⟩ := r.dropRegion_eq z
  rw [dropped, unlinkRegion_eq (prev ▸ notLast), next, prev]
  refine .pure ⟨⟨?_, order.laid, fun p member => ?_⟩, region⟩
  · have head : (if xs.getLast? = none then ys.head? else r.regions) = r.regions := by
      split_ifs with first
      · rw [order.list.head, getLast?_eq_none_iff.mp first, nil_append]
      · rfl
    simp only [head]
    refine order.list.congr (fun b _ => ?_) fun b _ => ?_
    · split_ifs with last
      · exact (order.list.next_last last).symm
      · rfl
    · split_ifs with first
      · exact (order.list.prev_first first).symm
      · rfl
  · have other : p ≠ z := fun eq => removed.away (eq ▸ member)
    simp only [Function.update_of_ne other]
    exact order.live p member

theorem follows_inOrder : Follows Yields InOrder where
  mono := .mono
  pure := .pure
  bind := .bind
  deref found holds := (Yields.deref _).mono fun _ eq => Option.some.inj (found.symm.trans eq) ▸ holds
  inOrder h := h
  split {s xs z ys} h a := by
    have member : z ∈ xs ++ z :: ys := by simp
    rcases aspaceSplitRegion_cases (h.laid.proper z member) (h.live z member) with
      ⟨rest, eq⟩ | ⟨low, high, rest, new, free, eq⟩
    · rw [eq]
      exact .pure ⟨h.list, h.laid, h.live⟩
    have fresh : new ∉ xs ++ z :: ys := fun member =>
      Bool.noConfusion ((h.live new member).symm.trans free)
    have ne : new ≠ z := fun eq => fresh (by simp [eq])
    have whole : xs ++ z :: ys = (xs ++ [z]) ++ ys := by simp
    rw [eq]
    refine .bind (insertRegionSorted_inOrder (s := s.allocated rest new _) (whole ▸ h.list)
      (laid_cutAt h.laid fresh low high) fun p member => ?_) ?_
    · by_cases eq : p = new
      · simp [allocated, eq]
      simp only [allocated, Function.update_of_ne eq]
      exact h.live p (by simpa [eq] using member)
    · rintro t ⟨order, region⟩
      exact .pure ⟨low, high, new, by simpa using order, untouched_cutAt h.laid.nodup fresh region,
        by rw [region]; exact cutAt_old, by rw [region]; exact cutAt_new ne⟩

theorem removeRegion_does_inOrder : Does Yields InOrder removeRegion fun _ => [] := fun h =>
  (removeRegion_inOrder h).mono fun _ ⟨order, region, next, prev⟩ =>
    ⟨[], by simpa using order, fun p _ => by rw [region], rfl,
      .inr ⟨rfl, by rw [region], next, prev⟩⟩

/-- The second time round, the region is removed once more. -/
theorem rangeRound_removed (h : s.InOrder (xs ++ ys)) (removed : s.Removed xs z ys)
    (proper : (s.region z).Proper) (base : (s.region z).base = a) (high : (s.region z).limit ≤ e) :
    Yields (rangeRound removeRegion a e s z) fun
      | .inl (t, next) => t.InOrder (xs ++ ys) ∧ t.region = s.region ∧ next = ys.head?
      | .inr _ => False := by
  have := proper.base_lt
  have low : ¬ (s.region z).base < a := by omega
  have meets : (s.region z).base < e ∧ a < (s.region z).limit := by omega
  unfold rangeRound
  rw [proper.stop_eq, if_pos meets, splitStart, if_neg low]
  refine .bind (.pure (Q := ((s, some (z, s.next z)) = ·)) rfl) ?_
  rintro _ rfl
  dsimp only
  rw [splitEnd, proper.stop_eq, if_neg (Nat.not_lt.mpr high)]
  refine .bind (.pure (Q := ((s, some (z, s.next z)) = ·)) rfl) ?_
  rintro _ rfl
  refine .bind (removeRegion_removed h removed) ?_
  rintro t ⟨order, region⟩
  exact .pure ⟨order, region, removed.next⟩

theorem vmUnmapRegion_inOrder (h : s.InOrder zs) {address length : BitVec 64} :
    Yields (s.vmUnmapRegion address length) fun (t, status) => status = .ok →
      ∃ zs', t.InOrder zs' ∧ zs'.map t.region = (zs.map s.region).flatMap
        (pieces (fun _ => []) (rangeOf address length).1 (rangeOf address length).2) := by
  unfold vmUnmapRegion
  by_cases empty : length = 0
  · rw [forRange, if_pos empty]
    exact .pure fun done => (by cases done)
  by_cases refused : s.state.refused
  · rw [forRange, if_neg empty, if_pos refused]
    exact .pure fun done => (by cases done)
  rw [forRange_eq empty refused]
  generalize (rangeOf address length).1 = a
  generalize (rangeOf address length).2 = e
  -- the loop is at a region of the list, or at one that it has removed
  refine .loop (fun now => ∃ done todo, now.1.InOrder (done ++ todo) ∧
    done.map now.1.region ++ (todo.map now.1.region).flatMap (pieces (fun _ => []) a e) =
      (zs.map s.region).flatMap (pieces (fun _ => []) a e) ∧
    (now.2 = todo.head? ∨ ∃ z, now.2 = some z ∧ now.1.Removed done z todo ∧
      (now.1.region z).Proper ∧ (now.1.region z).base = a ∧ (now.1.region z).limit ≤ e)) ?_
    ⟨[], zs, h, rfl, .inl h.list.head⟩
  rintro ⟨t, curr⟩ ⟨done, todo, order, same, place⟩
  rcases place with rfl | ⟨z, rfl, removed, proper, base, high⟩
  · cases todo with
    | nil => exact .pure fun _ => ⟨done, by simpa using order, by simpa using same⟩
    | cons z rest =>
      refine (rangeRound_spec follows_inOrder removeRegion_does_inOrder settles_remove order).mono ?_
      have proper := order.laid.proper z (by simp)
      rintro (⟨u, next⟩ | ⟨u, status⟩) out
      · obtain ⟨others, out⟩ := out
        have doneData : done.map u.region = done.map t.region := (others.mono (by grind)).map_eq
        have restData : rest.map u.region = rest.map t.region := (others.mono (by grind)).map_eq
        rcases out with ⟨more, again, order', rfl, ⟨samePieces, -, -⟩⟩ |
          ⟨more, curr, order', rfl, removed, ends, -, left, right⟩
        · refine ⟨done ++ more, again ++ rest, order', ?_, .inl rfl⟩
          rw [← same]
          simp only [map_append, flatMap_append, doneData, restData, map_cons,
            flatMap_cons, ← samePieces, append_assoc]
        refine ⟨done ++ more, rest, order', ?_, .inr ⟨curr, rfl, removed, ?_⟩⟩
        · rw [← same]
          have high := Nat.not_lt.mpr ends.2.2
          simp [doneData, restData, left, pieces, ends.1, ends.2.1, high,
            Nat.lt_of_lt_of_le (Nat.lt_trans ends.1 ends.2.1) ends.2.2]
        · rw [right]
          exact ⟨proper.right ends.2.1, rfl, by
            rw [right_limit ends.2.1]
            exact ends.2.2⟩
      · obtain ⟨rfl, -⟩ := out
        exact fun done => (by cases done)
  · refine (rangeRound_removed order removed proper base high).mono ?_
    rintro (⟨u, next⟩ | _) out
    · obtain ⟨order', region, rfl⟩ := out
      exact ⟨done, todo, order', by rw [region]; exact same, .inl rfl⟩
    · exact out.elim

end RegionState

end BharatOS
