import BharatOS.Vm.RegionList

/-!
# Lookups in the tree of regions

A lookup goes down the tree. What it leaves behind on the way has no region that it looks for.
-/

namespace BharatOS

open ColorTree TreeLinks Prog

namespace VmRegion

/-- An address of the region. -/
def Contains (r : VmRegion) (va : Nat) : Prop := r.base ≤ va ∧ va < r.limit

/-- The region has an address in `[base, stop)`. -/
def Meets (r : VmRegion) (base stop : Nat) : Prop := r.base < stop ∧ base < r.limit

end VmRegion

/-- The regions as seen at a node of the tree. -/
theorem Laid.at_node {region : RegionPtr → VmRegion} {path : List (Hop RegionPtr)} {c : Color}
    {l r : ColorTree RegionPtr} {a : RegionPtr}
    (h : Laid region (fill path (.node c l a r)).nodes) :
    (fill path (.node c l a r)).nodes = (before path ++ l.nodes) ++ a :: (r.nodes ++ after path) ∧
      Laid region ((before path ++ l.nodes) ++ a :: (r.nodes ++ after path)) := by
  have whole : (fill path (.node c l a r)).nodes =
      (before path ++ l.nodes) ++ a :: (r.nodes ++ after path) := by
    simp [nodes_fill, ColorTree.nodes]
  exact ⟨whole, whole ▸ h⟩

namespace RegionState

variable {s : RegionState} {zs : List RegionPtr}

theorem aspaceLookupRegion_spec (h : s.Intact zs) {va : Nat} :
    Returns (s.aspaceLookupRegion va) fun found =>
      ∀ p, found = some p ↔ p ∈ zs ∧ (s.region p).Contains va := by
  obtain ⟨T, n, tree, balanced, rfl⟩ := h.tree
  refine .loop (fun k curr => ∃ path t, fill path t = T ∧ t.height = k ∧ curr = t.root ∧
    ∀ p ∈ before path ++ after path, ¬ (s.region p).Contains va) ?_
    ⟨[], T, rfl, rfl, tree.root, nofun⟩
  rintro k _ ⟨path, t, rfl, rfl, rfl, away⟩
  cases t with
  | nil =>
    refine .pure fun p => ⟨nofun, fun both => absurd both.2 (away p ?_)⟩
    simpa [nodes_fill, ColorTree.nodes] using both.1
  | node c l a r =>
    obtain ⟨whole, laid⟩ := h.laid.at_node
    have stop := (laid.proper a (by simp)).stop_eq
    obtain ⟨⟨-, -, left, right, -, -⟩, -⟩ := rep_fill.mp tree.rep
    simp only [root, stop]
    split_ifs with here less
    · refine .pure fun p => ⟨?_, ?_⟩
      · rintro ⟨⟩
        exact ⟨by simp [whole], here⟩
      · rintro ⟨member, inside⟩
        rw [whole, List.mem_append, List.mem_cons] at member
        rcases member with member | rfl | member
        · have := laid.before_le p member
          have := inside.2
          omega
        · rfl
        have := laid.le_after p member
        have := inside.1
        omega
    · refine .pure ⟨l.height, by simp only [height]; omega, ⟨.left, c, a, r⟩ :: path, l, rfl, rfl,
        left, fun p member inside => ?_⟩
      simp only [before, after, List.append_nil, List.mem_append, List.mem_cons] at member
      rcases member with member | (rfl | member) | member
      · exact away p (by simp [member]) inside
      · exact absurd inside.1 (Nat.not_le.mpr less)
      · have := laid.lt_after p (by simp [member])
        have := inside.1
        omega
      · exact away p (by simp [member]) inside
    · refine .pure ⟨r.height, by simp only [height]; omega, ⟨.right, c, a, l⟩ :: path, r, rfl, rfl,
        right, fun p member inside => ?_⟩
      simp only [before, after, List.nil_append, List.mem_append, List.mem_singleton] at member
      rcases member with (member | member | rfl) | member
      · exact away p (by simp [member]) inside
      · have := laid.before_le p (by simp [member])
        have := inside.2
        omega
      · exact here inside
      · exact away p (by simp [member]) inside

theorem rangeOverlaps_iff {r : VmRegion} (h : r.Proper) (start stop : Nat) :
    rangeOverlaps start stop r.base r.stop = true ↔ r.Meets start stop := by
  rw [h.stop_eq]
  simp [rangeOverlaps, VmRegion.Meets]

section

variable {c : Color} {l r : ColorTree RegionPtr} {a : RegionPtr} {start stop : Nat}

/-- If a region on the left ends behind the start, there is nothing to find on the right that is not
on the left: either that region is found, or all on the right begins too late. -/
theorem meets_left (laid : Laid s.region (ColorTree.node c l a r).nodes)
    (some_ : ∃ p ∈ (ColorTree.node c l a r).nodes, (s.region p).Meets start stop)
    (notHere : ¬ (s.region a).Meets start stop) (less : start < l.sup s.stopAt) :
    ∃ p ∈ l.nodes, (s.region p).Meets start stop := by
  obtain ⟨q, onLeft, behind⟩ := exists_of_lt_sup _ less
  rw [ColorTree.nodes] at laid
  rw [stopAt, (laid.proper q (by simp [onLeft])).stop_eq] at behind
  by_cases early : (s.region q).base < stop
  · exact ⟨q, onLeft, early, behind⟩
  obtain ⟨p, member, meets⟩ := some_
  rcases List.mem_append.mp member with member | member
  · exact ⟨p, member, meets⟩
  rcases List.mem_cons.mp member with rfl | member
  · exact absurd meets notHere
  have := laid.before_lt q onLeft
  have := laid.lt_after p member
  have := meets.1
  omega

theorem meets_right (proper : ∀ p ∈ (ColorTree.node c l a r).nodes, (s.region p).Proper)
    (some_ : ∃ p ∈ (ColorTree.node c l a r).nodes, (s.region p).Meets start stop)
    (notHere : ¬ (s.region a).Meets start stop) (le : l.sup s.stopAt ≤ start) :
    ∃ p ∈ r.nodes, (s.region p).Meets start stop := by
  obtain ⟨p, member, meets⟩ := some_
  have stopEq := (proper p member).stop_eq
  rcases List.mem_append.mp member with member | member
  · have ends : (s.region p).limit ≤ l.sup s.stopAt := stopEq ▸ le_sup s.stopAt member
    have := meets.2
    omega
  rcases List.mem_cons.mp member with rfl | member
  · exact absurd meets notHere
  · exact ⟨p, member, meets⟩

theorem overlapSide_eq (s : RegionState) (left : s.kid .left a = l.root)
    (tops : l.Tops s.stopAt s.maxEnd) (start : Nat) :
    s.overlapSide start a = .left ∧ start < l.sup s.stopAt ∨
      s.overlapSide start a = .right ∧ l.sup s.stopAt ≤ start := by
  rw [overlapSide, left, ← tops.root]
  cases l.root with
  | none => exact .inr ⟨rfl, Nat.zero_le _⟩
  | some x =>
    by_cases less : start < s.maxEnd x
    · exact .inl ⟨if_pos less, less⟩
    · exact .inr ⟨if_neg less, Nat.not_lt.mp less⟩

end

theorem findOverlap_spec (h : s.Intact zs) {start stop : Nat} :
    Returns (s.findOverlap start stop) fun found =>
      (found = true ↔ ∃ p ∈ zs, (s.region p).Meets start stop) := by
  obtain ⟨T, n, tree, balanced, rfl⟩ := h.tree
  refine .loop (fun k curr => ∃ path t, fill path t = T ∧ t.height = k ∧ curr = t.root ∧
    ((∃ p ∈ T.nodes, (s.region p).Meets start stop) →
      ∃ p ∈ t.nodes, (s.region p).Meets start stop)) ?_ ⟨[], T, rfl, rfl, tree.root, id⟩
  rintro k _ ⟨path, t, rfl, rfl, rfl, inside⟩
  cases t with
  | nil =>
    refine .pure ⟨nofun, fun some_ => ?_⟩
    obtain ⟨p, member, -⟩ := inside some_
    cases member
  | node c l a r =>
    have laid : Laid s.region (ColorTree.node c l a r).nodes := h.laid.sublist (by
      rw [nodes_fill, List.append_assoc]
      exact (List.sublist_append_left _ _).trans (List.sublist_append_right _ _))
    have here := rangeOverlaps_iff (laid.proper a (by simp [ColorTree.nodes])) start stop
    obtain ⟨⟨-, -, left, right, -, -⟩, -⟩ := rep_fill.mp tree.rep
    obtain ⟨⟨-, tops, -⟩, -⟩ := tops_fill.mp tree.tops
    simp only [root]
    split_ifs with meets
    · refine .pure ⟨fun _ => ⟨a, ?_, here.mp meets⟩, fun _ => rfl⟩
      simp [nodes_fill, ColorTree.nodes]
    rw [here] at meets
    rcases s.overlapSide_eq left tops start with ⟨side, less⟩ | ⟨side, le⟩
    · rw [side, left]
      exact .pure ⟨l.height, by simp only [height]; omega, ⟨.left, c, a, r⟩ :: path, l, rfl, rfl,
        rfl, fun some_ => meets_left laid (inside some_) meets less⟩
    rw [side, right]
    exact .pure ⟨r.height, by simp only [height]; omega, ⟨.right, c, a, l⟩ :: path, r, rfl, rfl,
      rfl, fun some_ => meets_right laid.proper (inside some_) meets le⟩

theorem aspaceCheckOverlap_spec (h : s.Intact zs) {start length : Nat} (small : start < 2 ^ 64)
    (short : length < 2 ^ 64) :
    Returns (s.aspaceCheckOverlap start length) fun found => (found = true ↔
      length = 0 ∨ 2 ^ 64 ≤ start + length ∨
        ∃ p ∈ zs, (s.region p).Meets start (start + length)) := by
  unfold aspaceCheckOverlap
  by_cases empty : length = 0
  · rw [if_pos empty]
    exact .pure ⟨fun _ => .inl empty, fun _ => rfl⟩
  rw [if_neg empty]
  by_cases wraps : 2 ^ 64 ≤ start + length
  · have : wrap64 (start + length) ≤ start := by
      unfold wrap64
      omega
    simp only [this, if_true]
    exact .pure ⟨fun _ => .inr (.inl wraps), fun _ => rfl⟩
  · have stop : wrap64 (start + length) = start + length := Nat.mod_eq_of_lt (by omega)
    have : ¬ start + length ≤ start := by omega
    simp only [stop, this, if_false]
    refine (findOverlap_spec h).mono fun found iff => iff.trans ?_
    simp only [empty, wraps, false_or]

end RegionState

end BharatOS
