import BharatOS.Vm.RegionCalls

/-!
# Unmapping and protecting a range

The loop goes through the list that it changes. What it has behind it, and what it will make of the
regions it has before it, together stay the same: the pieces of the regions there were.
-/

namespace BharatOS

open VmRegion List

open ColorTree TreeLinks Prog

namespace VmRegion

/-- The part of a region in the range `[a, e)`. -/
def within (r : VmRegion) (a e : Nat) : VmRegion :=
  let m := if r.base < a then r.right a else r
  if e < m.limit then m.left e else m

/-- A region where `f` has been done to its part in the range. -/
def pieces (f : VmRegion → List VmRegion) (a e : Nat) (r : VmRegion) : List VmRegion :=
  if r.base < e ∧ a < r.limit then
    (if r.base < a then [r.left a] else []) ++ f (r.within a e) ++
      if e < r.limit then [r.right e] else []
  else [r]

/-- How often the loop can come to what a region is cut into. -/
def rounds (a e : Nat) (r : VmRegion) : Nat :=
  (if r.base < a then 1 else 0) + (if r.base < e then 1 else 0) + 1

/-- The range begins inside the region and reaches its end. -/
def EndsWithin (r : VmRegion) (a e : Nat) : Prop := r.base < a ∧ a < r.limit ∧ r.limit ≤ e

variable {r : VmRegion} {a e : Nat} {f : VmRegion → List VmRegion}

/-- Where `f` leaves a region, it is in the same place, and `f` would do nothing more to it. -/
def Settles (f : VmRegion → List VmRegion) : Prop :=
  ∀ r r', f r = [r'] → f r' = [r'] ∧ r'.base = r.base ∧ r'.length = r.length

/-- Where the part of a region in the range is its tail, it must not be removed. -/
def SafeFor (r : VmRegion) (f : VmRegion → List VmRegion) (a e : Nat) : Prop :=
  r.EndsWithin a e → ∀ r', f r' ≠ []

theorem right_right (low : r.base < a) (between : a ≤ e) (high : a < r.limit) :
    (r.right a).right e = r.right e := by
  have offset : wrap64 (wrap64 (r.objectOffset + (a - r.base)) + (e - a)) =
      wrap64 (r.objectOffset + (e - r.base)) := by
    unfold wrap64
    omega
  simp only [right, limit] at *
  simp [offset]
  omega

/-- What is behind the range is not looked at again. -/
theorem pieces_right : pieces f a e (r.right e) = [r.right e] := by
  rw [pieces, if_neg fun meets => Nat.lt_irrefl e meets.1]

end VmRegion

namespace RegionState

variable {s t u : RegionState} {xs ys zs zs' : List RegionPtr} {z new : RegionPtr} {a e : Nat}

/-- Two ways to follow the calls. Where all is intact they return, and all stays intact; and in any
case the list is in order if they return. -/
structure Follows (Holds : ∀ {α : Type}, Prog α → (α → Prop) → Prop)
    (Good : RegionState → List RegionPtr → Prop) : Prop where
  mono : ∀ {α : Type} {x : Prog α} {Q Q' : α → Prop}, Holds x Q → (∀ a, Q a → Q' a) → Holds x Q'
  pure : ∀ {α : Type} {a : α} {Q : α → Prop}, Q a → Holds (Pure.pure a) Q
  bind : ∀ {α β : Type} {x : Prog α} {f : α → Prog β} {Q : α → Prop} {R : β → Prop}, Holds x Q →
    (∀ a, Q a → Holds (f a) R) → Holds (x >>= f) R
  deref : ∀ {α : Type} {p : Option α} {a : α} {Q : α → Prop}, p = some a → Q a →
    Holds (Prog.deref p) Q
  inOrder : ∀ {s zs}, Good s zs → s.InOrder zs
  split : ∀ {s xs z ys}, Good s (xs ++ z :: ys) → ∀ a,
    Holds (s.aspaceSplitRegion z a) fun (t, split) =>
      if split then (s.region z).base < a ∧ a < (s.region z).limit ∧ ∃ new,
        Good t (xs ++ z :: new :: ys) ∧ Untouched (xs ++ ys) s t ∧
        t.region z = (s.region z).left a ∧ t.region new = (s.region z).right a
      else Good t (xs ++ z :: ys)

section

variable {Holds : ∀ {α : Type}, Prog α → (α → Prop) → Prop}
  {Good : RegionState → List RegionPtr → Prop} (F : Follows Holds Good)

include F

theorem splitStart_spec (h : Good s (xs ++ z :: ys)) (a : Nat) : Holds (s.splitStart z a) fun
      | (t, none) => Good t (xs ++ z :: ys)
      | (t, some (curr, next)) => ∃ us, Good t (xs ++ us ++ curr :: ys) ∧ Untouched (xs ++ ys) s t ∧
          if (s.region z).base < a then us.map t.region = [(s.region z).left a] ∧
            t.region curr = (s.region z).right a ∧ next = some curr
          else us = [] ∧ t.region curr = s.region z ∧ next = ys.head? := by
  unfold splitStart
  split_ifs with low
  · refine F.bind (F.split h a) ?_
    rintro ⟨t, split⟩ done
    cases split with
    | false => exact F.pure done
    | true =>
      obtain ⟨-, high, new, good, others, left, right⟩ := done
      have next : t.next z = some new := (F.inOrder good).list.next_eq
      refine F.bind (F.deref (Q := (new = ·)) next rfl) ?_
      rintro _ rfl
      exact F.pure ⟨[z], by simpa using good, others, by simpa using left, right, next⟩
  · exact F.pure ⟨[], by simpa using h, .refl, rfl, rfl, (F.inOrder h).list.next_eq⟩

theorem splitEnd_spec (h : Good s (xs ++ z :: ys)) (next : Option RegionPtr) (e : Nat) :
    Holds (s.splitEnd z next e) fun
      | (t, none) => Good t (xs ++ z :: ys)
      | (t, some (curr, next')) => curr = z ∧ ∃ ws, Good t (xs ++ z :: (ws ++ ys)) ∧
          Untouched (xs ++ ys) s t ∧
          if e < (s.region z).limit then (s.region z).base < e ∧
            ws.map t.region = [(s.region z).right e] ∧ t.region z = (s.region z).left e ∧
            next' = (ws ++ ys).head?
          else ws = [] ∧ t.region z = s.region z ∧ next' = next := by
  unfold splitEnd
  rw [((F.inOrder h).laid.proper z (by simp)).stop_eq]
  split_ifs with high
  · refine F.bind (F.split h e) ?_
    rintro ⟨t, split⟩ done
    cases split with
    | false => exact F.pure done
    | true =>
      obtain ⟨low, -, new, good, others, left, right⟩ := done
      exact F.pure ⟨rfl, [new], good, others, low, by simpa using right, left,
        (F.inOrder good).list.next_eq⟩
  · exact F.pure ⟨rfl, [], h, .refl, rfl, rfl, rfl⟩

end

/-- What the loop does to a region in the range: it becomes `f` of it. A region that is removed
keeps its record. -/
def Does (Holds : ∀ {α : Type}, Prog α → (α → Prop) → Prop)
    (Good : RegionState → List RegionPtr → Prop) (act : RegionState → RegionPtr → Prog RegionState)
    (f : VmRegion → List VmRegion) : Prop :=
  ∀ {s xs z ys}, Good s (xs ++ z :: ys) → Holds (act s z) fun t =>
    ∃ us, Good t (xs ++ us ++ ys) ∧ Untouched (xs ++ ys) s t ∧ us.map t.region = f (s.region z) ∧
      (us = [z] ∨ us = [] ∧ t.region z = s.region z ∧ t.next z = s.next z ∧ t.prev z = s.prev z)

/-- What the loop has done with a region: the regions `done` are behind it, and it goes on with
`todo`. -/
structure RoundTo (f : VmRegion → List VmRegion) (a e : Nat) (r : VmRegion)
    (done todo : List VmRegion) : Prop where
  same : done ++ todo.flatMap (VmRegion.pieces f a e) = r.pieces f a e
  fewer : (todo.map (VmRegion.rounds a e)).sum < r.rounds a e
  safe : ∀ r' ∈ todo, r'.SafeFor f a e

namespace RoundTo

variable {f : VmRegion → List VmRegion} {a e : Nat} {r : VmRegion}

theorem outside (away : ¬ (r.base < e ∧ a < r.limit)) : RoundTo f a e r [r] [] :=
  ⟨by simp [pieces, away], by simp [rounds], nofun⟩

theorem inside (meets : r.base < e ∧ a < r.limit) (low : ¬ r.base < a) (high : ¬ e < r.limit) :
    RoundTo f a e r (f r) [] :=
  ⟨by simp [pieces, within, meets, low, high], by simp [rounds], nofun⟩

theorem inside_behind (meets : r.base < e ∧ a < r.limit) (low : ¬ r.base < a)
    (high : e < r.limit) : RoundTo f a e r (f (r.left e)) [r.right e] where
  same := by
    rw [flatMap_singleton, pieces_right, pieces, if_pos meets]
    simp [within, low, high]
  fewer := by
    have : ¬ e < a := by omega
    simp [rounds, right, low, meets, this]
  safe r' member ends := by
    obtain rfl := mem_singleton.mp member
    exact absurd ends.1 (by simp only [right]; omega)

theorem around_behind (low : r.base < a) (between : a < e) (high : e < r.limit) :
    RoundTo f a e r ([r.left a] ++ f ((r.right a).left e)) [(r.right a).right e] where
  same := by
    have right := right_limit (r := r) (Nat.lt_trans between high)
    rw [right_right low (Nat.le_of_lt between) (Nat.lt_trans between high),
      flatMap_singleton, pieces_right, pieces,
      if_pos ⟨Nat.lt_trans low between, Nat.lt_trans between high⟩]
    simp [within, low, high, right]
  fewer := by
    have : ¬ e < a := by omega
    simp only [rounds, right, map_cons, map_nil, sum_cons,
      sum_nil, this, low, Nat.lt_trans low between, Nat.lt_irrefl, if_true, if_false]
    omega
  safe r' member ends := by
    obtain rfl := mem_singleton.mp member
    exact absurd ends.1 (by simp only [right]; omega)

/-- The loop comes to the second part once more. -/
theorem again (ends : r.EndsWithin a e) {r' : VmRegion} (eq : f (r.right a) = [r'])
    (settles : VmRegion.Settles f) : RoundTo f a e r [r.left a] [r'] := by
  obtain ⟨low, between, high⟩ := ends
  obtain ⟨fixed, base, length⟩ := settles _ _ eq
  have right := right_limit (r := r) between
  have base : r'.base = a := base
  have limit : r'.limit = r.limit := by rw [← right, limit, base, length]; rfl
  have notAfter : ¬ e < r.limit := Nat.not_lt.mpr high
  have less : a < e := Nat.lt_of_lt_of_le between high
  have once : r'.pieces f a e = [r'] := by
    rw [pieces, base, limit, if_pos ⟨less, between⟩, within, base]
    simp [limit, notAfter, fixed]
  refine ⟨?_, ?_, fun r'' member ends => ?_⟩
  · rw [flatMap_singleton, once, pieces, if_pos ⟨Nat.lt_trans low less, between⟩]
    simp [within, low, right, notAfter, eq]
  · simp only [rounds, base, map_cons, map_nil, sum_cons, sum_nil, low,
      less, Nat.lt_trans low less, Nat.lt_irrefl, if_true, if_false]
    omega
  · obtain rfl := mem_singleton.mp member
    exact absurd ends.1 (base ▸ Nat.lt_irrefl a)

end RoundTo

/-- The loop is at a region that it has removed from the list `xs ++ ys`. -/
structure Removed (s : RegionState) (xs : List RegionPtr) (z : RegionPtr) (ys : List RegionPtr) :
    Prop where
  away : z ∉ xs ++ ys
  next : s.next z = ys.head?
  prev : s.prev z = xs.getLast?

variable {act : RegionState → RegionPtr → Prog RegionState} {f : VmRegion → List VmRegion}

theorem rangeRound_spec {Holds : ∀ {α : Type}, Prog α → (α → Prop) → Prop}
    {Good : RegionState → List RegionPtr → Prop} (F : Follows Holds Good)
    (does : Does Holds Good act f) (settles : VmRegion.Settles f) (h : Good s (xs ++ z :: ys)) :
    Holds (rangeRound act a e s z) fun
      | .inl (t, next) => Untouched (xs ++ ys) s t ∧
        ((∃ done todo, Good t (xs ++ done ++ (todo ++ ys)) ∧ next = (todo ++ ys).head? ∧
          RoundTo f a e (s.region z) (done.map t.region) (todo.map t.region)) ∨
        ∃ done curr, Good t (xs ++ done ++ ys) ∧ next = some curr ∧ t.Removed (xs ++ done) curr ys ∧
          (s.region z).EndsWithin a e ∧ f ((s.region z).right a) = [] ∧
          done.map t.region = [(s.region z).left a] ∧ t.region curr = (s.region z).right a)
      | .inr (t, status) => status = .noMemory ∧ ∃ zs', Good t zs' := by
  unfold rangeRound
  rw [((F.inOrder h).laid.proper z (by simp)).stop_eq]
  split_ifs with meets
  swap
  · exact F.pure ⟨.refl, .inl ⟨[z], [], by simpa using h, (F.inOrder h).list.next_eq,
      .outside meets⟩⟩
  refine F.bind (splitStart_spec F h a) ?_
  rintro ⟨t₁, first⟩ done₁
  cases first with
  | none => exact F.pure ⟨rfl, _, done₁⟩
  | some at₁ =>
    obtain ⟨curr, next₁⟩ := at₁
    obtain ⟨us, good₁, others₁, start⟩ := done₁
    refine F.bind (splitEnd_spec F good₁ next₁ e) ?_
    rintro ⟨t₂, second⟩ done₂
    cases second with
    | none => exact F.pure ⟨rfl, _, done₂⟩
    | some at₂ =>
      obtain ⟨curr', next₂⟩ := at₂
      obtain ⟨rfl, ws, good₂, others₂, stop⟩ := done₂
      refine F.bind (does good₂) ?_
      rintro t₃ ⟨vs, good₃, others₃, data, which⟩
      have others : Untouched (xs ++ ys) s t₃ :=
        (others₁.trans (others₂.mono (by grind))).trans (others₃.mono (by grind))
      have usData : us.map t₃.region = us.map t₁.region :=
        ((others₂.mono (by grind)).trans (others₃.mono (by grind))).map_eq
      have wsData : ws.map t₃.region = ws.map t₂.region := (others₃.mono (by grind)).map_eq
      by_cases low : (s.region z).base < a
      · simp only [low, if_true] at start
        obtain ⟨left, right, rfl⟩ := start
        rw [right, right_limit meets.2] at stop
        by_cases high : e < (s.region z).limit
        · simp only [high, if_true] at stop
          obtain ⟨between, behind, mid, rfl⟩ := stop
          refine F.pure ⟨others, .inl ⟨us ++ vs, ws, by simpa using good₃, rfl, ?_⟩⟩
          rw [map_append, usData, left, data, mid, wsData, behind]
          exact .around_behind low between high
        simp only [high, if_false] at stop
        obtain ⟨rfl, mid, rfl⟩ := stop
        have ends : (s.region z).EndsWithin a e := ⟨low, meets.2, Nat.not_lt.mp high⟩
        rcases which with rfl | ⟨rfl, region, next, prev⟩
        · refine F.pure ⟨others, .inl ⟨us, [curr'], by simpa using good₃, rfl, ?_⟩⟩
          rw [mid] at data
          rw [usData, left]
          exact .again ends data.symm settles
        have list := (F.inOrder good₂).list
        obtain ⟨alone, -⟩ := nodup_cons.mp (nodup_middle.mp (F.inOrder good₂).laid.nodup)
        refine F.pure ⟨others, .inr ⟨us, curr', by simpa using good₃, rfl,
          ⟨alone, next.trans list.next_eq, prev.trans list.prev_eq⟩, ends, ?_, ?_, ?_⟩⟩
        · rw [← mid, ← data]
          rfl
        · rw [usData, left]
        · rw [region, mid]
      · simp only [low, if_false] at start
        obtain ⟨rfl, mid, rfl⟩ := start
        rw [mid] at stop
        by_cases high : e < (s.region z).limit
        · simp only [high, if_true] at stop
          obtain ⟨-, behind, mid', rfl⟩ := stop
          refine F.pure ⟨others, .inl ⟨vs, ws, by simpa using good₃, rfl, ?_⟩⟩
          rw [data, mid', wsData, behind]
          exact .inside_behind meets low high
        · simp only [high, if_false] at stop
          obtain ⟨rfl, mid', rfl⟩ := stop
          refine F.pure ⟨others, .inl ⟨vs, [], by simpa using good₃, rfl, ?_⟩⟩
          rw [data, mid']
          exact .inside meets low high

/-- The start of the range, and its end as the source computes it. -/
def rangeOf (address length : BitVec 64) : Nat × Nat :=
  (pageDown address.toNat, pageUp (wrap64 (address.toNat + length.toNat)))

theorem wrap64_back (small : a < 2 ^ 64) (fits : e < 2 ^ 64) :
    wrap64 (a + wrap64 (e + 2 ^ 64 - a)) = e := by
  unfold wrap64
  rw [Nat.add_mod_mod, show a + (e + 2 ^ 64 - a) = e + 2 ^ 64 by omega, Nat.add_mod_right,
    Nat.mod_eq_of_lt fits]

variable {address length : BitVec 64} {protection : BitVec 32}

theorem forRange_eq (some_ : length ≠ 0) (open_ : ¬ s.state.refused) :
    s.forRange act address length = loop (fun (s, curr) =>
      match curr with
      | none => pure (.inr (s, .ok))
      | some curr => rangeRound act (rangeOf address length).1 (rangeOf address length).2 s curr)
      (s, s.regions) := by
  unfold forRange
  rw [if_neg some_, if_neg open_]
  dsimp only [rangeOf]
  rewrite [wrap64_back (Nat.lt_of_le_of_lt (pageDown_le _) address.isLt) (pageUp_lt _)]
  rfl

/-! ## Where all is intact -/

theorem follows_evolves :
    Follows Returns (Evolves s zs) where
  mono := .mono
  pure := .pure
  bind := .bind
  deref := .deref
  inOrder h := h.intact.toInOrder
  split h a := (aspaceSplitRegion_spec h.intact).mono fun out done => by
    obtain ⟨t, split⟩ := out
    cases split with
    | false => exact h.trans done
    | true =>
      obtain ⟨low, high, new, evolves, rest⟩ := done
      exact ⟨low, high, new, h.trans evolves, rest⟩

theorem forRange_spec (h : s.Intact zs) (does : Does Returns (Evolves s zs) act f)
    (settles : VmRegion.Settles f) (safe : length ≠ 0 → ¬ s.state.refused → ∀ p ∈ zs,
      (s.region p).SafeFor f (rangeOf address length).1 (rangeOf address length).2) :
    Returns (s.forRange act address length) fun (t, status) => ∃ zs', Evolves s zs t zs' ∧
      (status = .ok → zs'.map t.region = (zs.map s.region).flatMap
        (pieces f (rangeOf address length).1 (rangeOf address length).2)) := by
  by_cases empty : length = 0
  · rw [forRange, if_pos empty]
    exact .pure ⟨zs, .refl h, nofun⟩
  by_cases refused : s.state.refused
  · rw [forRange, if_neg empty, if_pos refused]
    exact .pure ⟨zs, .refl h, nofun⟩
  have safe := safe empty refused
  rw [forRange_eq empty refused]
  generalize (rangeOf address length).1 = a at safe ⊢
  generalize (rangeOf address length).2 = e at safe ⊢
  refine .loop (fun k now => ∃ done todo, Evolves s zs now.1 (done ++ todo) ∧ now.2 = todo.head? ∧
    done.map now.1.region ++ (todo.map now.1.region).flatMap (pieces f a e) =
      (zs.map s.region).flatMap (pieces f a e) ∧
    ((todo.map now.1.region).map (rounds a e)).sum = k ∧
    ∀ r ∈ todo.map now.1.region, r.SafeFor f a e) ?_
    ⟨[], zs, .refl h, h.list.head, rfl, rfl, by simpa using safe⟩
  rintro k ⟨t, curr⟩ ⟨done, todo, evolves, rfl, same, rfl, safe⟩
  dsimp only at evolves same safe ⊢
  cases todo with
  | nil => exact .pure ⟨done, by simpa using evolves, fun _ => by simpa using same⟩
  | cons z rest =>
    simp only [map_cons, forall_mem_cons] at safe
    refine (rangeRound_spec follows_evolves does settles evolves).mono ?_
    rintro (⟨u, next⟩ | ⟨u, status⟩) out
    · obtain ⟨others, ⟨more, again, evolves', rfl, ⟨samePieces, fewer, safe'⟩⟩ |
        ⟨more, curr, -, -, -, ends, none_, -⟩⟩ := out
      swap
      · exact absurd none_ (safe.1 ends _)
      have doneData : done.map u.region = done.map t.region := (others.mono (by grind)).map_eq
      have restData : rest.map u.region = rest.map t.region := (others.mono (by grind)).map_eq
      refine ⟨_, ?_, done ++ more, again ++ rest, evolves', rfl, ?_, rfl, ?_⟩
      · simp only [map_append, sum_append, restData, map_cons, sum_cons]
        omega
      · rw [← same]
        simp only [map_append, flatMap_append, doneData, restData, map_cons,
          flatMap_cons, ← samePieces, append_assoc]
      · intro r member
        rw [map_append, mem_append, restData] at member
        exact member.elim (safe' r) (safe.2 r)
    · obtain ⟨rfl, zs', evolves'⟩ := out
      exact ⟨zs', evolves', nofun⟩

theorem removeRegion_does :
    Does Returns (Evolves s zs) removeRegion fun _ => [] := fun h =>
  (removeRegion_evolves h.intact).mono fun _ ⟨evolves, region, next, prev⟩ =>
    ⟨[], by simpa using h.trans evolves, fun p _ => by rw [region], rfl,
      .inr ⟨rfl, by rw [region], next, prev⟩⟩

theorem settles_remove : VmRegion.Settles fun _ => [] := nofun

theorem setProt_region {q : RegionPtr} :
    (s.setProt protection z).region q =
      if q = z then { s.region q with prot := protection } else s.region q := by
  by_cases eq : q = z
  · rw [if_pos eq, eq]
    exact Function.update_self ..
  · rw [if_neg eq]
    exact Function.update_of_ne eq _ _

theorem setProt_intact (h : s.Intact zs) : (s.setProt protection z).Intact zs := by
  have same : ∀ q, ((s.setProt protection z).region q).base = (s.region q).base ∧
      ((s.setProt protection z).region q).length = (s.region q).length ∧
      ((s.setProt protection z).region q).objectOffset = (s.region q).objectOffset := by
    intro q
    rw [setProt_region]
    split_ifs <;> exact ⟨rfl, rfl, rfl⟩
  have limits : ∀ q, ((s.setProt protection z).region q).limit = (s.region q).limit := fun q => by
    rw [limit, (same q).1, (same q).2.1, limit]
  obtain ⟨T, n, tree, balanced, nodes⟩ := h.tree
  refine ⟨⟨h.list, ⟨fun p member => ?_, ?_⟩, h.live⟩,
    ⟨T, n, ⟨⟨tree.root, tree.rep, tree.nodup⟩, ?_⟩, balanced, nodes⟩, h.count⟩
  · have proper := h.laid.proper p member
    exact ⟨(same p).2.1 ▸ proper.pos, limits p ▸ proper.fits, (same p).2.2 ▸ proper.offset⟩
  · exact h.laid.spaced.imp fun apart => by
      rw [limits, (same _).1]
      exact apart
  · refine tree.tops.revalue fun q _ => ?_
    rw [stopAt, stop, (same q).1, (same q).2.1]
    rfl

theorem setProt_evolves (h : s.Intact (xs ++ z :: ys)) :
    Evolves s (xs ++ z :: ys) (s.setProt protection z) (xs ++ z :: ys) := by
  refine ⟨setProt_intact h, fun p member => .inl member, fun q out alive => ?_⟩
  have ne : q ≠ z := by
    rintro rfl
    exact out (by simp)
  exact ⟨⟨fun _ => rfl, rfl, rfl⟩, rfl, rfl, rfl, by rw [setProt_region, if_neg ne], rfl⟩

theorem setProt_does :
    Does Returns (Evolves s zs) (fun s z => pure (s.setProt protection z))
      fun r => [{ r with prot := protection }] := by
  intro t xs z ys h
  obtain ⟨alone, -⟩ := nodup_cons.mp (nodup_middle.mp h.intact.laid.nodup)
  refine .pure ⟨[z], by simpa using h.trans (setProt_evolves h.intact),
    fun p member => ?_, by simp [setProt_region], .inl rfl⟩
  have ne : p ≠ z := fun eq => alone (eq ▸ member)
  rw [setProt_region, if_neg ne]

theorem settles_setProt : VmRegion.Settles fun r => [{ r with prot := protection }] := by
  rintro r _ ⟨⟩
  exact ⟨rfl, rfl, rfl⟩

theorem vmUnmapRegion_spec (h : s.Intact zs) (safe : length ≠ 0 → ¬ s.state.refused → ∀ p ∈ zs,
      ¬ (s.region p).EndsWithin (rangeOf address length).1 (rangeOf address length).2) :
    Returns (s.vmUnmapRegion address length) fun (t, status) => ∃ zs', Evolves s zs t zs' ∧
      (status = .ok → zs'.map t.region = (zs.map s.region).flatMap
        (pieces (fun _ => []) (rangeOf address length).1 (rangeOf address length).2)) :=
  forRange_spec h removeRegion_does settles_remove
    fun some_ open_ p member ends => absurd ends (safe some_ open_ p member)

theorem vmProtectRegion_spec (h : s.Intact zs) :
    Returns (s.vmProtectRegion address length protection) fun (t, status) =>
      ∃ zs', Evolves s zs t zs' ∧
      (status = .ok → zs'.map t.region = (zs.map s.region).flatMap
        (pieces (fun r => [{ r with prot := protection }]) (rangeOf address length).1
          (rangeOf address length).2)) :=
  forRange_spec h setProt_does settles_setProt
    fun _ _ _ _ _ _ => cons_ne_nil _ _

end RegionState

end BharatOS
