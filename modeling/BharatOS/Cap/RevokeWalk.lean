import BharatOS.Cap.Heap
import BharatOS.Cap.Revoke

/-!
# The two walks of a revocation

Over a represented forest, the freeze walk marks exactly its nodes and the post-order walk frees
exactly its nodes; both end at the parent. The induction is on the forest, and the parent link of
the last root leads back.
-/

namespace BharatOS

open Registry Forest Option List

open Sections

namespace Kernel

variable {l : BhCapLocator} {k k' : Kernel} {cs : List CapRef} {R : Registry} {c : CapRef}
  {ds : List CapRef}

theorem visit_at : visit R l = .at c ↔ R.resolve l = some c := by
  unfold visit
  rw [resolve_eq_some]
  cases R.locate l with
  | none => simp
  | some d =>
    simp only
    split
    · rename_i stale
      simp only [reduceCtorEq, false_iff, some.injEq]
      rintro ⟨rfl, used, generation⟩
      rcases stale with free | other
      · rw [free] at used; cases used
      · exact other generation
    · rename_i fresh
      simp only [not_or, Bool.not_eq_false, not_not] at fresh
      simp only [Visit.at.injEq, some.injEq]
      exact ⟨fun e => ⟨e, e ▸ fresh⟩, fun e => e.1⟩

theorem visit_lost : visit R l = .lost ↔ R.locate l = none := by
  unfold visit
  cases R.locate l with
  | none => simp
  | some d =>
    simp only [reduceCtorEq, iff_false]
    split <;> simp

/-! ## Marking and freeing lists of entries -/

def markAll (k : Kernel) (cs : List CapRef) : Kernel :=
  cs.foldl (fun k c => k.edit c (.state .revoking)) k

def freeAll (k : Kernel) (cs : List CapRef) : Kernel := cs.foldl freeEntry k

theorem markAll_cons :
    k.markAll (c :: cs) = (k.edit c (.state .revoking)).markAll cs := rfl

theorem markAll_append :
    k.markAll (cs ++ ds) = (k.markAll cs).markAll ds := foldl_append

theorem freeAll_append :
    k.freeAll (cs ++ ds) = (k.freeAll cs).freeAll ds := foldl_append

theorem state_edit_heap (R : Registry) (c : CapRef) (s : CapState) :
    (R.edit c (.state s)).heap = R.heap :=
  edit_heap (fun _ => rfl) (fun _ => rfl)

/-- What marking leaves alone: everything but the states of the marked entries. -/
structure MarkedOnly (k k' : Kernel) (cs : List CapRef) : Prop where
  heap : k'.registry.heap = k.registry.heap
  spaces : Registry.SameSpaces k.registry k'.registry
  entry : ∀ d, k'.registry.entry d = k.registry.entry d ∨
    d ∈ cs ∧ k'.registry.entry d = { k.registry.entry d with state := .revoking }
  marked : ∀ d ∈ cs, (k.registry.entry d).inUse = true → (k'.registry.entry d).state = .revoking
  rest : k' = { k with registry := k'.registry }

theorem MarkedOnly.refl (k : Kernel) : MarkedOnly k k [] :=
  ⟨rfl, .refl _, fun _ => .inl rfl, by simp, rfl⟩

section

variable (h : MarkedOnly k k' cs)

include h

theorem MarkedOnly.inUse (d : CapRef) :
    (k'.registry.entry d).inUse = (k.registry.entry d).inUse := by
  rcases h.entry d with e | ⟨-, e⟩ <;> rw [e]

theorem MarkedOnly.home {ref : TableRef} {id : BitVec 32}
    (home : k.registry.cspaceId ref = some id) : k'.registry.cspaceId ref = some id := by
  rw [h.spaces.cspaceId, home]

theorem MarkedOnly.links (d : CapRef) :
    (k'.registry.entry d).nextSibling = (k.registry.entry d).nextSibling ∧
      (k'.registry.entry d).parent = (k.registry.entry d).parent :=
  ⟨congrFun (congrArg LinkHeap.next h.heap) d, congrFun (congrArg LinkHeap.parent h.heap) d⟩

theorem MarkedOnly.resolve : k'.registry.resolve = k.registry.resolve :=
  congrArg LinkHeap.target h.heap
end

theorem MarkedOnly.trans {k₁ k₂ k₃ : Kernel} (h : MarkedOnly k₁ k₂ cs) (h' : MarkedOnly k₂ k₃ ds) :
    MarkedOnly k₁ k₃ (cs ++ ds) := by
  refine ⟨h'.heap.trans h.heap, h.spaces.trans h'.spaces, fun d => ?_, fun d hd used => ?_, ?_⟩
  · rcases h.entry d with e | ⟨mem, e⟩ <;> rcases h'.entry d with e' | ⟨mem', e'⟩ <;> rw [e', e]
    · exact .inl rfl
    · exact .inr ⟨by simp [mem'], rfl⟩
    · exact .inr ⟨by simp [mem], rfl⟩
    · exact .inr ⟨by simp [mem], rfl⟩
  · rcases mem_append.mp hd with hd | hd
    · rcases h'.entry d with e | ⟨-, e⟩ <;> rw [e]
      exact h.marked d hd used
    · exact h'.marked d hd (h.inUse d ▸ used)
  · rw [h'.rest, h.rest]

theorem markedOnly_edit (k : Kernel) (c : CapRef) :
    MarkedOnly k (k.edit c (.state .revoking)) [c] := by
  refine ⟨state_edit_heap _ _ _, edit_sameSpaces _ _ _, fun d => ?_, fun d hd used => ?_, rfl⟩
  · by_cases h : d = c
    · subst h
      rcases edit_entry_cases with e | e
      · exact .inl e
      · exact .inr ⟨by simp, e⟩
    · exact .inl (edit_entry_other h)
  · obtain rfl : d = c := by simpa using hd
    rw [edit_registry, edit_entry _ (registered_of_inUse used), Function.update_self]
    rfl

theorem markedOnly_markAll (k : Kernel) (cs : List CapRef) : MarkedOnly k (k.markAll cs) cs := by
  induction cs generalizing k with
  | nil => exact .refl k
  | cons c cs ih => exact (markedOnly_edit k c).trans (ih _)

/-- What freeing leaves alone: every entry outside the list, and all but the
registry's entries and the endpoints. -/
structure FreedOnly (k k' : Kernel) (cs : List CapRef) : Prop where
  spaces : Registry.SameSpaces k.registry k'.registry
  kept : ∀ d, d ∉ cs → k'.registry.entry d = k.registry.entry d
  freed : ∀ d ∈ cs, (k'.registry.entry d).inUse = false
  rest : k' = { k with registry := k'.registry, endpoints := k'.endpoints }

theorem freedOnly_freeAll (k : Kernel) (cs : List CapRef) : FreedOnly k (k.freeAll cs) cs := by
  induction cs generalizing k with
  | nil => exact ⟨.refl _, fun _ _ => rfl, by simp, rfl⟩
  | cons c cs ih =>
    have later := ih (k.freeEntry c)
    refine ⟨(release_sameSpaces k.registry c).trans later.spaces, fun d hd => ?_,
      fun d hd => ?_, ?_⟩
    · simp only [mem_cons, not_or] at hd
      exact (later.kept d hd.2).trans (release_entry_other hd.1)
    · by_cases mem : d ∈ cs
      · exact later.freed d mem
      obtain rfl : d = c := by simpa [mem] using hd
      rw [show k.freeAll (d :: cs) = (k.freeEntry d).freeAll cs from rfl, later.kept d mem]
      exact release_inUse_self
    · rw [show k.freeAll (c :: cs) = (k.freeEntry c).freeAll cs from rfl, later.rest]
      rfl

theorem FreedOnly.resolve (h : FreedOnly k k' cs) {d : CapRef} :
    k'.registry.resolve l = some d ↔ k.registry.resolve l = some d ∧ d ∉ cs := by
  rw [resolve_eq_some, resolve_eq_some, locate_congr h.spaces.cspaceId]
  by_cases mem : d ∈ cs
  · simp [h.freed d mem, mem]
  · simp [h.kept d mem, mem]

end Kernel

theorem RevokeFrame.isRoot_iff {R : Registry} {f : RevokeFrame} {l : BhCapLocator}
    (home : R.cspaceId f.table = some f.tableId) :
    f.isRoot l = true ↔ R.locate l = some f.root := by
  rw [locate_eq_some]
  simp only [RevokeFrame.isRoot, Bool.and_eq_true, beq_iff_eq, RevokeFrame.root, home, some.injEq]
  exact ⟨fun h => ⟨h.1.2.symm, h.1.1, h.2⟩, fun h => ⟨⟨h.2.1, h.1.symm⟩, h.2.2⟩⟩

namespace RevokeCall

open Kernel

/-! ## The freeze walk -/

variable {k : Kernel} {f : RevokeFrame} {l : BhCapLocator} {c x : CapRef} {R : Registry}
    {H : LinkHeap CapRef BhCapLocator}

variable (expired : Bool)

theorem step_mark (h : k.registry.resolve l = some c) :
    step expired k ⟨f, .mark l⟩ =
      (k.edit c (.state .revoking), .inl ⟨f, afterMark f c (k.registry.entry c)⟩) := by
  have notNull : capLocatorIsNull l = false := LinkHeap.not_null_of_target (H := k.registry.heap) h
  simp [step, notNull, visit_at.mpr h]

theorem step_mark_lost {expired : Bool} (h : k.registry.locate l = none) :
    step expired k ⟨f, .mark l⟩ = (k, .inl ⟨f, .epoch⟩) := by
  simp [step, visit_lost.mpr h]

theorem step_climb (k : Kernel) (f : RevokeFrame) (l : BhCapLocator) :
    step expired k ⟨f, .climb l⟩ = (k, .inl ⟨f, climbStep k.registry f l⟩) := rfl

theorem climbStep_none (h : R.resolve l = none) : climbStep R f l = .epoch := by
  unfold climbStep
  split
  · rfl
  split
  · rfl
  split
  · rfl
  · rfl
  rename_i c found
  rw [visit_at.mp found] at h
  cases h

section

variable (home : R.cspaceId f.table = some f.tableId)

include home

theorem climbStep_root (h : R.resolve l = some f.root) : climbStep R f l = .epoch := by
  have root := (RevokeFrame.isRoot_iff home).mpr (resolve_eq_some.mp h).1
  simp [climbStep, root]

theorem isRoot_other (h : R.resolve l = some c) (apart : c ≠ f.root) : f.isRoot l = false := by
  cases root : f.isRoot l with
  | false => rfl
  | true =>
    rw [RevokeFrame.isRoot_iff home, (resolve_eq_some.mp h).1] at root
    exact absurd (some.inj root) apart

theorem climbStep_at (h : R.resolve l = some c)
    (apart : c ≠ f.root) : climbStep R f l = siblingOrUp (R.entry c) := by
  have notNull : capLocatorIsNull l = false := LinkHeap.not_null_of_target (H := R.heap) h
  simp [climbStep, notNull, isRoot_other home h apart, visit_at.mpr h]
end

variable {e : CapabilityEntry} {F : Forest CapRef}

theorem afterMark_leaf (leaf : capLocatorIsNull e.firstChild = true) (apart : c ≠ f.root) :
    afterMark f c e = siblingOrUp e := by
  simp [afterMark, siblingOrUp, leaf, apart]

theorem afterMark_parent (kids : capLocatorIsNull e.firstChild = false) :
    afterMark f c e = .mark e.firstChild := by
  simp [afterMark, kids]

/-- Over a forest that does not hold the root, the freeze walk marks the forest's
nodes and then stands at the parent. -/
theorem mark_forest {p : CapRef} (rep : H.Rep p l F) :
    ∀ k : Kernel, k.registry.heap = H → k.registry.cspaceId f.table = some f.tableId →
      capLocatorIsNull l = false → f.root ∉ F.nodes → ∃ L, H.target L = some p ∧
        Reaches (step expired) k ⟨f, .mark l⟩ (k.markAll F.nodes) ⟨f, .climb L⟩ := by
  induction rep with
  | nil null =>
    intro k hk _ notNull
    subst hk
    exact absurd (null.symm.trans notNull) (by decide)
  | @cons p a l kids rest head child below beside ihKids ihRest =>
    intro k hk home notNull apart
    subst hk
    simp only [nodes, mem_cons, mem_append, not_or] at apart
    obtain ⟨rootNe, notKids, notRest⟩ := apart
    have marked := markedOnly_edit k a
    -- once the kids are marked the walk turns to the siblings
    have beyond : ∀ k', k'.registry.heap = k.registry.heap →
        k'.registry.cspaceId f.table = some f.tableId →
        ∃ L, k.registry.heap.target L = some p ∧
          Reaches (step expired) k' ⟨f, siblingOrUp (k.registry.entry a)⟩
            (k'.markAll rest.nodes) ⟨f, .climb L⟩ := by
      intro k' hk' home'
      unfold siblingOrUp
      split
      · rename_i next
        exact ihRest k' hk' home' next notRest
      rename_i next
      have none := beside.eq_nil (by simpa using next)
      exact ⟨_, child, by rw [none]; exact .refl _ _⟩
    have first := step_mark expired (f := f) head
    rw [nodes, markAll_cons, markAll_append]
    cases leaf : capLocatorIsNull (k.registry.entry a).firstChild with
    | true =>
      have none := below.eq_nil leaf
      obtain ⟨L, target, later⟩ := beyond (k.edit a (.state .revoking)) marked.heap (marked.home home)
      rw [afterMark_leaf leaf (Ne.symm rootNe)] at first
      exact ⟨L, target, by rw [none]; exact .step first later⟩
    | false =>
      obtain ⟨L, target, walk⟩ := ihKids (k.edit a (.state .revoking)) marked.heap
        (marked.home home) leaf notKids
      have whole := marked.trans (markedOnly_markAll (k.edit a (.state .revoking)) kids.nodes)
      obtain ⟨L', target', later⟩ := beyond _ whole.heap (whole.home home)
      have turn := climbStep_at (whole.home home) ((congrFun whole.resolve L).trans target)
        (Ne.symm rootNe)
      have same := whole.links a
      rw [siblingOrUp, same.1, same.2, ← siblingOrUp] at turn
      rw [afterMark_parent leaf] at first
      refine ⟨L', target', (Reaches.step first walk).trans (.step (step_climb ..) ?_)⟩
      rw [turn]
      exact later

/-- Which entries a climb from `x` marks before it ends: none if no ancestor has a
next sibling, and otherwise at least one such sibling. -/
structure Strays (H : LinkHeap CapRef BhCapLocator) (x : CapRef) (marked : List CapRef) : Prop where
  quiet : (∀ a, Relation.ReflTransGen H.ChildOf x a → H.target (H.next a) = none) → marked = []
  stray : ∀ a b, Relation.ReflTransGen H.ChildOf x a → H.target (H.next a) = some b →
    ∃ a' b', Relation.ReflTransGen H.ChildOf x a' ∧ H.target (H.next a') = some b' ∧ b' ∈ marked

theorem Strays.top (top : H.parentOf x = none) (last : H.target (H.next x) = none) :
    Strays H x [] := by
  refine ⟨fun _ => rfl, fun a b path next => ?_⟩
  rcases Relation.ReflTransGen.cases_head path with rfl | ⟨q, step, -⟩
  · rw [last] at next; cases next
  · rw [show H.parentOf x = some q from step] at top; cases top

theorem Strays.up {q : CapRef} {marked : List CapRef} (child : H.parentOf x = some q)
    (last : H.target (H.next x) = none) (h : Strays H q marked) : Strays H x marked := by
  refine ⟨fun quiet => h.quiet fun a path => quiet a (path.head child), fun a b path next => ?_⟩
  rcases Relation.ReflTransGen.cases_head path with rfl | ⟨q', step, later⟩
  · rw [last] at next; cases next
  obtain rfl : q' = q := some.inj (step.symm.trans child)
  obtain ⟨a', b', path', next', mem⟩ := h.stray a b later next
  exact ⟨a', b', path'.head child, next', mem⟩

/-- A climb that starts outside the revoked subtree runs up to the top of the tree,
through the siblings of the ancestors it passes. -/
theorem climb_out (forest : H.Forested (· = f.root)) :
    ∀ (k : Kernel) (l : BhCapLocator), k.registry.heap = H →
      k.registry.cspaceId f.table = some f.tableId →
      (∀ l c, H.target l = some c → c ≠ f.root → H.parentOf c = none →
        k.registry.locate (H.next c) = none) →
      ¬ Relation.ReflTransGen H.ChildOf x f.root → H.target l = some x →
      ∃ M k', Reaches (step expired) k ⟨f, .climb l⟩ k' ⟨f, .epoch⟩ ∧ MarkedOnly k k' M ∧
        Strays H x M := by
  obtain ⟨rank, bound, grows⟩ := forest.ranked
  -- the induction climbs: ranks fall from child to parent
  induction hr : rank x using Nat.strongRecOn generalizing x with
  | ind r ih =>
    intro k l hk home tops outside here
    subst hk
    have apart : x ≠ f.root := fun e => outside (e ▸ .refl)
    have turn := climbStep_at home here apart
    have now := step_climb expired k f l
    rw [turn] at now
    have above : ∀ q, k.registry.heap.parentOf x = some q →
        rank q < r ∧ ¬ Relation.ReflTransGen k.registry.heap.ChildOf q f.root := fun q child =>
      ⟨hr ▸ (grows x q child).1, fun path => outside (path.head child)⟩
    cases last : capLocatorIsNull (k.registry.entry x).nextSibling with
    | true =>
      have noNext : k.registry.heap.target (k.registry.heap.next x) = none := resolve_null last
      simp only [siblingOrUp, last, Bool.true_eq_false, if_false] at now
      cases parent : k.registry.heap.parentOf x with
      | none =>
        refine ⟨[], k, .step now (.single ?_), .refl k, .top parent noNext⟩
        rw [step_climb, climbStep_none (l := (k.registry.entry x).parent) parent]
      | some q =>
        obtain ⟨M, k', walk, marked, strays⟩ := ih (rank q) (above q parent).1 rfl k _ rfl home tops
          (above q parent).2 parent
        exact ⟨M, k', .step now walk, marked, .up parent noNext strays⟩
    | false =>
      simp only [siblingOrUp, last, if_true] at now
      cases parent : k.registry.heap.parentOf x with
      | none =>
        have lost := tops l x here apart parent
        have noNext : k.registry.heap.target (k.registry.heap.next x) = none := resolve_lost lost
        exact ⟨[], k, .step now (.single (step_mark_lost lost)), .refl k, .top parent noNext⟩
      | some q =>
        obtain ⟨F, rep, kept⟩ := forest.rep_next parent apart
        obtain ⟨L, target, walk⟩ := mark_forest expired rep k rfl home last
          (fun mem => kept f.root mem rfl)
        have marked := markedOnly_markAll k F.nodes
        obtain ⟨M, k', later, marked', strays⟩ := ih (rank q) (above q parent).1 rfl
          (k.markAll F.nodes) L marked.heap (marked.home home)
          (fun m c at' hc top =>
            (locate_congr marked.spaces.cspaceId _).trans (tops m c at' hc top))
          (above q parent).2 target
        refine ⟨F.nodes ++ M, k', (Reaches.step now walk).trans later, marked.trans marked', ?_⟩
        cases rep with
        | nil null => exact absurd (null.symm.trans last) (by decide)
        | cons head =>
          refine ⟨fun quiet => ?_, fun _ _ _ _ => ⟨x, _, .refl, head, by simp [nodes]⟩⟩
          rw [quiet x .refl] at head
          cases head

/-! ## The post-order walk -/

theorem step_free {dir : TraversalDir} (h : k.registry.resolve l = some c)
    (unpinned : (k.registry.entry c).activePins = 0)
    (bottom : dir = .down → capLocatorIsNull (k.registry.entry c).firstChild = true) :
    step expired k ⟨f, .free l dir⟩ = (k.freeEntry c, .inl ⟨f, afterFree f l
      ⟨(k.registry.entry c).nextSibling, (k.registry.entry c).parent⟩⟩) := by
  have notNull : capLocatorIsNull l = false := LinkHeap.not_null_of_target (H := k.registry.heap) h
  cases dir with
  | down => simp [step, notNull, visit_at.mpr h, unpinned, bottom rfl]
  | up => simp [step, notNull, visit_at.mpr h, unpinned]

theorem step_descend (h : k.registry.resolve l = some c)
    (kids : capLocatorIsNull (k.registry.entry c).firstChild = false) :
    step expired k ⟨f, .free l .down⟩ =
      (k, .inl ⟨f, .free (k.registry.entry c).firstChild .down⟩) := by
  have notNull : capLocatorIsNull l = false := LinkHeap.not_null_of_target (H := k.registry.heap) h
  simp [step, notNull, visit_at.mpr h, kids]

/-- Over an unpinned forest that does not hold the root, the post-order walk frees
the forest's nodes and then comes back up to the parent. -/
theorem free_forest :
    ∀ {k : Kernel} {p : CapRef} {l : BhCapLocator}, k.registry.heap.Rep p l F →
      k.registry.cspaceId f.table = some f.tableId → capLocatorIsNull l = false →
      f.root ∉ F.nodes → (p :: F.nodes).Nodup →
      (∀ c ∈ F.nodes, (k.registry.entry c).activePins = 0) → ∃ L, k.registry.resolve L = some p ∧
        Reaches (step expired) k ⟨f, .free l .down⟩ (k.freeAll F.postorder) ⟨f, .free L .up⟩ := by
  induction F with
  | nil =>
    intro k p l rep _ notNull
    cases rep with
    | nil null => exact absurd (null.symm.trans notNull) (by decide)
  | cons a kids rest ihKids ihRest =>
    intro k p l rep home notNull apart nodup unpinned
    cases rep with
    | cons head child below beside =>
    simp only [nodes, mem_cons, mem_append, not_or, nodup_cons,
      nodup_append'] at apart nodup unpinned
    obtain ⟨rootNe, rootKids, rootRest⟩ := apart
    obtain ⟨⟨pNe, pKids, pRest⟩, ⟨aKids, aRest⟩, kidsNodup, restNodup, disjoint⟩ := nodup
    -- the kids come first, and leave the walk at `a`, ready to be freed
    obtain ⟨L, dir, atA, bottom, walk⟩ : ∃ L dir, k.registry.resolve L = some a ∧
        (dir = .down → capLocatorIsNull (k.registry.entry a).firstChild = true) ∧
        Reaches (step expired) k ⟨f, .free l .down⟩ (k.freeAll kids.postorder) ⟨f, .free L dir⟩ := by
      cases leaf : capLocatorIsNull (k.registry.entry a).firstChild with
      | true =>
        have none := below.eq_nil leaf
        subst none
        exact ⟨l, .down, head, fun _ => rfl, .refl _ _⟩
      | false =>
        obtain ⟨L, target, walk⟩ := ihKids below home leaf rootKids
          (nodup_cons.mpr ⟨aKids, kidsNodup⟩) (fun c hc => unpinned c (.inr (.inl hc)))
        exact ⟨L, .up, target, fun e => (by cases e), .step (step_descend expired head leaf) walk⟩
    have freedKids := freedOnly_freeAll k kids.postorder
    have sameA := freedKids.kept a (fun mem => aKids (mem_postorder.mp mem))
    have hereA := freedKids.resolve.mpr ⟨atA, fun mem => aKids (mem_postorder.mp mem)⟩
    have home' : (k.freeAll kids.postorder).registry.cspaceId f.table = some f.tableId := by
      rw [freedKids.spaces.cspaceId, home]
    have freeA := step_free expired (f := f) hereA
      (by rw [sameA]; exact unpinned a (.inl rfl)) (by rw [sameA]; exact bottom)
    rw [sameA, afterFree, isRoot_other home' hereA (Ne.symm rootNe)] at freeA
    have whole : (k.freeAll kids.postorder).freeEntry a = k.freeAll (kids.postorder ++ [a]) := by
      rw [freeAll_append]; rfl
    rw [whole] at freeA
    have freed := freedOnly_freeAll k (kids.postorder ++ [a])
    have untouched : ∀ x, x = p ∨ x ∈ rest.nodes → x ∉ kids.postorder ++ [a] := by
      intro x hx mem
      simp only [mem_append, mem_singleton, mem_postorder] at mem
      rcases hx with rfl | hx <;> rcases mem with mem | rfl
      · exact pKids mem
      · exact pNe rfl
      · exact disjoint mem hx
      · exact aRest hx
    rw [postorder, show kids.postorder ++ a :: rest.postorder =
      (kids.postorder ++ [a]) ++ rest.postorder by simp, freeAll_append]
    cases last : capLocatorIsNull (k.registry.entry a).nextSibling with
    | true =>
      have none := beside.eq_nil last
      subst none
      simp only [last, Bool.true_eq_false, if_false] at freeA
      exact ⟨_, child, walk.trans (.single freeA)⟩
    | false =>
      simp only [last, if_true, Bool.false_eq_true, if_false] at freeA
      have rest' : (k.freeAll (kids.postorder ++ [a])).registry.heap.Rep p
          (k.registry.entry a).nextSibling rest := by
        refine beside.congr (fun _ h => h) (fun m x hx target => ?_) (fun x hx => ?_)
        · exact freed.resolve.mpr ⟨target, untouched x hx⟩
        · simp [freed.kept x (untouched x (.inr hx))]
      obtain ⟨L', target', later⟩ := ihRest rest' (by rw [freed.spaces.cspaceId, home]) last
        rootRest (nodup_cons.mpr ⟨pRest, restNodup⟩)
        (fun c hc => by rw [freed.kept c (untouched c (.inr hc))]; exact unpinned c (.inr (.inr hc)))
      exact ⟨L', (freed.resolve.mp target').1, (walk.trans (.single freeA)).trans later⟩

end RevokeCall

end BharatOS
