import BharatOS.Cap.LocalRun

/-!
# What a revocation leaves alone

The freeze walk leaves a leaf root upwards without recognising where it started, and marks the next
sibling of the nearest ancestor that has one.
-/

namespace BharatOS

open Option

/-- The same capability in the same state, whatever its links are. -/
def CapabilityEntry.SameCap (e e' : CapabilityEntry) : Prop :=
  e'.state = e.state ∧ e'.rights = e.rights ∧ e'.type = e.type ∧ e'.objectRef = e.objectRef ∧
    e'.generation = e.generation ∧ e'.inUse = e.inUse

namespace Kernel

open Registry Sections RevokeCall CapabilityEntry

/-- Nothing outside the tree of `c` is another capability or in another state. -/
def OnlyTree (k k' : Kernel) (c : CapRef) : Prop :=
  ∀ d, d ≠ c → ¬ k.registry.heap.Descends d c →
    SameCap (k.registry.entry d) (k'.registry.entry d)

/-- The freeze walk from `c` does not leave the tree of `c`. -/
def StaysBelow (R : Registry) (c : CapRef) : Prop :=
  (∃ d, R.heap.parentOf d = some c) ∨
    ∀ a, R.heap.Descends c a → R.resolve (R.entry a).nextSibling = none

section Scope

variable {k k₂ k' : Kernel} {root : CapRef} {F : Forest CapRef} {M : List CapRef}

theorem Scope.onlyTree_of_nil (scope : Scope k k₂ k' root F []) : OnlyTree k k' root := by
  intro d ne apart
  have out : d ∉ root :: F.nodes := fun mem => ((scope.mem_tree d).mp mem).elim ne apart
  rcases scope.outside.entry d out with e | ⟨mem, -⟩
  · rw [e, scope.links.entry d]
    exact ⟨rfl, rfl, rfl, rfl, rfl, rfl⟩
  · cases mem

/-- Detaching the root leaves the sibling links of its ancestors. -/
theorem Scope.ancestor_next (scope : Scope k k₂ k' root F M) {a : CapRef}
    (path : k.registry.heap.Descends root a) :
    (k₂.registry.entry a).nextSibling = (k.registry.entry a).nextSibling := by
  refine scope.next a fun p parent sibling => ?_
  have ranked := scope.forest.ranked
  obtain ⟨q, step, up⟩ := Relation.TransGen.head'_iff.mp path
  obtain rfl : q = p := some.inj (step.symm.trans parent)
  rw [← congrFun scope.links.parentOf a] at sibling
  rw [← scope.links.childOf] at up
  exact ranked.irrefl q (Relation.TransGen.tail' up sibling)

/-- The next sibling of an ancestor of the root is not in the tree of the root. -/
theorem Scope.sibling_out (tidy : Tidy k.registry) (scope : Scope k k₂ k' root F M) {a b : CapRef}
    (path : k.registry.heap.Descends root a)
    (next : k₂.registry.resolve (k₂.registry.entry a).nextSibling = some b) :
    b ∉ root :: F.nodes := by
  have ranked := tidy.forest.ranked
  have used : (k.registry.entry a).inUse = true := by
    obtain ⟨x, -, step⟩ := Relation.TransGen.tail'_iff.mp path
    exact resolve_inUse step
  cases parent : k.registry.heap.parentOf a with
  | none =>
    have lost := ((tidy.tops a used parent).sameSpaces scope.links.spaces).locate
    rw [scope.ancestor_next path, resolve_lost lost] at next
    cases next
  | some q =>
    have parent₂ := parent
    rw [← congrFun scope.links.parentOf a] at parent₂
    obtain ⟨G, rep, kept⟩ := scope.forest.rep_next parent₂ fun e => ranked.irrefl root (e ▸ path)
    cases rep with
    | nil null => cases (resolve_null (R := k₂.registry) null).symm.trans next
    | @cons _ b' _ _ _ head child =>
      obtain rfl : b' = b := some.inj (head.symm.trans next)
      rw [scope.mem_tree]
      rintro (e | below)
      · exact kept b' (by simp [Forest.nodes]) e
      · -- then the root would be above itself
        rw [congrFun scope.links.parentOf b'] at child
        obtain ⟨q', step, up⟩ := Relation.TransGen.head'_iff.mp below
        obtain rfl : q' = q := some.inj (step.symm.trans child)
        exact ranked.irrefl root (Relation.TransGen.trans_left (path.tail parent) up)

theorem Scope.onlyTree_iff (tidy : Tidy k.registry) (scope : Scope k k₂ k' root F M)
    (live : ∀ d, (k.registry.entry d).inUse = true → d ≠ root → (k.registry.entry d).state = .live) :
    OnlyTree k k' root ↔ StaysBelow k.registry root := by
  have up : ∀ {p a}, k₂.registry.heap.parentOf root = some p →
      (Relation.ReflTransGen k₂.registry.heap.ChildOf p a ↔ k.registry.heap.Descends root a) := by
    intro p a parent
    rw [congrFun scope.links.parentOf root] at parent
    rw [scope.links.childOf]
    refine ⟨fun path => Relation.TransGen.head' parent path, fun path => ?_⟩
    obtain ⟨q, step, later⟩ := Relation.TransGen.head'_iff.mp path
    obtain rfl : q = p := some.inj (step.symm.trans parent)
    exact later
  cases scope.strays with
  | kids below =>
    refine iff_of_true scope.onlyTree_of_nil (.inl ?_)
    cases scope.rep with
    | nil null => exact absurd (null.symm.trans below) (by decide)
    | cons _ child => exact ⟨_, (congrFun scope.links.parentOf _).symm.trans child⟩
  | top _ top =>
    refine iff_of_true scope.onlyTree_of_nil (.inr fun a path => ?_)
    rw [congrFun scope.links.parentOf root] at top
    obtain ⟨q, step, -⟩ := Relation.TransGen.head'_iff.mp path
    rw [show k.registry.heap.parentOf root = some q from step] at top
    cases top
  | @climb p _ leaf child strays =>
    have childless : ¬ ∃ d, k.registry.heap.parentOf d = some root := by
      rintro ⟨d, step⟩
      have none := scope.rep.eq_nil leaf
      have mem := (scope.nodes d).mpr (.single ((congrFun scope.links.parentOf d).trans step))
      simp [none, Forest.nodes] at mem
    have next : ∀ {a}, k.registry.heap.Descends root a →
        k₂.registry.heap.target (k₂.registry.heap.next a) =
          k.registry.resolve (k.registry.entry a).nextSibling := by
      intro a path
      rw [heap_target, heap_next, scope.links.resolve, scope.ancestor_next path]
    by_cases quiet : ∀ a, k.registry.heap.Descends root a →
        k.registry.resolve (k.registry.entry a).nextSibling = none
    · obtain rfl := strays.quiet fun a path => (next ((up child).mp path)).trans
        (quiet a ((up child).mp path))
      exact iff_of_true scope.onlyTree_of_nil (.inr quiet)
    refine iff_of_false (fun only => ?_) (fun stays => stays.elim childless quiet)
    simp only [not_forall, ← ne_eq, ne_none_iff_exists'] at quiet
    obtain ⟨a, path, b, sibling⟩ := quiet
    obtain ⟨a', b', path', sibling', mem⟩ := strays.stray a b ((up child).mpr path)
      ((next path).trans sibling)
    have out := scope.sibling_out tidy ((up child).mp path') sibling'
    have used₂ := resolve_inUse sibling'
    have apart := fun h => out ((scope.mem_tree b').mpr h)
    have same := (only b' (fun e => apart (.inl e)) (fun h => apart (.inr h))).1
    rw [scope.outside.marked b' mem out used₂] at same
    rw [scope.links.entry b'] at used₂
    rw [live b' used₂ fun e => apart (.inl e)] at same
    cases same

end Scope

/-! ## Forests built by grants and local delegations -/

/-- A call of some core. -/
def CoreStep (k : Kernel) (a : Core × LocalOp) (k' : Kernel) : Prop := LocalStep a.1 k a.2 k'

/-- Tables are created and capabilities granted and delegated; nothing is taken back. -/
def Builds (_ : Kernel) (a : Core × LocalOp) : Prop :=
  match a.2 with
  | .create _ | .grant .. | .delegate .. => True
  | .destroy _ | .revoke .. => False

/-- What holds while a forest is built. -/
structure Built (k : Kernel) : Prop where
  tidy : k.registry.Tidy
  live : ∀ d, (k.registry.entry d).inUse = true → (k.registry.entry d).state = .live
  txs : k.txs = fun _ _ => .zero

variable {ref : TableRef} {k k' : Kernel} {c : CapRef} {capId : BitVec 32}

/-- A new capability is live, and the others stay as they are. -/
theorem live_install {R R' : Registry} {cap : NewCap} {i : Slot}
    (live : ∀ d, (R.entry d).inUse = true → (R.entry d).state = .live)
    (h : R.install ref cap = some (i, R')) (d : CapRef) (used : (R'.entry d).inUse = true) :
    (R'.entry d).state = .live := by
  by_cases hd : d = ⟨ref, i⟩
  · rw [hd, install_entry_self h]; rfl
  rw [install_entry_other h hd] at used ⊢
  exact live d used

theorem step_built {a : Core × LocalOp} (built : k.Built) (allowed : Builds k a)
    (step : CoreStep k a k') : k'.Built := by
  obtain ⟨core, op⟩ := a
  cases step with
  | create kmalloc =>
    have made := k.registry.create_created core kmalloc
    exact ⟨built.tidy.created made, fun d used => by
      simp only [capTableCreate, made.entry] at used ⊢; exact built.live d used, built.txs⟩
  | destroy | revoke => exact allowed.elim
  | grant table type objectRef rights =>
    rcases k.grant_cases core table type objectRef rights with ⟨code, failed⟩ |
      ⟨i, R, -, -, installed, done⟩
    · rw [failed]; exact built
    rw [done]
    exact ⟨built.tidy.installRoot installed rfl rfl, live_install built.live installed, built.txs⟩
  | delegate src dst capId rights here =>
    rcases k.delegate_here here capId rights with same | same <;> rw [same]
    · exact built
    rcases k.delegateLocal_cases src dst capId rights none with ⟨code, failed⟩ |
      ⟨c, j, R, found, -, -, -, -, -, installed, done⟩
    · rw [failed]; exact built
    rw [done]
    refine ⟨built.tidy.installChild (findLive_some found).2 installed, fun d used => ?_,
      built.txs⟩
    have state : ∀ l, (((R.edit c (.firstChild l)).entry d)).state = (R.entry d).state := by
      intro l
      rcases edit_entry_cases with e | e <;> rw [e]
      simp only [EntryEdit.apply]
      split <;> rfl
    rw [edit_inUse] at used
    exact (state _).trans (live_install built.live installed d used)

/-- Marking the root changes neither the forest nor what is outside the root's tree. -/
theorem onlyTree_marked (k k' : Kernel) (c : CapRef) :
    (OnlyTree (k.edit c (.state .revoking)) k' c ↔ OnlyTree k k' c) ∧
      (StaysBelow (k.edit c (.state .revoking)).registry c ↔ StaysBelow k.registry c) := by
  have marked := markedOnly_edit k c
  constructor
  · refine forall_congr' fun d => imp_congr_right fun ne => ?_
    rw [marked.heap, edit_registry, edit_entry_other ne]
  · unfold StaysBelow
    simp only [marked.heap, marked.resolve, marked.links]

variable {core : Core}

theorem rooted_onlyTree (built : k.Built) (found : findRoot k.registry ref capId = some c)
    {txs : TxTable} {tx : Option TxSlot} :
    ∃ k' r, Finishes (step true) ({ k with txs := txs }.revokeRoot core ref capId tx) k' r ∧
      (OnlyTree k k' c ↔ StaysBelow k.registry c) := by
  obtain ⟨f, rfl, -, root, start⟩ := revokeRoot_found (k := { k with txs := txs }) found core tx
  have tidy := tidy_state built.tidy f.root .revoking
  obtain ⟨k₂, k', F, M, r, done, scope, -⟩ := rooted_scope tidy root
  refine ⟨k', r, by rw [start]; exact done, ?_⟩
  have iff := scope.onlyTree_iff tidy fun d used ne => by
    rw [edit_registry, edit_entry_other ne] at used ⊢
    exact built.live d used
  obtain ⟨only, stays⟩ := onlyTree_marked { k with txs := txs } k' f.root
  exact (only.symm.trans iff).trans stays

/-- A revocation in a built forest finds its root and comes to an end. -/
theorem built_revokes (built : k.Built) (found : findRoot k.registry ref capId = some c) :
    ∃ k' r, k.Revokes core ref capId k' r ∧ (OnlyTree k k' c ↔ StaysBelow k.registry c) := by
  have registered : ¬ ((k.registry.table ref).isNone = true ∨ capId = 0) := by
    rintro (none | rfl)
    · obtain ⟨rfl, used⟩ := findRoot_some found
      have := registered_of_inUse used
      simp [isNone_iff_eq_none.mp none] at this
    · rw [findRoot_zero] at found; cases found
  unfold Revokes capTableRevoke
  rw [if_neg registered]
  split
  · have alloc : ∃ slot txs, k.txs.capTxAlloc core .revoke = some (slot, txs) := by
      rw [built.txs]; exact ⟨_, _, rfl⟩
    obtain ⟨slot, txs, alloc⟩ := alloc
    rw [alloc]
    exact rooted_onlyTree built found
  · exact rooted_onlyTree built found

/-- In a forest built by grants and local delegations, a revocation changes only the
tree of its root exactly when the freeze walk stays below the root. -/
theorem revoke_only_tree_iff {bound : Core → Bool} {pmmInitialized : Bool} {k : Kernel}
    (run : Run CoreStep Builds (boot bound pmmInitialized) k) (core : Core) {ref : TableRef}
    {capId : BitVec 32} {c : CapRef} (found : findRoot k.registry ref capId = some c) :
    ∃ k' r, k.Revokes core ref capId k' r ∧ (OnlyTree k k' c ↔ StaysBelow k.registry c) :=
  built_revokes (run.invariant Built ⟨Registry.tidy_empty, fun _ used => (by cases used), rfl⟩
    fun _ _ _ => step_built) found

theorem built_by_core (run : Run (LocalStep core) (fun k op => Builds k (core, op)) k k') :
    Run CoreStep Builds k k' :=
  run.lift (core, ·) fun _ _ _ allowed step => ⟨allowed, step⟩

theorem revoke_only_tree_pair : ∃ k : Kernel,
    findRoot k.registry ⟨0, 0⟩ 0x10001 = some ⟨⟨0, 0⟩, 0⟩ ∧ StaysBelow k.registry ⟨⟨0, 0⟩, 0⟩ ∧
    ∃ k' r, k.Revokes 0 ⟨0, 0⟩ 0x10001 k' r ∧
      (OnlyTree k k' ⟨⟨0, 0⟩, 0⟩ ↔ StaysBelow k.registry ⟨⟨0, 0⟩, 0⟩) := by
  obtain ⟨k, ran, found, child⟩ :
      ∃ k, (boot (fun _ => false) true).localExecAll 0 40 delegatedPair = some k ∧
        findRoot k.registry ⟨0, 0⟩ 0x10001 = some ⟨⟨0, 0⟩, 0⟩ ∧
        k.registry.resolve (k.registry.entry ⟨⟨0, 1⟩, 0⟩).parent = some ⟨⟨0, 0⟩, 0⟩ := by
    decide +kernel
  have run : Run (LocalStep 0) (fun k op => Builds k (0, op)) _ k :=
    localExecAll_run (by simp [delegatedPair, Builds]) ran
  exact ⟨k, found, .inl ⟨⟨⟨0, 1⟩, 0⟩, child⟩, revoke_only_tree_iff (built_by_core run) 0 found⟩

/-- A capability with two children, the younger of which has a child of its own. -/
def leafBelowSibling : List LocalOp :=
  [.create true, .create true, .create true,
    .grant ⟨0, 0⟩ .memory 0 (capRightMemoryMap ||| capRightDelegate),
    .delegate ⟨0, 0⟩ ⟨0, 1⟩ 0x10001 capRightMemoryMap,
    .delegate ⟨0, 0⟩ ⟨0, 2⟩ 0x10001 (capRightMemoryMap ||| capRightDelegate),
    .delegate ⟨0, 2⟩ ⟨0, 0⟩ 0x10001 capRightMemoryMap]

/-- Revoking the grandchild marks the elder child, which it was not made from. -/
theorem revoke_marks_uncle : ∃ k k' : Kernel, Run CoreStep Builds (boot (fun _ => false) true) k ∧
    findRoot k.registry ⟨0, 0⟩ 0x10002 = some ⟨⟨0, 0⟩, 1⟩ ∧ k.Revokes 0 ⟨0, 0⟩ 0x10002 k' 0 ∧
    ¬ k.registry.heap.Descends ⟨⟨0, 1⟩, 0⟩ ⟨⟨0, 0⟩, 1⟩ ∧
    (k.registry.entry ⟨⟨0, 1⟩, 0⟩).state = .live ∧
    (k'.registry.entry ⟨⟨0, 1⟩, 0⟩).state = .revoking := by
  obtain ⟨k, ran, found, parent, top, live, k', revoked, marked⟩ :
      ∃ k, (boot (fun _ => false) true).localExecAll 0 40 leafBelowSibling = some k ∧
        findRoot k.registry ⟨0, 0⟩ 0x10002 = some ⟨⟨0, 0⟩, 1⟩ ∧
        k.registry.resolve (k.registry.entry ⟨⟨0, 1⟩, 0⟩).parent = some ⟨⟨0, 0⟩, 0⟩ ∧
        k.registry.resolve (k.registry.entry ⟨⟨0, 0⟩, 0⟩).parent = none ∧
        (k.registry.entry ⟨⟨0, 1⟩, 0⟩).state = .live ∧
      ∃ k', k.revokeExec 40 0 ⟨0, 0⟩ 0x10002 = some (k', 0) ∧
        (k'.registry.entry ⟨⟨0, 1⟩, 0⟩).state = .revoking := by decide +kernel
  have run : Run (LocalStep 0) (fun k op => Builds k (0, op)) _ k :=
    localExecAll_run (by simp [leafBelowSibling, Builds]) ran
  refine ⟨k, k', built_by_core run, found, revokeExec_some revoked, fun path => ?_, live, marked⟩
  -- its only ancestor is the capability both came from
  obtain ⟨q, step, up⟩ := Relation.TransGen.head'_iff.mp path
  obtain rfl := some.inj (step.symm.trans parent)
  rcases Relation.ReflTransGen.cases_head up with e | ⟨q', step', -⟩
  · cases e
  · cases top.symm.trans step'

end Kernel

end BharatOS
