import BharatOS.Cap.RevokeAlone
import BharatOS.Cap.Tidy

/-!
# What a revocation that runs alone does to a tidy forest

The root is detached, its tree is marked, and then freed, or left in quarantine when a core that
was asked does not answer.
-/

namespace BharatOS

namespace Kernel

open Registry Sections RevokeCall

variable {R : Registry} {c root : CapRef} {capId : BitVec 32} {ref : TableRef} {M : List CapRef}

theorem findRoot_some (h : findRoot R ref capId = some c) :
    c.table = ref ∧ (R.entry c).inUse = true := by
  unfold findRoot at h
  split at h
  · cases h
  rename_i d found
  split at h
  · cases h
  split at h
  · cases h
  cases h
  exact ⟨(findIndex_some found).1, (findIndex_some found).2.1⟩

/-- Handle 0 names no root. -/
theorem findRoot_zero : findRoot R ref 0 = none := by
  unfold findRoot
  cases R.findIndex ref 0 with
  | none => rfl
  | some c => simp [bhCapGenerationMatches, bhCapGeneration]

/-- What a call that stands at its root touches: `k₂` has the root detached, `F` is
the tree below it, and `M` is what the freeze walk strays to. -/
structure Scope (k k₂ k' : Kernel) (root : CapRef) (F : Forest CapRef) (M : List CapRef) : Prop where
  links : LinksOnly k k₂
  forest : k₂.registry.heap.Forested (· = root)
  next : ∀ d, (∀ p, k.registry.heap.parentOf root = some p → k.registry.heap.parentOf d ≠ some p) →
    (k₂.registry.entry d).nextSibling = (k.registry.entry d).nextSibling
  rep : k₂.registry.heap.Rep root (k₂.registry.entry root).firstChild F
  nodes : ∀ c, c ∈ F.nodes ↔ k₂.registry.heap.Descends c root
  outside : Outside k₂ k' (root :: F.nodes) M
  strays : RootStrays k₂.registry.heap root M

variable {k k₂ k' : Kernel} {F : Forest CapRef} {f : RevokeFrame}

theorem Scope.mem_tree (scope : Scope k k₂ k' root F M) (d : CapRef) :
    d ∈ root :: F.nodes ↔ d = root ∨ k.registry.heap.Descends d root := by
  rw [List.mem_cons, scope.nodes, LinkHeap.Descends, scope.links.childOf]
  rfl

/-- What a finished revocation of `c` leaves behind. -/
structure TreeRevoked (k k' : Kernel) (c : CapRef) : Prop where
  tidy : Tidy k'.registry
  freed : ∀ d, d = c ∨ k.registry.heap.Descends d c → (k'.registry.entry d).inUse = false
  channels : k'.channels = k.channels

/-- The detached tree of the root goes, and the rest of the forest stays tidy. -/
theorem treeRevoked (tidy : Tidy k.registry) (scope : Scope k k₂ k' root F M)
    (freed : ∀ d ∈ root :: F.nodes, (k'.registry.entry d).inUse = false) :
    TreeRevoked k k' root := by
  have ⟨links, forest, _, _, nodes, outside, _⟩ := scope
  have tree := scope.mem_tree
  have spaces := links.spaces.trans outside.spaces
  have kept : ∀ d, d ∉ root :: F.nodes → k'.registry.entry d =
      { k₂.registry.entry d with state := (k'.registry.entry d).state } := by
    intro d hd
    rcases outside.entry d hd with e | ⟨-, e⟩ <;> rw [e]
  have target : ∀ l a, k'.registry.resolve l = some a ↔
      k₂.registry.resolve l = some a ∧ a ∉ root :: F.nodes := by
    intro l a
    rw [resolve_eq_some, resolve_eq_some, locate_congr outside.spaces.cspaceId]
    by_cases ha : a ∈ root :: F.nodes
    · simp [freed a ha, ha]
    · rw [kept a ha]; simp [ha]
  have closed : ∀ c p, c ∈ root :: F.nodes → c ≠ root →
      k₂.registry.heap.parentOf c = some p → p ∈ root :: F.nodes := by
    intro c p hc ne parent
    have path := (nodes c).mp (by simpa [ne] using hc)
    rcases Relation.TransGen.head'_iff.mp path with ⟨q, step, later⟩
    obtain rfl : q = p := Option.some.inj (step.symm.trans parent)
    rcases Relation.reflTransGen_iff_eq_or_transGen.mp later with e | path'
    · simp [e]
    · exact List.mem_cons_of_mem _ ((nodes q).mpr path')
  have alive : ∀ d, (k'.registry.entry d).inUse = true → d ∉ root :: F.nodes := by
    intro d used mem
    rw [freed d mem] at used
    cases used
  -- a capability outside the tree keeps its parent
  have top : ∀ d, d ∉ root :: F.nodes → k'.registry.heap.parentOf d = none →
      k.registry.heap.parentOf d = none := by
    intro d hd none
    cases parent : k.registry.heap.parentOf d with
    | none => rfl
    | some p =>
      have out : p ∉ root :: F.nodes := by
        intro mem
        apply hd
        rw [tree] at mem ⊢
        rcases mem with rfl | path
        · exact .inr (.single parent)
        · exact .inr (.head parent path)
      have link : (k'.registry.entry d).parent = (k₂.registry.entry d).parent := by rw [kept d hd]
      rw [← congrFun links.parentOf d] at parent
      rw [parentOf_eq, link, (target (k₂.registry.entry d).parent p).mpr ⟨parent, out⟩] at none
      cases none
  refine ⟨⟨?_, fun d used none => ?_, fun d used none => ?_, fun d used => ?_⟩,
    fun d hd => freed d ((tree d).mpr hd), ?_⟩
  · refine forest.erase (· ∈ root :: F.nodes) (fun c hc => by simp [hc])
      (fun c p hc ne parent => closed c p hc ne parent) (fun _ h => h) target
      (fun n hn => ?_) (fun n hn => ?_)
    · have cleared := cleared_of_free (freed n hn)
      simp [cleared.1, cleared.2]
    · simp only [heap_parent, heap_first, heap_next]
      rw [kept n hn]
      exact ⟨rfl, rfl, rfl⟩
  · have out := alive d used
    rw [kept d out] at used ⊢
    rw [links.entry d] at used ⊢
    exact (tidy.parents d used (top d out none)).sameSpaces spaces
  · have out := alive d used
    rw [kept d out] at used ⊢
    have isTop := top d out none
    simp only [scope.next d fun p _ e => by rw [isTop] at e; cases e]
    rw [links.entry d] at used
    exact (tidy.tops d used isTop).sameSpaces spaces
  · have out := alive d used
    rw [kept d out] at used ⊢
    rw [links.entry d] at used ⊢
    exact tidy.unpinned d used
  · rw [outside.channels, links.rest]

/-- Marking a root changes no link and no pin. -/
theorem tidy_state (tidy : Tidy R) (c : CapRef) (state : CapState) :
    Tidy (R.edit c (.state state)) := by
  have heap := state_edit_heap R c state
  have spaces := edit_sameSpaces R c (.state state)
  have entry : ∀ d, (R.edit c (.state state)).entry d =
      { R.entry d with state := ((R.edit c (.state state)).entry d).state } := by
    intro d
    rcases edit_entry_cases with e | e <;> rw [e]
    rfl
  refine ⟨heap ▸ tidy.forest, fun d used top => ?_, fun d used top => ?_, fun d used => ?_⟩ <;>
    rw [entry d] at used ⊢
  · exact (tidy.parents d used (heap ▸ top)).sameSpaces spaces
  · exact (tidy.tops d used (heap ▸ top)).sameSpaces spaces
  · exact tidy.unpinned d used

/-- Where a call goes from its first section: to its parent's list, if the parent's
table is there. -/
def afterRoot (k : Kernel) (f : RevokeFrame) : RevokePc :=
  if (k.registry.capLocatorResolveTable (k.registry.entry f.root).parent).isSome then
    .unlink (k.registry.entry f.root).parent
  else .mark (f.rootLocator 0)

section

variable (tidy : Tidy k.registry)

include tidy

/-- The root is taken out of its parent's list, if it has a parent; only the links
of its siblings change. -/
theorem detach_root (root : AtRoot k f) :
    ∃ k₂, Reaches (step true) k ⟨f, k.afterRoot f⟩ k₂ ⟨f, .mark (f.rootLocator 0)⟩ ∧
      LinksOnly k k₂ ∧ k₂.registry.heap.Forested (· = f.root) ∧
      ∀ d, (∀ p, k.registry.heap.parentOf f.root = some p → k.registry.heap.parentOf d ≠ some p) →
        (k₂.registry.entry d).nextSibling = (k.registry.entry d).nextSibling := by
  unfold afterRoot
  cases parent : k.registry.heap.parentOf f.root with
  | none =>
    rw [if_neg (by simp [(tidy.parents f.root root.used parent).table])]
    exact ⟨k, .refl _ _, ⟨.refl _, fun _ => rfl, rfl⟩, tidy.forest.detach parent, fun _ _ => rfl⟩
  | some p =>
    obtain ⟨id, core, -⟩ := locate_eq_some.mp (resolve_eq_some.mp parent).1
    have table : k.registry.capLocatorResolveTable (k.registry.entry f.root).parent =
        some p.table := resolveTable_eq_some.mpr ⟨id, core⟩
    rw [if_pos (by simp [table])]
    obtain ⟨k₂, now, links, forest, next⟩ := unlink_root true root tidy.forest parent
    exact ⟨k₂, .single now, links, forest, fun d other => next d (other p rfl)⟩

/-- A capability without a parent still leads nowhere once the root is detached. -/
theorem detached_tops (links : LinksOnly k k₂) (next : ∀ d, k.registry.heap.parentOf d = none →
      (k₂.registry.entry d).nextSibling = (k.registry.entry d).nextSibling) :
    ∀ d, (k₂.registry.entry d).inUse = true → d ≠ f.root → k₂.registry.heap.parentOf d = none →
      k₂.registry.locate (k₂.registry.entry d).nextSibling = none := by
  intro d used _ top
  rw [congrFun links.parentOf d] at top
  rw [links.entry d] at used
  rw [next d top]
  exact ((tidy.tops d used top).sameSpaces links.spaces).locate

/-- A call that stands at its root comes to an end. With nobody to ask it returns 0,
and when it returns 0 the tree is free. -/
theorem rooted_scope (root : AtRoot k f) :
    ∃ k₂ k' F M r, Returns (step true) k ⟨f, k.afterRoot f⟩ k' r ∧ Scope k k₂ k' f.root F M ∧
      ((∀ c, k.channels c ≠ .bound) → r = 0) ∧
      (r = 0 → ∀ d ∈ f.root :: F.nodes, (k'.registry.entry d).inUse = false) := by
  obtain ⟨k₂, first, links, forest, next⟩ := detach_root tidy root
  have root₂ := links.atRoot root
  have tops := detached_tops (f := f) tidy links
    fun d top => next d fun p _ e => by rw [top] at e; cases e
  obtain ⟨F, rep, nodes⟩ := forest.rep f.root
    (fun x path e => forest.ranked.irrefl f.root (e ▸ path))
  have pins : ∀ d, d = f.root ∨ d ∈ F.nodes → (k₂.registry.entry d).activePins = 0 := by
    intro d hd
    have used : (k₂.registry.entry d).inUse = true := by
      rcases hd with rfl | hd
      · exact root₂.used
      obtain ⟨p, step, -⟩ := Relation.TransGen.head'_iff.mp ((nodes d).mp hd)
      exact parentOf_inUse step
    rw [links.entry d] at used ⊢
    exact tidy.unpinned d used
  by_cases nobody : f.tx = none ∨ k₂.broadcastTargets f.core = []
  · obtain ⟨M, k', done, outside, strays, freed⟩ := revoke_tree root₂ forest tops rep pins nobody
    exact ⟨k₂, k', F, M, 0, first.returns done, ⟨links, forest, next, rep, nodes, outside, strays⟩,
      fun _ => rfl, fun _ => freed⟩
  obtain ⟨asks, somebody⟩ := not_or.mp nobody
  obtain ⟨slot, tx⟩ := Option.ne_none_iff_exists'.mp asks
  obtain ⟨M, k', done, outside, strays⟩ := refused_tree root₂ forest tops rep tx somebody
  refine ⟨k₂, k', F, M, -7, first.returns done,
    ⟨links, forest, next, rep, nodes, outside, strays⟩, fun alone => absurd ?_ somebody,
    fun e => (by cases e)⟩
  simp [broadcastTargets, show k₂.channels = k.channels by rw [links.rest], alone]

theorem rooted_tidy (root : AtRoot k f) (alone : ∀ c, k.channels c ≠ .bound) :
    ∃ k', Returns (step true) k ⟨f, k.afterRoot f⟩ k' 0 ∧ TreeRevoked k k' f.root := by
  obtain ⟨k₂, k', F, M, r, done, scope, zero, freed⟩ := rooted_scope tidy root
  obtain rfl := zero alone
  exact ⟨k', done, treeRevoked tidy scope (freed rfl)⟩

end

/-- The section that finds the root leaves the call standing at it. -/
theorem revokeRoot_found (found : findRoot k.registry ref capId = some c) (core : Core)
    (tx : Option TxSlot) :
    ∃ f : RevokeFrame, f.root = c ∧ f.tx = tx ∧ AtRoot (k.edit c (.state .revoking)) f ∧
      k.revokeRoot core ref capId tx = (k.edit c (.state .revoking),
        .inl ⟨f, (k.edit c (.state .revoking)).afterRoot f⟩) := by
  obtain ⟨rfl, used⟩ := findRoot_some found
  obtain ⟨id, home⟩ := cspaceId_of_inUse used
  have marked := markedOnly_edit k c
  refine ⟨⟨core, tx, c.table, id, c.slot, (k.registry.entry c).generation⟩, rfl, rfl,
    MarkedOnly.atRoot marked ⟨home, used, rfl⟩, ?_⟩
  have table : (k.edit c (.state .revoking)).registry.capLocatorResolveTable =
      k.registry.capLocatorResolveTable := resolveTable_congr marked.spaces.cspaceId
  simp only [revokeRoot, found, home, afterRoot, RevokeFrame.root, table, (marked.links c).2]

/-- A revocation by a core that has nobody to ask comes to an end, leaves the
forest tidy, and returns 0 only when the whole tree of its root is free. -/
theorem revokeRoot_tidy (tidy : Tidy k.registry) (alone : ∀ c, k.channels c ≠ .bound) (core : Core)
    (ref : TableRef) (capId : BitVec 32) (tx : Option TxSlot) :
    ∃ k' r, Finishes (step true) (k.revokeRoot core ref capId tx) k' r ∧ Tidy k'.registry ∧
      k'.channels = k.channels ∧
      (r = 0 → ∃ c, findRoot k.registry ref capId = some c ∧ TreeRevoked k k' c) := by
  cases found : findRoot k.registry ref capId with
  | none =>
    unfold revokeRoot
    rw [found]
    cases tx with
    | none => exact ⟨k, -2, ⟨rfl, rfl⟩, tidy, rfl, fun h => (by cases h)⟩
    | some slot => exact ⟨_, -2, ⟨rfl, rfl⟩, tidy, rfl, fun h => (by cases h)⟩
  | some c =>
    obtain ⟨f, rfl, -, root, start⟩ := revokeRoot_found found core tx
    obtain ⟨k', done, revoked⟩ := rooted_tidy (tidy_state tidy f.root .revoking) root alone
    refine ⟨k', 0, by rw [start]; exact done, revoked.tidy, revoked.channels,
      fun _ => ⟨f.root, rfl, revoked.tidy, ?_, revoked.channels⟩⟩
    have freed := revoked.freed
    rw [(markedOnly_edit k f.root).heap] at freed
    exact freed

theorem revokes_tidy (tidy : Tidy k.registry) (alone : ∀ c, k.channels c ≠ .bound) {core : Core} :
    ∃ k' r, k.Revokes core ref capId k' r ∧ Tidy k'.registry ∧ k'.channels = k.channels ∧
      (r = 0 → ∃ c, findRoot k.registry ref capId = some c ∧ TreeRevoked k k' c) := by
  unfold Revokes capTableRevoke
  split
  · exact ⟨k, -1, ⟨rfl, rfl⟩, tidy, rfl, fun h => (by cases h)⟩
  split
  · split
    · exact ⟨k, -6, ⟨rfl, rfl⟩, tidy, rfl, fun h => (by cases h)⟩
    rename_i txs _
    obtain ⟨k', r, done, tidy', channels, freed⟩ :=
      revokeRoot_tidy (k := { k with txs := txs }) tidy alone core ref capId _
    refine ⟨k', r, done, tidy', channels, fun h => ?_⟩
    obtain ⟨c, found, revoked⟩ := freed h
    exact ⟨c, found, revoked.tidy, revoked.freed, revoked.channels⟩
  · exact revokeRoot_tidy tidy alone core ref capId none

end Kernel

end BharatOS
