import BharatOS.Cap.RevokeWalk

/-!
# A revocation that runs alone

From a well-formed forest, a revocation that nothing interrupts comes to an end. With nobody to ask
it frees the root and its descendants; otherwise nobody answers, and the root ends in quarantine.
-/

namespace BharatOS

open Registry Option List

open Sections

namespace RevokeCall

open Kernel

variable {f : RevokeFrame}

/-- The call stands at its root: the table is registered and the root is the
instance that was found. -/
structure AtRoot (k : Kernel) (f : RevokeFrame) : Prop where
  home : k.registry.cspaceId f.table = some f.tableId
  used : (k.registry.entry f.root).inUse = true
  same : (k.registry.entry f.root).generation = f.rootGen

variable {k k' : Kernel} {us vs : List CapRef} {p : CapRef} {F : Forest CapRef} {slot : TxSlot}

theorem AtRoot.resolve (h : AtRoot k f) (epoch : BitVec 32) :
    k.registry.resolve (f.rootLocator epoch) = some f.root :=
  resolve_eq_some.mpr ⟨locate_eq_some.mpr ⟨h.home, rfl, rfl⟩, h.used, h.same⟩

variable {l : BhCapLocator} {c : CapRef} {cs : List Core}

theorem AtRoot.isRoot (h : AtRoot k f) (target : k.registry.resolve l = some f.root) :
    f.isRoot l = true :=
  (RevokeFrame.isRoot_iff h.home).mpr (resolve_eq_some.mp target).1

/-! ## Taking the root out of its parent's list -/

/-- The search along a child list that holds the root stops at it, and remembers
the sibling before it. -/
theorem searchChain_found (root : AtRoot k f) (apart : f.root ∉ us) :
    ∀ (prev : Option BhCapLocator) {l : BhCapLocator} {fuel : Nat},
      k.registry.heap.Chain l (us ++ f.root :: vs) → us.length < fuel →
      ∃ prev', searchChain k.registry f fuel l prev = .found prev' ∧ (us = [] → prev' = prev) ∧
        ∀ q, us.getLast? = some q → ∃ L, prev' = some L ∧ k.registry.resolve L = some q := by
  induction us with
  | nil =>
    intro prev l fuel chain room
    obtain ⟨n, rfl⟩ := Nat.exists_eq_add_one.mpr room
    cases chain with
    | cons head =>
      have notNull := LinkHeap.not_null_of_target head
      obtain ⟨place, -, generation⟩ := resolve_eq_some.mp head
      rw [heap_isNull] at notNull
      simp [searchChain, notNull, place, ← generation, root.same]
  | cons u us ih =>
    intro prev l fuel chain room
    obtain ⟨n, rfl⟩ := Nat.exists_eq_add_one.mpr (Nat.zero_lt_of_lt room)
    cases chain with
    | cons head tail =>
      have notNull := LinkHeap.not_null_of_target head
      rw [heap_isNull] at notNull
      obtain ⟨place, -, -⟩ := resolve_eq_some.mp head
      have ne : u ≠ f.root := fun e => apart (by simp [e])
      have short : us.length < n := by simpa using room
      obtain ⟨prev', found, first, last⟩ := ih (fun mem => apart (mem_cons_of_mem u mem))
        (some l) tail short
      refine ⟨prev', ?_, fun h => (by cases h), fun q hq => ?_⟩
      · simp only [searchChain, notNull, Bool.false_eq_true, if_false, place]
        rw [if_neg (fun h => ne h.1)]
        exact found
      · cases us with
        | nil =>
          obtain rfl : u = q := by simpa using hq
          exact ⟨l, first rfl, head⟩
        | cons v us => exact last q (by simpa using hq)

/-- Only child and sibling links changed. -/
structure LinksOnly (k k' : Kernel) : Prop where
  spaces : Registry.SameSpaces k.registry k'.registry
  entry : ∀ d, k'.registry.entry d =
    { k.registry.entry d with
      firstChild := (k'.registry.entry d).firstChild
      nextSibling := (k'.registry.entry d).nextSibling }
  rest : k' = { k with registry := k'.registry }

section

variable (h : LinksOnly k k')

include h

theorem LinksOnly.resolve : k'.registry.resolve = k.registry.resolve :=
  resolve_congr h.spaces.cspaceId (fun c => by rw [h.entry c]) (fun c => by rw [h.entry c])

theorem LinksOnly.parentOf : k'.registry.heap.parentOf = k.registry.heap.parentOf := by
  funext c
  show k'.registry.resolve (k'.registry.entry c).parent = _
  rw [h.resolve, h.entry c]
  rfl

theorem LinksOnly.childOf : k'.registry.heap.ChildOf = k.registry.heap.ChildOf := by
  funext c p
  simp only [LinkHeap.ChildOf, h.parentOf]

theorem LinksOnly.atRoot (root : AtRoot k f) : AtRoot k' f := by
  refine ⟨by rw [h.spaces.cspaceId, root.home], ?_, ?_⟩
  · rw [h.entry f.root]; exact root.used
  · rw [h.entry f.root]; exact root.same

end

theorem linksOnly_firstChild : LinksOnly k (k.edit c (.firstChild l)) := by
  refine ⟨edit_sameSpaces _ _ _, fun d => ?_, rfl⟩
  rcases edit_entry_cases with h | h <;>
    rw [edit_registry, h]
  simp only [EntryEdit.apply]
  split <;> rfl

theorem linksOnly_nextSibling : LinksOnly k (k.edit c (.nextSibling l)) := by
  refine ⟨edit_sameSpaces _ _ _, fun d => ?_, rfl⟩
  rcases edit_entry_cases with h | h <;>
    rw [edit_registry, h]
  rfl

/-- The write of `unlinkFrom`: the link before the root now skips the root. -/
inductive SkipsRoot (k : Kernel) (f : RevokeFrame) (p : CapRef) (us : List CapRef) : Kernel → Prop
  | head (empty : us = []) :
      SkipsRoot k f p us (k.edit p (.firstChild (k.registry.entry f.root).nextSibling))
  | later {q : CapRef} (last : us.getLast? = some q) :
      SkipsRoot k f p us (k.edit q (.nextSibling (k.registry.entry f.root).nextSibling))

theorem SkipsRoot.linksOnly (h : SkipsRoot k f p us k') : LinksOnly k k' := by
  cases h with
  | head => exact linksOnly_firstChild
  | later => exact linksOnly_nextSibling

/-- Skipping the root in the list of its parent detaches it. -/
theorem SkipsRoot.forested (h : SkipsRoot k f p us k')
    (forest : k.registry.heap.Forested fun _ => False)
    (child : k.registry.heap.parentOf f.root = some p)
    (chain : k.registry.heap.Chain (k.registry.entry p).firstChild (us ++ f.root :: vs)) :
    k'.registry.heap.Forested (· = f.root) := by
  have links := h.linksOnly
  have target : ∀ l, k'.registry.heap.target l = k.registry.heap.target l :=
    fun l => congrFun links.resolve l
  have parent : ∀ n, k'.registry.heap.parent n = k.registry.heap.parent n := fun n => by
    simp only [heap_parent]
    rw [links.entry n]
  cases h with
  | head empty =>
    have first := setFirst_first (resolve_inUse child) (k.registry.entry f.root).nextSibling
    refine forest.unlink chain child (fun _ => rfl) target parent (fun n hn => ?_) (fun _ => ?_)
      (fun h => absurd empty h) (fun n _ => setFirst_next) (fun q hq => ?_)
    · simpa [hn] using first n
    · simpa using first p
    · simp [empty] at hq
  | @later q last =>
    have used : (k.registry.entry q).inUse = true := by
      have mem : q ∈ us := mem_of_getLast? last
      obtain ⟨xs, listed, complete⟩ := forest.children p
      have onList : q ∈ xs := by rw [listed.unique chain]; simp [mem]
      exact parentOf_inUse ((complete q).mp onList).1
    have next := setNext_next used (k.registry.entry f.root).nextSibling
    refine forest.unlink chain child (fun _ => rfl) target parent
      (fun n _ => setNext_first) (fun empty => ?_)
      (fun _ => setNext_first) (fun n hn => ?_) (fun q' hq => ?_)
    · simp [empty] at last
    · have ne : n ≠ q := fun e => hn (e ▸ last)
      simpa [ne] using next n
    · obtain rfl : q = q' := some.inj (last.symm.trans hq)
      simpa using next q

variable (expired : Bool)

/-- What the freeze walk over the tree below the root adds to the tree itself. -/
inductive RootStrays (H : LinkHeap CapRef BhCapLocator) (root : CapRef) : List CapRef → Prop
  | kids (below : capLocatorIsNull (H.first root) = false) : RootStrays H root []
  | top (leaf : capLocatorIsNull (H.first root) = true) (top : H.parentOf root = none) :
      RootStrays H root []
  | climb {p : CapRef} {marked : List CapRef} (leaf : capLocatorIsNull (H.first root) = true)
      (child : H.parentOf root = some p) (strays : Strays H p marked) : RootStrays H root marked

/-- The record that a revocation publishes. -/
def published (k : Kernel) (f : RevokeFrame) (slot : TxSlot) (epoch : BitVec 64) : Kernel :=
  k.setTx f.core slot
    { k.txs f.core slot with
      target := f.rootLocator (epoch.setWidth 32)
      revocationEpoch := epoch
      targetMask := coreMask (k.broadcastTargets f.core)
      ackMask := 0
      result := 0
      state := .published }

theorem step_publish (tx : f.tx = some slot) (epoch : BitVec 64) :
    step expired k ⟨f, .publish epoch⟩ =
      (published k f slot epoch, .inl ⟨f, .broadcast (k.broadcastTargets f.core)⟩) := by
  simp [step, tx, published]

theorem coreMask_cons {c : Core} : coreMask (c :: cs) = 1#32 <<< c.val ||| coreMask cs := by
  have shift : ∀ (cs : List Core) (m : BitVec 32),
      cs.foldl (fun mask c => mask ||| 1#32 <<< c.val) m = m ||| coreMask cs := by
    intro cs
    induction cs with
    | nil => simp [coreMask]
    | cons c cs ih =>
      intro m
      rw [coreMask, foldl_cons, foldl_cons, ih, ih, BitVec.or_assoc]
      simp
  rw [coreMask, foldl_cons, shift]
  simp

theorem coreMask_ne_zero (h : cs ≠ []) : coreMask cs ≠ 0 := by
  obtain ⟨c, cs, rfl⟩ := exists_cons_of_ne_nil h
  rw [coreMask_cons]
  intro zero
  have bit : ∀ c : Core, 1#32 <<< c.val ≠ 0 := by decide
  exact bit c (BitVec.or_eq_zero_iff.mp zero).1

/-- Whether or not a request gets through, it changes neither tables nor records. -/
theorem broadcast_all {expired : Bool} (tx : f.tx = some slot) :
    ∀ k : Kernel, ∃ inbox, Reaches (step expired) k ⟨f, .broadcast cs⟩
      { k with inbox := inbox } ⟨f, .await⟩ := by
  induction cs with
  | nil => exact fun k => ⟨k.inbox, .single rfl⟩
  | cons c cs ih =>
    intro k
    obtain ⟨inbox, sent⟩ : ∃ inbox, (k.sendReq f.core c slot .capRevoke .revokePrepare).1 =
        { k with inbox := inbox } := by
      unfold sendReq urpcBootstrapSend
      split
      · exact ⟨k.inbox, rfl⟩
      split
      · exact ⟨k.inbox, rfl⟩
      · exact ⟨_, rfl⟩
    obtain ⟨inbox', later⟩ := ih { k with inbox := inbox }
    refine ⟨inbox', .step ?_ later⟩
    simp [step, tx, sent]

section

variable (root : AtRoot k f)

include root

theorem unlinkFrom_skips
    (chain : k.registry.heap.Chain (k.registry.entry p).firstChild (us ++ f.root :: vs)) :
    ∃ k', k.unlinkFrom f p = some k' ∧ SkipsRoot k f p us k' := by
  have nodup := chain.nodup
  have apart : f.root ∉ us := fun mem =>
    (nodup_append'.mp nodup).2.2 mem mem_cons_self
  have short : us.length < chainFuel := by
    have := nodup.length_le_card
    rw [card_capRef, length_append, length_cons] at this
    unfold chainFuel
    omega
  obtain ⟨prev, found, first, last⟩ := searchChain_found root apart none chain short
  unfold unlinkFrom
  simp only [found]
  cases hl : us.getLast? with
  | none =>
    have empty := getLast?_eq_none_iff.mp hl
    rw [first empty]
    exact ⟨_, rfl, .head empty⟩
  | some q =>
    obtain ⟨L, rfl, target⟩ := last q hl
    simp only [(resolve_eq_some.mp target).1]
    exact ⟨_, rfl, .later hl⟩

/-- A root with a parent is taken out of the parent's list, and the freeze walk starts. -/
theorem unlink_root (forest : k.registry.heap.Forested fun _ => False)
    (child : k.registry.heap.parentOf f.root = some p) :
    ∃ k', step expired k ⟨f, .unlink (k.registry.entry f.root).parent⟩ =
        (k', .inl ⟨f, .mark (f.rootLocator 0)⟩) ∧
      LinksOnly k k' ∧ k'.registry.heap.Forested (· = f.root) ∧
      (∀ d, k.registry.heap.parentOf d ≠ some p →
        (k'.registry.entry d).nextSibling = (k.registry.entry d).nextSibling) := by
  obtain ⟨xs, listed, complete⟩ := forest.children p
  obtain ⟨us, vs, rfl⟩ := append_of_mem ((complete f.root).mpr ⟨child, id⟩)
  obtain ⟨k', done, skips⟩ := unlinkFrom_skips root listed
  obtain ⟨place, used, generation⟩ := resolve_eq_some.mp child
  obtain ⟨id, core, slot⟩ := locate_eq_some.mp place
  refine ⟨k', ?_, skips.linksOnly, skips.forested forest child listed, fun d other => ?_⟩
  · have table : k.registry.capLocatorResolveTable (k.registry.heap.parent f.root) = some p.table :=
      resolveTable_eq_some.mpr ⟨id, core⟩
    have whole : k.unlinkRoot f (k.registry.entry f.root).parent = .done k' := by
      unfold unlinkRoot
      simp only [heap_parent] at table slot generation
      simp [table, root.used, root.same, slot, used, generation, done]
    simp [step, root.home, whole]
  · cases skips with
    | head => exact setFirst_next
    | @later q last =>
      have onList := (complete q).mp (by simp [mem_of_getLast? last])
      have ne : d ≠ q := fun e => other (e ▸ onList.1)
      rw [edit_registry, edit_entry_other ne]

/-! ## Asking the other cores -/

theorem step_epoch : step expired k ⟨f, .epoch⟩ = (k.edit f.root .bumpEpoch, .inl ⟨f,
      if f.tx.isSome then .publish ((k.registry.entry f.root).revocationEpoch + 1)
      else .free (f.rootLocator 0) .down⟩) := by
  simp [step, root.home, root.used, root.same]

theorem atRoot_bumpEpoch (txs : TxTable) :
    AtRoot { k.edit f.root .bumpEpoch with txs := txs } f := by
  refine ⟨?_, ?_, ?_⟩
  · show (k.registry.edit f.root .bumpEpoch).cspaceId f.table = _
    rw [(edit_sameSpaces _ _ _).cspaceId, root.home]
  · exact (edit_inUse _ _ _ _).trans root.used
  · exact (edit_generation _ _ _ _).trans root.same

/-- With nobody to ask, a revocation goes straight on to free the tree. -/
theorem ask_nobody (nobody : f.tx = none ∨ k.broadcastTargets f.core = []) :
    ∃ txs', Reaches (step expired) k ⟨f, .epoch⟩
        { k.edit f.root .bumpEpoch with txs := txs' } ⟨f, .free (f.rootLocator 0) .down⟩ ∧
      ∀ slot, f.tx = some slot → (txs' f.core slot).state = .free := by
  have start := step_epoch expired root
  cases tx : f.tx with
  | none =>
    simp only [tx, isSome_none, Bool.false_eq_true, if_false] at start
    exact ⟨k.txs, .single start, fun _ h => (by cases h)⟩
  | some slot =>
    simp only [tx, isSome_some, if_true] at start
    have empty : k.broadcastTargets f.core = [] := by simpa [tx] using nobody
    generalize (k.registry.entry f.root).revocationEpoch + 1 = epoch at start
    have publish := step_publish expired (k := k.edit f.root .bumpEpoch) tx epoch
    rw [show (k.edit f.root .bumpEpoch).broadcastTargets f.core = [] from empty] at publish
    generalize hk : published (k.edit f.root .bumpEpoch) f slot epoch = k₁ at publish
    have asked : step expired k₁ ⟨f, .broadcast []⟩ = (k₁, .inl ⟨f, .await⟩) := rfl
    have silent : acknowledged (k₁.txs f.core slot) = true := by
      subst hk
      simp [published, setTx, acknowledged, coreMask,
        show (k.edit f.root .bumpEpoch).broadcastTargets f.core = [] from empty]
    have answered : step expired k₁ ⟨f, .await⟩ = (k₁, .inl ⟨f, .commit⟩) := by
      simp [step, tx, silent]
    have commit : step expired k₁ ⟨f, .commit⟩ =
        (k₁.setTxState f.core slot .committed, .inl ⟨f, .releaseCommitted⟩) := by
      simp [step, tx]
    generalize hk' : k₁.setTxState f.core slot .committed = k₂ at commit
    have release : step expired k₂ ⟨f, .releaseCommitted⟩ =
        (k₂.releaseTx f.core slot, .inl ⟨f, .free (f.rootLocator 0) .down⟩) := by
      simp [step, tx]
    refine ⟨(k₂.releaseTx f.core slot).txs, ?_, ?_⟩
    · have same : { k.edit f.root .bumpEpoch with txs := (k₂.releaseTx f.core slot).txs } =
          k₂.releaseTx f.core slot := by
        subst hk' hk; rfl
      rw [same]
      exact .step start (.step publish (.step asked (.step answered (.step commit (.single release)))))
    · simp [releaseTx, TxTable.capTxRelease, TxTable.setState]

/-- With somebody to ask and nobody to answer, the deadline passes and the root is
quarantined. -/
theorem ask_somebody (tx : f.tx = some slot)
    (somebody : k.broadcastTargets f.core ≠ []) : ∃ txs' inbox', Returns (step true) k ⟨f, .epoch⟩
      { (k.edit f.root .bumpEpoch).edit f.root (.state .quarantined) with
        txs := txs', inbox := inbox' } (-7) := by
  have start := step_epoch true root
  simp only [tx, isSome_some, if_true] at start
  generalize (k.registry.entry f.root).revocationEpoch + 1 = epoch at start
  have publish := step_publish true (k := k.edit f.root .bumpEpoch) tx epoch
  generalize hk : published (k.edit f.root .bumpEpoch) f slot epoch = k₁ at publish
  obtain ⟨inbox, asked⟩ := broadcast_all tx k₁
  have silent : acknowledged (k₁.txs f.core slot) = false := by
    have mask : coreMask ((k.edit f.root .bumpEpoch).broadcastTargets f.core) ≠ 0 :=
      coreMask_ne_zero somebody
    subst hk
    simpa [published, setTx, acknowledged] using Ne.symm mask
  generalize hk₂ : ({ k₁ with inbox := inbox } : Kernel) = k₂ at asked
  have late : step true k₂ ⟨f, .await⟩ = (k₂, .inl ⟨f, .abort⟩) := by
    subst hk₂; simp [step, tx, silent]
  have abort : step true k₂ ⟨f, .abort⟩ =
      (k₂.setTxState f.core slot .aborted, .inl ⟨f, .releaseAborted⟩) := by
    simp [step, tx]
  generalize hk₃ : k₂.setTxState f.core slot .aborted = k₃ at abort
  have release : step true k₃ ⟨f, .releaseAborted⟩ =
      (k₃.releaseTx f.core slot, .inl ⟨f, .quarantine⟩) := by
    simp [step, tx]
  generalize hk₄ : k₃.releaseTx f.core slot = k₄ at release
  have registry : k₄.registry = (k.edit f.root .bumpEpoch).registry := by
    subst hk₄ hk₃ hk₂ hk; rfl
  have root' : AtRoot k₄ f := by
    have bumped := atRoot_bumpEpoch root k.txs
    exact ⟨registry ▸ bumped.home, registry ▸ bumped.used, registry ▸ bumped.same⟩
  have last : step true k₄ ⟨f, .quarantine⟩ =
      (k₄.edit f.root (.state .quarantined), .inr (-7)) := by
    simp [step, root'.home, root'.used, root'.same]
  have whole : k₄.edit f.root (.state .quarantined) =
      { (k.edit f.root .bumpEpoch).edit f.root (.state .quarantined) with
        txs := k₄.txs, inbox := k₄.inbox } := by
    subst hk₄ hk₃ hk₂ hk; rfl
  refine ⟨k₄.txs, k₄.inbox, ?_⟩
  rw [← whole]
  exact (Reaches.step start (.step publish (asked.trans (.step late (.step abort
    (.single release)))))).returns (.last last)

/-! ## Freeing the tree -/

/-- The post-order walk from the root frees the root's tree and then the root. -/
theorem free_root (ranked : k.registry.heap.Ranked)
    (rep : k.registry.heap.Rep f.root (k.registry.entry f.root).firstChild F)
    (unpinned : ∀ c, c = f.root ∨ c ∈ F.nodes → (k.registry.entry c).activePins = 0)
    (notAborted : ∀ slot, f.tx = some slot → (k.txs f.core slot).state = .free) :
    Returns (step expired) k ⟨f, .free (f.rootLocator 0) .down⟩
      (k.freeAll (F.postorder ++ [f.root])) 0 := by
  have apart := rep.not_mem ranked
  have notFreed : f.root ∉ F.postorder := fun mem => apart (Forest.mem_postorder.mp mem)
  have freed := freedOnly_freeAll k F.postorder
  have same := freed.kept f.root notFreed
  have root' : AtRoot (k.freeAll F.postorder) f :=
    ⟨by rw [freed.spaces.cspaceId, root.home], by rw [same, root.used], by rw [same, root.same]⟩
  obtain ⟨L, dir, atRoot, bottom, walk⟩ : ∃ L dir, k.registry.resolve L = some f.root ∧
      (dir = .down → capLocatorIsNull (k.registry.entry f.root).firstChild = true) ∧
      Reaches (step expired) k ⟨f, .free (f.rootLocator 0) .down⟩ (k.freeAll F.postorder)
        ⟨f, .free L dir⟩ := by
    cases leaf : capLocatorIsNull (k.registry.entry f.root).firstChild with
    | true =>
      have none := rep.eq_nil leaf
      subst none
      exact ⟨f.rootLocator 0, .down, root.resolve 0, fun _ => rfl, .refl _ _⟩
    | false =>
      obtain ⟨L, target, walk⟩ := free_forest expired rep root.home leaf apart
        (nodup_cons.mpr ⟨apart, rep.nodup ranked⟩) (fun c hc => unpinned c (.inr hc))
      exact ⟨L, .up, target, fun e => (by cases e), .step (step_descend expired (root.resolve 0) leaf) walk⟩
  have here := freed.resolve.mpr ⟨atRoot, notFreed⟩
  have last := step_free expired (f := f) here
    (by rw [same]; exact unpinned f.root (.inl rfl)) (by rw [same]; exact bottom)
  rw [afterFree, if_pos (root'.isRoot here)] at last
  have whole : (k.freeAll F.postorder).freeEntry f.root = k.freeAll (F.postorder ++ [f.root]) := by
    rw [freeAll_append]; rfl
  rw [whole] at last
  refine (walk.trans (.single last)).returns (.last ?_)
  have txs : (k.freeAll (F.postorder ++ [f.root])).txs = k.txs := by
    rw [(freedOnly_freeAll k (F.postorder ++ [f.root])).rest]
  cases tx : f.tx with
  | none => simp [step, tx]
  | some slot => simp [step, tx, txs, notAborted slot tx]

end

/-! ## The whole call -/

theorem MarkedOnly.atRoot {cs : List CapRef} (h : MarkedOnly k k' cs) (root : AtRoot k f) :
    AtRoot k' f := by
  refine ⟨h.home root.home, ?_, ?_⟩ <;> rcases h.entry f.root with e | ⟨-, e⟩ <;> rw [e]
  · exact root.used
  · exact root.used
  · exact root.same
  · exact root.same

/-- What a revocation does to the entries outside the revoked tree: it marks the
ones it strays to, and changes nothing else. -/
structure Outside (k k' : Kernel) (tree strays : List CapRef) : Prop where
  spaces : Registry.SameSpaces k.registry k'.registry
  entry : ∀ d, d ∉ tree → k'.registry.entry d = k.registry.entry d ∨
    d ∈ strays ∧ k'.registry.entry d = { k.registry.entry d with state := .revoking }
  marked : ∀ d ∈ strays, d ∉ tree → (k.registry.entry d).inUse = true →
    (k'.registry.entry d).state = .revoking
  channels : k'.channels = k.channels

theorem MarkedOnly.outside {k₁ : Kernel} {tree strays : List CapRef}
    (marked : MarkedOnly k k₁ (tree ++ strays))
    (spaces : Registry.SameSpaces k₁.registry k'.registry)
    (outer : ∀ d, d ∉ tree → k'.registry.entry d = k₁.registry.entry d)
    (channels : k'.channels = k₁.channels) : Outside k k' tree strays := by
  refine ⟨marked.spaces.trans spaces, fun d hd => ?_, fun d hd hout used => ?_, ?_⟩
  · rw [outer d hd]
    rcases marked.entry d with e | ⟨mem, e⟩
    · exact .inl e
    · exact .inr ⟨(mem_append.mp mem).resolve_left hd, e⟩
  · rw [outer d hout]
    exact marked.marked d (by simp [hd]) used
  · rw [channels, marked.rest]

theorem bumpEpoch_pins (k : Kernel) (c d : CapRef) :
    ((k.edit c .bumpEpoch).registry.entry d).activePins = (k.registry.entry d).activePins := by
  rcases edit_entry_cases with h | h <;>
    rw [edit_registry, h]
  rfl

section

variable (root : AtRoot k f) (forest : k.registry.heap.Forested (· = f.root))
    (tops : ∀ c, (k.registry.entry c).inUse = true → c ≠ f.root →
      k.registry.heap.parentOf c = none → k.registry.locate (k.registry.entry c).nextSibling = none)
    (rep : k.registry.heap.Rep f.root (k.registry.entry f.root).firstChild F)

include root forest tops rep

/-- The freeze walk from the root ends. It marks the tree below the root and, when
the root has no child, whatever a climb from its parent meets. -/
theorem mark_root (expired : Bool) :
    ∃ M k', Reaches (step expired) k ⟨f, .mark (f.rootLocator 0)⟩ k' ⟨f, .epoch⟩ ∧
      MarkedOnly k k' (f.root :: F.nodes ++ M) ∧ RootStrays k.registry.heap f.root M := by
  have start := step_mark expired (f := f) (root.resolve 0)
  have marked := markedOnly_edit k f.root
  cases leaf : capLocatorIsNull (k.registry.entry f.root).firstChild with
  | false =>
    rw [afterMark_parent leaf] at start
    obtain ⟨L, target, walk⟩ := mark_forest expired rep _ marked.heap
      (marked.home root.home) leaf (rep.not_mem forest.ranked)
    have whole := marked.trans (markedOnly_markAll (k.edit f.root (.state .revoking)) F.nodes)
    refine ⟨[], _, (Reaches.step start walk).trans (.single ?_), by simpa using whole, .kids leaf⟩
    rw [step_climb, climbStep_root (whole.home root.home) ((congrFun whole.resolve L).trans target)]
  | true =>
    have none := rep.eq_nil leaf
    subst none
    have up : afterMark f f.root (k.registry.entry f.root) =
        .climb (k.registry.entry f.root).parent := by simp [afterMark, leaf]
    rw [up] at start
    cases parent : k.registry.heap.parentOf f.root with
    | none =>
      refine ⟨[], _, .step start (.single ?_), by simpa [Forest.nodes] using marked,
        .top leaf parent⟩
      rw [step_climb, climbStep_none]
      exact (congrFun marked.resolve _).trans parent
    | some p =>
      have outside : ¬ Relation.ReflTransGen k.registry.heap.ChildOf p f.root := fun path =>
        forest.ranked.irrefl f.root (Relation.TransGen.head' parent path)
      obtain ⟨M, k', walk, marked', strays⟩ := climb_out expired forest
        (k.edit f.root (.state .revoking)) _ marked.heap (marked.home root.home)
        (fun l c target hc top => (locate_congr marked.spaces.cspaceId _).trans
          (tops c (resolve_inUse target) hc top))
        outside parent
      exact ⟨M, k', .step start walk, by simpa [Forest.nodes] using marked.trans marked',
        .climb leaf parent strays⟩

/-- With the root detached and nobody to ask, the call returns 0 and the root's
tree is free. -/
theorem revoke_tree (unpinned : ∀ c, c = f.root ∨ c ∈ F.nodes → (k.registry.entry c).activePins = 0)
    (nobody : f.tx = none ∨ k.broadcastTargets f.core = []) :
    ∃ M k', Returns (step true) k ⟨f, .mark (f.rootLocator 0)⟩ k' 0 ∧
      Outside k k' (f.root :: F.nodes) M ∧ RootStrays k.registry.heap f.root M ∧
      ∀ d ∈ f.root :: F.nodes, (k'.registry.entry d).inUse = false := by
  obtain ⟨M, k₁, mark, marked, strays⟩ := mark_root root forest tops rep true
  have root₁ := MarkedOnly.atRoot marked root
  have nobody₁ : f.tx = none ∨ k₁.broadcastTargets f.core = [] := by
    rw [marked.rest]; exact nobody
  obtain ⟨txs, ask, released⟩ := ask_nobody true root₁ nobody₁
  generalize hk₂ : ({ k₁.edit f.root .bumpEpoch with txs := txs } : Kernel) = k₂ at ask
  have heap₂ : k₂.registry.heap = k.registry.heap := by
    subst hk₂
    exact (edit_heap (fun _ => rfl) (fun _ => rfl)).trans marked.heap
  have rep₂ : k₂.registry.heap.Rep f.root (k₂.registry.entry f.root).firstChild F := by
    rw [← heap_first, heap₂]; exact rep
  have pins : ∀ d, (k₂.registry.entry d).activePins = (k.registry.entry d).activePins := by
    intro d
    subst hk₂
    refine (bumpEpoch_pins k₁ f.root d).trans ?_
    rcases marked.entry d with e | ⟨-, e⟩ <;> rw [e]
  have free := free_root true (hk₂ ▸ atRoot_bumpEpoch root₁ txs)
    (heap₂ ▸ forest.ranked) rep₂ (fun c hc => (pins c).trans (unpinned c hc))
    (by subst hk₂; exact released)
  have freed := freedOnly_freeAll k₂ (F.postorder ++ [f.root])
  have tree : ∀ d, d ∈ F.postorder ++ [f.root] ↔ d ∈ f.root :: F.nodes := by
    intro d
    simp only [mem_append, mem_cons, not_mem_nil, or_false, Forest.mem_postorder]
    exact or_comm
  have outer : ∀ d, d ∉ f.root :: F.nodes →
      (k₂.freeAll (F.postorder ++ [f.root])).registry.entry d = k₁.registry.entry d := by
    intro d hd
    rw [freed.kept d (fun mem => hd ((tree d).mp mem))]
    subst hk₂
    exact edit_entry_other (fun e => hd (by simp [e]))
  refine ⟨M, _, (mark.trans ask).returns free, MarkedOnly.outside marked ?_ outer ?_, strays,
    fun d hd => freed.freed d ((tree d).mpr hd)⟩
  · refine Registry.SameSpaces.trans ?_ freed.spaces
    subst hk₂
    exact edit_sameSpaces _ _ _
  · rw [freed.rest]; subst hk₂; rfl

/-- With somebody to ask, the call gives up after the freeze walk and leaves the
root quarantined. -/
theorem refused_tree (tx : f.tx = some slot) (somebody : k.broadcastTargets f.core ≠ []) :
    ∃ M k', Returns (step true) k ⟨f, .mark (f.rootLocator 0)⟩ k' (-7) ∧
      Outside k k' (f.root :: F.nodes) M ∧ RootStrays k.registry.heap f.root M := by
  obtain ⟨M, k₁, mark, marked, strays⟩ := mark_root root forest tops rep true
  have somebody₁ : k₁.broadcastTargets f.core ≠ [] := by rw [marked.rest]; exact somebody
  obtain ⟨txs, inbox, ask⟩ := ask_somebody (MarkedOnly.atRoot marked root) tx somebody₁
  refine ⟨M, _, mark.returns ask, MarkedOnly.outside marked ?_ (fun d hd => ?_) rfl, strays⟩
  · exact (edit_sameSpaces _ _ _).trans (edit_sameSpaces _ _ _)
  · have ne : d ≠ f.root := fun e => hd (by simp [e])
    exact (edit_entry_other ne).trans (edit_entry_other ne)

end

end RevokeCall

end BharatOS
