import BharatOS.Lib.Runs
import Mathlib.Data.BitVec
import Mathlib.Logic.Function.Basic

/-!
# The block cache (`cache.c`)

A dirty block is written when its slot is taken for another block and when its device is synced.
Which requests complete is up to the device.
-/

namespace BharatOS

open List Function

/-- A block: its device and its address there. -/
abbrev BlockId := BitVec 32 × BitVec 64

/-- `cache_entry_t`; `D` is what a buffer holds. -/
structure CacheEntry (D : Type) where
  id : BlockId
  flags : BitVec 32
  buffer : Option D
  inUse : Bool
  pinCount : BitVec 8

def cacheBlockValid : BitVec 32 := 1

def cacheBlockDirty : BitVec 32 := 2

/-- A write request, and whether `block_queue_request` returned 0 for it. -/
structure BlockWrite (D : Type) where
  id : BlockId
  data : D
  completed : Bool
  deriving DecidableEq, Repr

structure BlockCache (D : Type) where
  capacity : Nat
  entries : Nat → CacheEntry D
  clockHand : Nat

variable {D : Type}

namespace BlockCache

variable (c : BlockCache D)

/-- The write-back of an entry, if it is dirty. -/
def writeBack (completed : Bool) (e : CacheEntry D) : Option (BlockWrite D) :=
  if e.inUse ∧ e.flags &&& cacheBlockDirty ≠ 0 then e.buffer.map (⟨e.id, ·, completed⟩) else none

/-- `cache_init_with_profile`. -/
def cacheInit (cacheBlockBudget : Nat) : BlockCache D :=
  ⟨min (max cacheBlockBudget 32) 4096, fun _ => ⟨(0, 0), 0, none, false, 0⟩, 0⟩

def cacheFind (id : BlockId) : Option Nat :=
  (range c.capacity).find? fun i => (c.entries i).inUse && (c.entries i).id == id

def cachePickVictim : Option Nat :=
  ((range c.capacity).map fun probe => (c.clockHand + probe) % c.capacity).find? fun i =>
    !(c.entries i).inUse || (c.entries i).pinCount == 0

def setPins (i : Nat) (pins : BitVec 8) : BlockCache D :=
  { c with entries := update c.entries i { c.entries i with pinCount := pins } }

/-- Returns the slot of the block, if any; `completes` is the fate of a write-back. -/
def cacheGetBlock (id : BlockId) (completes : Bool) :
    BlockCache D × List (BlockWrite D) × Option Nat :=
  match c.cacheFind id with
  | some i =>
    let pins := (c.entries i).pinCount
    (c.setPins i (if pins < 0xFF then pins + 1 else pins), [], some i)
  | none =>
    match c.cachePickVictim with
    | none => (c, [], none)
    | some i =>
      ({ c with
          entries := update c.entries i ⟨id, cacheBlockValid, none, true, 1⟩
          clockHand := if i + 1 ≥ c.capacity then 0 else i + 1 },
        (writeBack completes (c.entries i)).toList, some i)

def cachePutBlock (i : Nat) : BlockCache D × Int :=
  if i < c.capacity ∧ (c.entries i).inUse then
    let pins := (c.entries i).pinCount
    (c.setPins i (if pins > 0 then pins - 1 else pins), 0)
  else (c, -1)

/-- `completes i` is the fate of the write of slot `i`, `flushes` that of the flush. -/
def cacheSync (device : BitVec 32) (completes : Nat → Bool) (flushes : Bool) :
    BlockCache D × List (BlockWrite D) × Int :=
  let mine i := (c.entries i).id.1 = device ∧ (writeBack true (c.entries i)).isSome
  ({ c with entries := fun i =>
      if i < c.capacity ∧ mine i then
        { c.entries i with flags := (c.entries i).flags &&& ~~~cacheBlockDirty }
      else c.entries i },
    (range c.capacity).filterMap fun i =>
      if mine i then writeBack (completes i) (c.entries i) else none,
    if flushes then 0 else -1)

/-- A caller marks the block in the slot dirty and gives it a buffer. -/
def write (i : Nat) (data : D) : BlockCache D :=
  let e := c.entries i
  let e := { e with flags := e.flags ||| cacheBlockDirty, buffer := some data }
  { c with entries := update c.entries i e }

/-- The contents are in the cache and marked dirty. -/
def Holds (id : BlockId) (data : D) : Prop :=
  ∃ i < c.capacity, writeBack true (c.entries i) = some ⟨id, data, true⟩

instance [DecidableEq D] (id : BlockId) (data : D) : Decidable (c.Holds id data) :=
  inferInstanceAs (Decidable (∃ i < c.capacity, _))

end BlockCache

inductive CacheCall (D : Type) where
  | get (id : BlockId) (completes : Bool)
  | write (slot : Nat) (data : D)
  | put (slot : Nat)
  | sync (device : BitVec 32) (completes : Nat → Bool) (flushes : Bool)

/-- The cache with the contents last given to each block, whether a request that wrote them
has completed, and whether a call that dropped them has failed. -/
structure CacheLog (D : Type) where
  cache : BlockCache D
  latest : BlockId → Option D
  written : BlockId → Prop
  reported : BlockId → Prop

namespace CacheLog

open BlockCache

def note (s : CacheLog D) (cache : BlockCache D) (writes : List (BlockWrite D)) (failed : Prop) :
    CacheLog D where
  cache := cache
  latest := s.latest
  written id := s.written id ∨ ∃ data, s.latest id = some data ∧ ⟨id, data, true⟩ ∈ writes
  reported id := s.reported id ∨ ∃ data, s.latest id = some data ∧ s.cache.Holds id data ∧
    ¬ cache.Holds id data ∧ failed

def step (s : CacheLog D) : CacheCall D → CacheLog D
  | .get id completes =>
    let (cache, writes, slot) := s.cache.cacheGetBlock id completes
    s.note cache writes (slot = none)
  | .write i data =>
    let id := (s.cache.entries i).id
    if i < s.cache.capacity ∧ (s.cache.entries i).inUse then
      ⟨s.cache.write i data, update s.latest id (some data), update s.written id False,
        update s.reported id False⟩
    else s
  | .put i =>
    let (cache, result) := s.cache.cachePutBlock i
    s.note cache [] (result ≠ 0)
  | .sync device completes flushes =>
    let (cache, writes, result) := s.cache.cacheSync device completes flushes
    s.note cache writes (result ≠ 0)

/-- The device completes a write-back, and all writes of a sync unless its flush fails. -/
def Completes (_ : CacheLog D) : CacheCall D → Prop
  | .get _ completes => completes = true
  | .sync _ completes flushes => (∀ i, completes i = true) ∨ flushes = false
  | .write _ _ | .put _ => True

def Kept (s : CacheLog D) : Prop :=
  ∀ id data, s.latest id = some data → s.cache.Holds id data ∨ s.written id ∨ s.reported id

variable {s : CacheLog D}

/-- What a call drops is written, or the call fails. -/
theorem Kept.note (h : s.Kept) {cache : BlockCache D} {writes : List (BlockWrite D)}
    {failed : Prop} (size : cache.capacity = s.cache.capacity)
    (drops : ∀ i < s.cache.capacity, ∀ w, writeBack true (s.cache.entries i) = some w →
      writeBack true (cache.entries i) = some w ∨ w ∈ writes ∨ failed) :
    (s.note cache writes failed).Kept := by
  intro id data latest
  rcases h id data latest with held | written | reported
  · obtain ⟨i, inside, dirty⟩ := held
    by_cases still : cache.Holds id data
    · exact .inl still
    rcases drops i inside _ dirty with now | written | failed
    · exact absurd ⟨i, size ▸ inside, now⟩ still
    · exact .inr (.inl (.inr ⟨data, latest, written⟩))
    · exact .inr (.inr (.inr ⟨data, latest, ⟨i, inside, dirty⟩, still, failed⟩))
  · exact .inr (.inl (.inl written))
  · exact .inr (.inr (.inl reported))

theorem setPins_keeps (c : BlockCache D) (i j : Nat) (pins : BitVec 8) :
    writeBack true ((c.setPins i pins).entries j) = writeBack true (c.entries j) := by
  by_cases same : j = i
  · subst same
    simp [setPins, writeBack]
  · simp [setPins, same]

theorem writeBack_id {e : CacheEntry D} {w : BlockWrite D} (dirty : writeBack true e = some w) :
    w.id = e.id := by
  unfold writeBack at dirty
  split at dirty
  · obtain ⟨_, -, rfl⟩ := Option.map_eq_some_iff.mp dirty
    rfl
  · cases dirty

theorem Kept.get (h : s.Kept) (id : BlockId) : (s.step (.get id true)).Kept := by
  simp only [step, cacheGetBlock]
  split
  · exact h.note rfl fun j _ w dirty => .inl ((setPins_keeps ..).trans dirty)
  split
  · exact h.note rfl fun _ _ _ dirty => .inl dirty
  rename_i i _
  refine h.note rfl fun j _ w dirty => ?_
  by_cases same : j = i
  · exact .inr (.inl (by simp [← same, dirty]))
  · exact .inl (by simp [same, dirty])

theorem Kept.sync (h : s.Kept) (device : BitVec 32) {completes : Nat → Bool} {flushes : Bool}
    (done : (∀ i, completes i = true) ∨ flushes = false) :
    (s.step (.sync device completes flushes)).Kept := by
  refine h.note rfl fun i inside w dirty => ?_
  by_cases mine : (s.cache.entries i).id.1 = device
  · rcases done with done | fails
    · exact .inr (.inl (mem_filterMap.mpr ⟨i, mem_range.mpr inside, by simp [mine, dirty, done]⟩))
    · exact .inr (.inr (by simp [fails]))
  · exact .inl (by simp [mine, dirty])

theorem Kept.write (h : s.Kept) (i : Nat) (data : D) : (s.step (.write i data)).Kept := by
  simp only [step]
  split
  · rename_i used
    intro id latest now
    by_cases same : id = (s.cache.entries i).id
    · subst same
      simp only [update_self, Option.some.injEq] at now
      subst now
      have dirty : ((s.cache.entries i).flags ||| cacheBlockDirty) &&& cacheBlockDirty ≠ 0 := by
        rw [BitVec.and_or_distrib_right]
        exact fun zero => absurd (BitVec.or_eq_zero_iff.mp zero).2 (by decide)
      exact .inl ⟨i, used.1, by simpa [BlockCache.write, writeBack, used.2] using dirty⟩
    · simp only [update_of_ne same] at now ⊢
      refine (h id latest now).imp (fun ⟨j, inside, dirty⟩ => ⟨j, inside, ?_⟩) fun other => other
      have here : j ≠ i := fun here => same (here ▸ writeBack_id dirty)
      simpa [BlockCache.write, here] using dirty
  · exact h

/-- While the device completes what the cache writes, or a failing flush is reported, no dirty
contents are lost. -/
theorem dirty_data_kept {cacheBlockBudget : Nat} (run : Run (fun s a t => s.step a = t) Completes
    ⟨cacheInit cacheBlockBudget, fun _ => none, fun _ => False, fun _ => False⟩ s) : s.Kept := by
  refine run.invariant Kept (fun _ _ none => by cases none) fun t a u h allowed steps => ?_
  subst steps
  cases a with
  | get id completes => exact allowed ▸ h.get id
  | write i data => exact h.write i data
  | put i =>
    simp only [step, cachePutBlock]
    split
    · exact h.note rfl fun j _ w dirty => .inl ((setPins_keeps ..).trans dirty)
    · exact h.note rfl fun _ _ _ dirty => .inl dirty
  | sync device completes flushes => exact h.sync device allowed

/-- A sync writes the contents and cleans the block. -/
theorem dirty_data_kept_first :
    let s : CacheLog Nat := ⟨cacheInit 64, fun _ => none, fun _ => False, fun _ => False⟩
    let t := ((s.step (.get (0, 1) true)).step (.write 0 7)).step (.sync 0 (fun _ => true) true)
    t.latest (0, 1) = some 7 ∧ ¬ t.cache.Holds (0, 1) 7 ∧ t.Kept :=
  ⟨rfl, by decide +kernel, dirty_data_kept (.tail (a := .sync 0 (fun _ => true) true)
    (.tail (a := .write 0 7) (.tail (a := .get (0, 1) true) .refl rfl rfl) trivial rfl)
    (.inl fun _ => rfl) rfl)⟩

/-- The write fails, the flush does not: sync returns 0 and the block is clean. -/
theorem sync_loses_dirty :
    let c := ((cacheInit 64 : BlockCache Nat).cacheGetBlock (0, 1) true).1.write 0 7
    let synced := c.cacheSync 0 (fun _ => false) true
    c.Holds (0, 1) 7 ∧ ¬ synced.1.Holds (0, 1) 7 ∧ synced.2 = ([⟨(0, 1), 7, false⟩], 0) := by
  decide +kernel

end CacheLog

/-! ## Blocks in use -/

/-- The block is in the entry. -/
def BlockCache.At (c : BlockCache D) (id : BlockId) (i : Nat) : Prop :=
  i < c.capacity ∧ (c.entries i).inUse = true ∧ (c.entries i).id = id

inductive PinCall where
  | get (id : BlockId) (completes : Bool)
  | put (id : BlockId) (slot : Nat)

/-- The cache, the slots that the unmatched gets of a block have returned, and the one that the
first of these gets returned. -/
structure PinLog (D : Type) where
  cache : BlockCache D
  held : BlockId → List Nat
  first : BlockId → Nat

namespace PinLog

open BlockCache

/-- A put has to match an earlier get. -/
def step (s : PinLog D) : PinCall → Option (PinLog D)
  | .get id completes =>
    match s.cache.cacheGetBlock id completes with
    | (cache, _, none) => some { s with cache := cache }
    | (cache, _, some i) => some ⟨cache, update s.held id (i :: s.held id),
      if s.held id = [] then update s.first id i else s.first⟩
  | .put id i =>
    if i ∈ s.held id then some { s with
      cache := (s.cache.cachePutBlock i).1
      held := update s.held id ((s.held id).erase i) }
    else none

/-- A block in use is where its first get found it, and no block is in two entries. -/
structure Safe (s : PinLog D) : Prop where
  kept : ∀ id, ∀ i ∈ s.held id, i = s.first id ∧ s.cache.At id i
  unique : ∀ id i j, s.cache.At id i → s.cache.At id j → i = j

/-- No block has more uses than its entry can count. -/
def Pinnable (s : PinLog D) : PinCall → Prop
  | .get id _ => (s.held id).length < 255
  | .put _ _ => True

instance (s : PinLog D) : (call : PinCall) → Decidable (s.Pinnable call)
  | .get _ _ => inferInstanceAs (Decidable (_ < _))
  | .put _ _ => .isTrue trivial

structure Counted (s : PinLog D) : Prop extends Safe s where
  pins : ∀ id i, s.cache.At id i → (s.cache.entries i).pinCount.toNat = (s.held id).length

variable {s t : PinLog D} {id : BlockId} {i : Nat} {completes : Bool}

section

variable (h : s.Counted)

include h

/-- The uses of one block change. -/
theorem Counted.setPins (there : s.cache.At id i) {slots : List Nat} {first : BlockId → Nat}
    {pins : BitVec 8} (count : pins.toNat = slots.length)
    (own : ∀ j ∈ slots, j = i ∧ first id = i) (others : ∀ id' ≠ id, first id' = s.first id') :
    Counted ⟨s.cache.setPins i pins, update s.held id slots, first⟩ := by
  have same : ∀ id' j, (s.cache.setPins i pins).At id' j ↔ s.cache.At id' j := by
    intro id' j
    by_cases here : j = i
    · subst here; simp [At, BlockCache.setPins]
    · simp [At, BlockCache.setPins, here]
  refine ⟨⟨fun id' j member => ?_, ?_⟩, fun id' j there' => ?_⟩
  · simp only [same]
    by_cases here : id' = id
    · subst here
      obtain ⟨rfl, starts⟩ := own j (by simpa using member)
      exact ⟨starts.symm, there⟩
    · rw [others id' here]
      exact h.kept id' j (by simpa [here] using member)
  · simpa only [same] using h.unique
  · rw [same] at there'
    by_cases here : j = i
    · subst here
      obtain rfl := there.2.2.symm.trans there'.2.2
      simpa [BlockCache.setPins] using count
    · have other : id' ≠ id := fun eq => here (h.unique id j i (eq ▸ there') there)
      simpa [BlockCache.setPins, here, other] using h.pins id' j there'

theorem Counted.hit (room : (s.held id).length < 255) (found : s.cache.cacheFind id = some i)
    (now : s.step (.get id completes) = some t) : t.Counted := by
  have there : s.cache.At id i :=
    ⟨mem_range.mp (mem_of_find?_eq_some found), by simpa using find?_some found⟩
  simp only [step, cacheGetBlock, found] at now
  cases now
  have pins := h.pins id i there
  have small : (s.cache.entries i).pinCount < 0xFF := by
    rw [BitVec.lt_def, pins]
    exact room
  have all : ∀ j ∈ s.held id, j = i := fun j member => h.unique id j i (h.kept id j member).2 there
  rw [if_pos small]
  refine h.setPins there ?_ (fun j member => ⟨?_, ?_⟩) fun id' other => ?_
  · rw [BitVec.toNat_add, pins]
    exact Nat.mod_eq_of_lt (Nat.succ_lt_succ room)
  · exact (mem_cons.mp member).elim (fun here => here) (all j)
  · split_ifs with unused
    · exact update_self ..
    · obtain ⟨k, held⟩ := exists_mem_of_ne_nil _ unused
      exact (h.kept id k held).1.symm.trans (all k held)
  · split_ifs
    · exact update_of_ne other ..
    · rfl

theorem Counted.miss (absent : s.cache.cacheFind id = none)
    (now : s.step (.get id completes) = some t) : t.Counted := by
  have nowhere : ∀ j, ¬ s.cache.At id j := by
    rintro j ⟨inside, used, same⟩
    have missed := find?_eq_none.mp absent j (mem_range.mpr inside)
    simp [used, same] at missed
  simp only [step, cacheGetBlock, absent] at now
  cases victim : s.cache.cachePickVictim with
  | none => simp only [victim] at now; cases now; exact h
  | some i =>
    simp only [victim] at now
    cases now
    have inside : i < s.cache.capacity := by
      obtain ⟨probe, listed, rfl⟩ := List.mem_map.mp (mem_of_find?_eq_some victim)
      exact Nat.mod_lt _ (Nat.zero_lt_of_lt (mem_range.mp listed))
    have unused : s.held id = [] :=
      eq_nil_iff_forall_not_mem.mpr fun j member => nowhere j (h.kept id j member).2
    -- the entry is not in use, or has no pins
    have free : ∀ id', i ∉ s.held id' := by
      intro id' member
      obtain ⟨-, there⟩ := h.kept id' i member
      have idle := find?_some victim
      simp only [there.2.1, Bool.not_true, Bool.false_or, beq_iff_eq] at idle
      have pins := h.pins id' i there
      rw [idle] at pins
      exact absurd member (by simp [length_eq_zero_iff.mp pins.symm])
    rw [if_pos unused, unused]
    generalize taken : ({ s.cache with
      entries := update s.cache.entries i ⟨id, cacheBlockValid, none, true, 1⟩
      clockHand := if i + 1 ≥ s.cache.capacity then 0 else i + 1 } : BlockCache D) = c
    have own : ∀ id', c.At id' i ↔ id' = id := by simp [← taken, At, inside, eq_comm]
    have others : ∀ j ≠ i, ∀ id', c.At id' j ↔ s.cache.At id' j := by
      intro j away id'
      simp [← taken, At, away]
    have apart : ∀ id' j, c.At id' j → j = i ∧ id' = id ∨ j ≠ i ∧ id' ≠ id ∧ s.cache.At id' j := by
      intro id' j there
      by_cases here : j = i
      · subst here; exact .inl ⟨rfl, (own id').mp there⟩
      · rw [others j here] at there
        exact .inr ⟨here, fun eq => nowhere j (eq ▸ there), there⟩
    refine ⟨⟨fun id' j member => ?_, fun id' j k there there' => ?_⟩, fun id' j there => ?_⟩
    · by_cases here : id' = id
      · subst here
        obtain rfl : j = i := by simpa using member
        exact ⟨(update_self id' j s.first).symm, (own id').mpr rfl⟩
      · simp only [update_of_ne here] at member ⊢
        have away : j ≠ i := fun eq => free id' (eq ▸ member)
        rw [others j away]
        exact h.kept id' j member
    · rcases apart id' j there with ⟨rfl, rfl⟩ | ⟨-, other, old⟩ <;>
        rcases apart id' k there' with ⟨rfl, same⟩ | ⟨-, other', old'⟩
      · rfl
      · exact absurd rfl other'
      · exact absurd same other
      · exact h.unique id' j k old old'
    · rcases apart id' j there with ⟨rfl, rfl⟩ | ⟨away, other, old⟩
      · simp [← taken]
      · simpa [← taken, away, other] using h.pins id' j old

theorem Counted.put (now : s.step (.put id i) = some t) : t.Counted := by
  simp only [step] at now
  split_ifs at now with member
  cases now
  obtain ⟨first, there⟩ := h.kept id i member
  have pins := h.pins id i there
  have some : 0 < (s.cache.entries i).pinCount := by
    rw [BitVec.lt_def, pins]
    exact length_pos_of_mem member
  simp only [cachePutBlock, there.1, there.2.1, and_self, if_true, some]
  refine h.setPins there ?_ (fun j left => ?_) fun _ _ => rfl
  · rw [BitVec.toNat_sub_of_le some, pins, length_erase_of_mem member]
    rfl
  · exact ⟨(h.kept id j (mem_of_mem_erase left)).1.trans first.symm, first.symm⟩

end

/-- As long as no block has 255 uses when it is got again, a block in use is not recycled. -/
theorem blocks_in_use_kept {cacheBlockBudget : Nat} (run : Run (fun s a t => s.step a = some t)
    Pinnable ⟨cacheInit cacheBlockBudget, fun _ => [], fun _ => 0⟩ s) : s.Safe := by
  refine (run.invariant Counted ⟨⟨nofun, ?_⟩, ?_⟩ fun t a u h room now => ?_).toSafe
  · rintro id i j ⟨-, unused, -⟩
    cases unused
  · rintro id i ⟨-, unused, -⟩
    cases unused
  cases a with
  | get id completes =>
    cases found : t.cache.cacheFind id with
    | none => exact h.miss found now
    | some i => exact h.hit room found now
  | put id i => exact h.put now

/-- All entries are taken and block 1 is put back: the next block is given its entry, past
that of block 0, which is in use. -/
theorem blocks_in_use_kept_first : ∃ s, Run (fun s a t => step s a = some t) Pinnable
    (⟨cacheInit 32, fun _ => [], fun _ => 0⟩ : PinLog Nat) s ∧
      (s.held (0, 0) = [0] ∧ (s.cache.entries 1).id = (0, 32)) ∧ s.Safe :=
  found_run_then ((range 32).map (fun k => .get (0, BitVec.ofNat 64 k) true) ++
    [.put (0, 1) 1, .get (0, 32) true]) (by decide +kernel) fun _ run _ => blocks_in_use_kept run

/-- Of 256 gets of a block 255 are matched, and the next get of another block takes its entry. -/
theorem block_recycled_in_use : ∃ s, exec (step (D := Nat))
      ⟨cacheInit 32, fun _ => [], fun _ => 0⟩
      ((range 32).map (fun k => .get (0, BitVec.ofNat 64 k) true) ++
        replicate 255 (.get (0, 0) true) ++ replicate 255 (.put (0, 0) 0) ++
        [.get (0, 32) true]) = some s ∧
    s.held (0, 0) = [0] ∧ (s.cache.entries 0).id = (0, 32) := by
  decide +kernel

end PinLog

end BharatOS
