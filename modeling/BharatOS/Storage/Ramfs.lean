import Mathlib.Data.List.Nodup
import BharatOS.Lib.Runs

/-!
# Directories of `ramfs`

A name is looked up in full, but a node keeps only as much of it as its name field holds.
-/

namespace BharatOS

open List Function

/-- The bytes of a string before the zero that ends it. -/
abbrev FileName := List (BitVec 8)

structure RamfsNode where
  address : Nat
  name : FileName
  flags : BitVec 32
  deriving DecidableEq

/-- `child_count` is the length of the list. -/
structure RamfsDir where
  children : List RamfsNode
  childCapacity : Nat

def configRamfsMaxNodes : Nat := 0x100000

def sizeMax : Nat := 0xFFFFFFFFFFFFFFFF

def ramfsStreq : FileName → FileName → Bool
  | a :: as, b :: bs => a == b && ramfsStreq as bs
  | as, bs => as.isEmpty && bs.isEmpty

def ramfsStrcpy (src : FileName) (dstSize : Nat) : FileName := src.take (dstSize - 1)

/-- `kmalloc` answers with the address of the node, and `table` says whether there is room for the
children of a new directory. -/
def ramfsCreateNode (name : FileName) (type : BitVec 32) (kmalloc : Option Nat) (table : Bool) :
    Option RamfsNode :=
  kmalloc.bind fun address =>
    if type = 2 ∧ table = false then none else some ⟨address, ramfsStrcpy name 256, type⟩

/-! A request that fails returns -1 and leaves the directory as it is. -/

namespace RamfsDir

def ramfsFinddir (d : RamfsDir) (name : FileName) : Option RamfsNode :=
  d.children.find? fun child => ramfsStreq child.name name

def ramfsAddChild (d : RamfsDir) (child : RamfsNode) (kmalloc : Bool) : Option RamfsDir :=
  if d.children.length < d.childCapacity then some { d with children := d.children ++ [child] }
  else if sizeMax / 2 < d.childCapacity then none
  else
    let newCap := if d.childCapacity = 0 then 4 else d.childCapacity * 2
    if configRamfsMaxNodes < newCap ∧ configRamfsMaxNodes ≤ d.childCapacity then none
    else
      let newCap := min newCap configRamfsMaxNodes
      if sizeMax / 8 < newCap ∨ kmalloc = false then none
      else some ⟨d.children ++ [child], newCap⟩

/-- `RAMFS_IOCTL_CREATE`. -/
def ramfsCreate (d : RamfsDir) (name : FileName) (type : BitVec 32) (kmalloc : Option Nat)
    (table grows : Bool) : Option RamfsDir :=
  if (d.ramfsFinddir name).isSome then none
  else (ramfsCreateNode name type kmalloc table).bind (d.ramfsAddChild · grows)

/-- `RAMFS_IOCTL_UNLINK`; `occupied` says whether a child that is a directory has children. -/
def ramfsUnlink (d : RamfsDir) (name : FileName) (occupied : Bool) : Option RamfsDir :=
  (d.ramfsFinddir name).bind fun child =>
    if child.flags = 2 ∧ occupied then none
    else some { d with children := d.children.eraseP fun child => ramfsStreq child.name name }

end RamfsDir

inductive DirCall where
  | create (name : FileName) (type : BitVec 32) (kmalloc : Option Nat) (table grows : Bool)
  | unlink (name : FileName) (occupied : Bool)

/-- The directory, and the node that the requests have given to each name. -/
structure DirLog where
  dir : RamfsDir
  bound : FileName → Option RamfsNode

namespace DirLog

/-- The directory as `ramfs_create_node` makes it. -/
def empty : DirLog := ⟨⟨[], 4⟩, fun _ => none⟩

def step (s : DirLog) : DirCall → DirLog
  | .create name type kmalloc table grows =>
    (s.dir.ramfsCreate name type kmalloc table grows).elim s fun dir =>
      ⟨dir, update s.bound name (ramfsCreateNode name type kmalloc table)⟩
  | .unlink name occupied =>
    (s.dir.ramfsUnlink name occupied).elim s fun dir => ⟨dir, update s.bound name none⟩

/-- A name is found where the requests have bound it, and stored names are distinct. -/
structure IsMap (s : DirLog) : Prop where
  finds : ∀ name, s.dir.ramfsFinddir name = s.bound name
  unique : (s.dir.children.map (·.name)).Nodup

/-- A new name fits in the name field. -/
def Fits : DirCall → Prop
  | .create name _ _ _ _ => name.length < 256
  | .unlink _ _ => True

end DirLog

theorem ramfsStreq_iff {a b : FileName} : ramfsStreq a b = true ↔ a = b := by
  induction a generalizing b with
  | nil => cases b <;> simp [ramfsStreq]
  | cons x a ih => cases b <;> simp [ramfsStreq, ih]

namespace RamfsDir

variable {d t : RamfsDir} {name : FileName}

theorem ramfsAddChild_children {child : RamfsNode} {kmalloc : Bool}
    (h : d.ramfsAddChild child kmalloc = some t) : t.children = d.children ++ [child] := by
  simp only [ramfsAddChild] at h
  split_ifs at h <;> cases h <;> rfl

/-- The named child is taken out, and the others keep their order. -/
theorem ramfsUnlink_some {occupied : Bool} (h : d.ramfsUnlink name occupied = some t) :
    ∃ before child after, d.children = before ++ child :: after ∧ child.name = name ∧
      t.children = before ++ after := by
  obtain ⟨child, found, h⟩ := Option.bind_eq_some_iff.mp h
  split_ifs at h
  cases h
  obtain ⟨child, before, after, -, named, split, erased⟩ :=
    exists_of_eraseP (mem_of_find?_eq_some found) (find?_some found)
  exact ⟨before, child, after, split, ramfsStreq_iff.mp named, erased⟩

end RamfsDir

namespace DirLog

open RamfsDir

variable {s : DirLog} {name : FileName} {dir : RamfsDir}

theorem IsMap.bind (h : s.IsMap) {child : RamfsNode} (named : child.name = name)
    (absent : s.dir.ramfsFinddir name = none) (added : dir.children = s.dir.children ++ [child]) :
    IsMap ⟨dir, update s.bound name (some child)⟩ := by
  refine ⟨fun other => ?_, ?_⟩
  · simp only [ramfsFinddir, added, find?_append, find?_singleton, ramfsStreq_iff, named]
    by_cases same : other = name
    · subst same
      rw [update_self, if_pos rfl]
      exact congrArg (Option.or · _) absent
    · rw [update_of_ne same, if_neg (Ne.symm same), Option.or_none]
      exact h.finds other
  · simp only [added, ← concat_eq_append, map_concat, named]
    refine h.unique.concat fun taken => ?_
    obtain ⟨old, listed, same⟩ := mem_map.mp taken
    exact find?_eq_none.mp absent old listed (ramfsStreq_iff.mpr same)

theorem IsMap.unbind (h : s.IsMap) {before after : List RamfsNode} {child : RamfsNode}
    (split : s.dir.children = before ++ child :: after) (named : child.name = name)
    (removed : dir.children = before ++ after) : IsMap ⟨dir, update s.bound name none⟩ := by
  have unique : (name :: dir.children.map (·.name)).Nodup := by
    rw [← named, removed, ← map_cons, ← (perm_middle.map _).nodup_iff, ← split]
    exact h.unique
  refine ⟨fun other => ?_, (nodup_cons.mp unique).2⟩
  simp only [ramfsFinddir]
  by_cases same : other = name
  · subst same
    rw [update_self]
    refine find?_eq_none.mpr fun left listed is => (nodup_cons.mp unique).1 ?_
    exact mem_map.mpr ⟨left, listed, ramfsStreq_iff.mp is⟩
  · rw [update_of_ne same, ← h.finds other]
    simp [ramfsFinddir, split, removed, find?_append, named, ramfsStreq_iff, Ne.symm same]

/-- As long as new names fit in the name field, the directory is a map from names. -/
theorem directory_is_map (run : Run (fun s a t => t = DirLog.step s a) (fun _ => Fits) empty s) :
    s.IsMap ∧ ∀ name occupied t, s.dir.ramfsUnlink name occupied = some t →
      ∃ before child after, s.dir.children = before ++ child :: after ∧ child.name = name ∧
        t.children = before ++ after := by
  refine ⟨run.invariant IsMap ⟨fun _ => rfl, nodup_nil⟩ fun s a t h fits now => now ▸ ?_,
    fun name occupied t => ramfsUnlink_some⟩
  cases a with
  | create name type kmalloc table grows =>
    simp only [step]
    cases done : s.dir.ramfsCreate name type kmalloc table grows with
    | none => exact h
    | some dir =>
      unfold ramfsCreate at done
      split_ifs at done with absent
      obtain ⟨child, made, added⟩ := Option.bind_eq_some_iff.mp done
      rw [Option.elim_some, made]
      obtain ⟨address, -, made⟩ := Option.bind_eq_some_iff.mp made
      split_ifs at made
      cases made
      exact h.bind (take_of_length_le (Nat.le_of_lt_succ fits))
        (Option.not_isSome_iff_eq_none.mp absent) (ramfsAddChild_children added)
  | unlink name occupied =>
    simp only [step]
    cases done : s.dir.ramfsUnlink name occupied with
    | none => exact h
    | some dir =>
      obtain ⟨before, child, after, split, named, removed⟩ := ramfsUnlink_some done
      exact h.unbind split named removed

/-- Two names are created and the first one unlinked: the second one can be unlinked too. -/
theorem directory_is_map_first :
    let a : DirCall := .create [65] 1 (some 1) true true
    let b : DirCall := .create [66] 1 (some 2) true true
    let s := ((empty.step a).step b).step (.unlink [65] false)
    s.IsMap ∧ s.bound [65] = none ∧ ∃ t, s.dir.ramfsUnlink [66] false = some t ∧
      ∃ before child after, s.dir.children = before ++ child :: after ∧ child.name = [66] ∧
        t.children = before ++ after := by
  intro a b s
  have fits : 1 < 256 := by decide
  have is_map := directory_is_map (s := s)
    (.tail (a := .unlink [65] false) (.tail (a := b) (.tail (a := a) .refl fits rfl) fits rfl)
      trivial rfl)
  exact ⟨is_map.1, rfl, _, rfl, is_map.2 [66] false _ rfl⟩

/-- A name of 256 bytes is not found after it was created, and is created again. -/
theorem long_name_created_twice :
    let name : FileName := replicate 256 65
    let s := empty.step (.create name 1 (some 1) true true)
    s.bound name = some ⟨1, replicate 255 65, 1⟩ ∧ s.dir.ramfsFinddir name = none ∧
      (s.step (.create name 1 (some 2) true true)).dir.children.map (·.name) =
        [replicate 255 65, replicate 255 65] := by
  decide +kernel

end DirLog

end BharatOS
