import BharatOS.Lib.Prog
import BharatOS.Lib.LinkedTree
import BharatOS.Vm.ActiveCores
import BharatOS.Mm.Pmm

/-!
# Regions of an address space and their tree (`aspace.c`)

The regions are in a list and in a red-black tree that knows the greatest end below each node. All
address spaces share one memory, in which `kfree` leaves a region as it is. `wrap64` stands where
the arithmetic of the source wraps.
-/

namespace BharatOS

open Function

/-- A pointer to a `vm_region_t`. -/
abbrev RegionPtr := Nat

inductive VmInherit where
  | none | share | copyMeta
  deriving DecidableEq, Repr

def wrap64 (n : Nat) : Nat := n % 2 ^ 64

/-- `addr & ~(PAGE_SIZE - 1)` -/
def pageDown (addr : Nat) : Nat := addr / pageSize * pageSize

/-- `(addr + PAGE_SIZE - 1) & ~(PAGE_SIZE - 1)` -/
def pageUp (addr : Nat) : Nat := pageDown (wrap64 (addr + pageSize - 1))

/-- The fields of `vm_region_t` that are not links. `object` names the object of the region. -/
structure VmRegion where
  base : Nat
  length : Nat
  prot : BitVec 32
  mapFlags : BitVec 32
  regionFlags : BitVec 32
  inherit : VmInherit
  object : Option Nat
  objectOffset : Nat
  deriving DecidableEq

/-- The end of a region, as the source computes it. -/
def VmRegion.stop (r : VmRegion) : Nat := wrap64 (r.base + r.length)

/-- `kmallocs` is what `kmalloc` is going to answer. -/
structure RegionMem extends TreeLinks RegionPtr where
  maxEnd : RegionPtr → Nat
  next : RegionPtr → Option RegionPtr
  prev : RegionPtr → Option RegionPtr
  region : RegionPtr → VmRegion
  live : RegionPtr → Bool
  kmallocs : List (Option RegionPtr)

/-- The part of `address_space_t` that finds its regions. -/
structure AspaceIndex where
  regionsTreeRoot : Option RegionPtr
  regions : Option RegionPtr
  regionCount : Nat
  state : AspaceState

/-- What a call on one address space works on. -/
structure RegionState extends RegionMem, AspaceIndex

namespace RegionState

open Prog

def setKid (s : RegionState) (d : ChildSide) (p : RegionPtr) (q : Option RegionPtr) : RegionState :=
  { s with kid := update s.kid d (update (s.kid d) p q) }

def setParent (s : RegionState) (p : RegionPtr) (q : Option RegionPtr) : RegionState :=
  { s with parent := update s.parent p q }

def setColor (s : RegionState) (p : RegionPtr) (c : Color) : RegionState :=
  { s with color := update s.color p c }

def setNext (s : RegionState) (p : RegionPtr) (q : Option RegionPtr) : RegionState :=
  { s with next := update s.next p q }

def setPrev (s : RegionState) (p : RegionPtr) (q : Option RegionPtr) : RegionState :=
  { s with prev := update s.prev p q }

/-- `if (p) p->parent = q;` -/
def setParentIf (s : RegionState) (p : Option RegionPtr) (q : Option RegionPtr) : RegionState :=
  match p with
  | some p => s.setParent p q
  | none => s

/-- `if (p) p->color = c;` -/
def setColorIf (s : RegionState) (p : Option RegionPtr) (c : Color) : RegionState :=
  match p with
  | some p => s.setColor p c
  | none => s

/-- Where `x` hangs below `up`, put `y`: at the root, or on side `d` of `up` if `x` is there, or on
the other side. -/
def replaceKid (s : RegionState) (d : ChildSide) (up : Option RegionPtr) (x : RegionPtr)
    (y : Option RegionPtr) : RegionState :=
  match up with
  | none => { s with regionsTreeRoot := y }
  | some g => if s.kid d g = some x then s.setKid d g y else s.setKid d.other g y

def updateMaxEnd (s : RegionState) (node : RegionPtr) : RegionState :=
  let own := (s.region node).stop
  let own := match s.kid .left node with
    | some l => if own < s.maxEnd l then s.maxEnd l else own
    | none => own
  let own := match s.kid .right node with
    | some r => if own < s.maxEnd r then s.maxEnd r else own
    | none => own
  { s with maxEnd := update s.maxEnd node own }

/-- `rotate_left` is `rotate .left`, and `rotate_right` its mirror image `rotate .right`. -/
def rotate (d : ChildSide) (s : RegionState) (x : RegionPtr) : Prog RegionState := do
  let y ← deref (s.kid d.other x)
  let s := s.setKid d.other x (s.kid d y)
  let s := s.setParentIf (s.kid d y) (some x)
  let s := s.setParent y (s.parent x)
  let s := s.replaceKid d (s.parent x) x (some y)
  let s := s.setKid d y (some x)
  let s := s.setParent x (some y)
  return (s.updateMaxEnd x).updateMaxEnd y

def rotateLeft : RegionState → RegionPtr → Prog RegionState := rotate .left

def rotateRight : RegionState → RegionPtr → Prog RegionState := rotate .right

/-- `p != NULL && p->color == 1` -/
def isRed (s : RegionState) (p : Option RegionPtr) : Bool :=
  match p with
  | some p => s.color p = .red
  | none => false

/-- Where the uncle is black, `z` first gets on the same side of its parent as its parent is. -/
def insertTurn (d : ChildSide) (s : RegionState) (z p : RegionPtr) : Prog (RegionState × RegionPtr) := do
  if s.kid d.other p = some z then
    let s ← rotate d s p
    return (s, p)
  else return (s, z)

/-- One round of `insert_fixup`, for a node `z` whose parent `p` is on side `d` of `g`. -/
def insertFixupSide (d : ChildSide) (s : RegionState) (z p g : RegionPtr) :
    Prog (RegionState × RegionPtr) := do
  let y := s.kid d.other g
  if s.isRed y then
    let s := s.setColor p .black
    let s := s.setColorIf y .black
    return (s.setColor g .red, g)
  else
    let (s, z) ← s.insertTurn d z p
    let p ← deref (s.parent z)
    let s := s.setColor p .black
    let g ← deref (s.parent p)
    let s := s.setColor g .red
    let s ← rotate d.other s g
    return (s, z)

/-- The body of the loop of `insert_fixup`. -/
def insertFixupRound (s : RegionState) (z : RegionPtr) :
    Prog ((RegionState × RegionPtr) ⊕ RegionState) := do
  match s.parent z with
  | none => return .inr s
  | some p =>
    if s.color p = .red then
      let g ← deref (s.parent p)
      let d := if s.kid .left g = some p then ChildSide.left else .right
      let out ← insertFixupSide d s z p g
      return .inl out
    else return .inr s

def insertFixup (s : RegionState) (z : RegionPtr) : Prog RegionState := do
  let s ← loop (fun (s, z) => s.insertFixupRound z) (s, z)
  let r ← deref s.regionsTreeRoot
  return s.setColor r .black

/-- The loops of `tree_insert` and `tree_remove` that update `max_end` up to the root. -/
def updateUp (s : RegionState) (curr : Option RegionPtr) : Prog RegionState :=
  loop (fun (s, curr) =>
    match curr with
    | none => pure (.inr s)
    | some p => pure (.inl (s.updateMaxEnd p, s.parent p))) (s, curr)

/-- The loop of `tree_insert` that goes down to where `z` belongs. -/
def insertPlace (s : RegionState) (z : RegionPtr) : Prog (Option RegionPtr) :=
  loop (fun (y, x) =>
    match x with
    | none => pure (.inr y)
    | some x => pure (.inl (some x,
        if (s.region z).base < (s.region x).base then s.kid .left x else s.kid .right x)))
    ((none : Option RegionPtr), s.regionsTreeRoot)

/-- The assignments of `tree_insert` that make `z` a leaf below `y`. -/
def linkLeaf (s : RegionState) (z : RegionPtr) (y : Option RegionPtr) : RegionState :=
  let s := s.setParent z y
  let s := match y with
    | none => { s with regionsTreeRoot := some z }
    | some y =>
      if (s.region z).base < (s.region y).base then s.setKid .left y (some z)
      else s.setKid .right y (some z)
  let s := s.setKid .left z none
  let s := s.setKid .right z none
  s.setColor z .red

def treeInsert (s : RegionState) (z : RegionPtr) : Prog RegionState := do
  let y ← s.insertPlace z
  let s := (s.linkLeaf z y).updateMaxEnd z
  let s ← s.updateUp (some z)
  s.insertFixup z

def treeTransplant (s : RegionState) (u : RegionPtr) (v : Option RegionPtr) : RegionState :=
  let s := s.replaceKid .left (s.parent u) u v
  s.setParentIf v (s.parent u)

def treeMinimum (s : RegionState) (x : RegionPtr) : Prog RegionPtr :=
  loop (fun x =>
    match s.kid .left x with
    | some l => pure (.inl l)
    | none => pure (.inr x)) x

/-- The first step of a round of `delete_fixup`: the sibling `w` of `x` becomes black. -/
def blackSibling (d : ChildSide) (s : RegionState) (p : RegionPtr) :
    Prog (RegionState × Option RegionPtr) := do
  let w := s.kid d.other p
  if s.isRed w then
    let s := s.setColorIf w .black
    let s := s.setColor p .red
    let s ← rotate d s p
    return (s, s.kid d.other p)
  else return (s, w)

/-- The third step: the child of `w` on the far side becomes red. -/
def redNephew (d : ChildSide) (s : RegionState) (p w : RegionPtr) :
    Prog (RegionState × Option RegionPtr) := do
  if s.isRed (s.kid d.other w) then return (s, some w)
  else
    let s := s.setColorIf (s.kid d w) .black
    let s := s.setColor w .red
    let s ← rotate d.other s w
    return (s, s.kid d.other p)

/-- One round of `delete_fixup`, for a node or null pointer `x` on side `d` of `p`. It gives the
next `x` and its parent. -/
def deleteFixupSide (d : ChildSide) (s : RegionState) (p : RegionPtr) :
    Prog (RegionState × Option RegionPtr × Option RegionPtr) := do
  let (s, w) ← s.blackSibling d p
  match w with
  | none => return (s, some p, s.parent p)
  | some w =>
    if ¬ s.isRed (s.kid d w) ∧ ¬ s.isRed (s.kid d.other w) then
      let s := s.setColor w .red
      return (s, some p, s.parent p)
    else
      let (s, w) ← s.redNephew d p w
      let s := match w with
        | some w => (s.setColor w (s.color p)).setColorIf (s.kid d.other w) .black
        | none => s
      let s := s.setColor p .black
      let s ← rotate d s p
      return (s, s.regionsTreeRoot, some p)

/-- The body of the loop of `delete_fixup`. -/
def deleteFixupRound (s : RegionState) (x xParent : Option RegionPtr) :
    Prog ((RegionState × Option RegionPtr × Option RegionPtr) ⊕ RegionState × Option RegionPtr) := do
  if x ≠ s.regionsTreeRoot ∧ ¬ s.isRed x then
    let p ← deref xParent
    let d := if x = s.kid .left p then ChildSide.left else .right
    let out ← s.deleteFixupSide d p
    return .inl out
  else return .inr (s, x)

def deleteFixup (s : RegionState) (x xParent : Option RegionPtr) : Prog RegionState := do
  let (s, x) ← loop (fun (s, x, xParent) => s.deleteFixupRound x xParent) (s, x, xParent)
  return s.setColorIf x .black

/-- The least node `y` on the right of `z` leaves its place, unless it is right below `z`. It gives
the parent of what is missing. -/
def leavePlace (s : RegionState) (z y : RegionPtr) : RegionState × Option RegionPtr :=
  if s.parent y = some z then (s, some y)
  else
    let xParent := s.parent y
    let s := s.treeTransplant y (s.kid .right y)
    let s := s.setKid .right y (s.kid .right z)
    (s.setParentIf (s.kid .right y) (some y), xParent)

/-- `y` takes the place of `z`. -/
def takePlace (s : RegionState) (z y : RegionPtr) : RegionState :=
  let s := s.treeTransplant z (some y)
  let s := s.setKid .left y (s.kid .left z)
  let s := s.setParentIf (s.kid .left y) (some y)
  s.setColor y (s.color z)

/-- The part of `tree_remove` that takes `z` out of the tree. It gives the place `x` where a node
is missing, the parent of that place, and the colour of the node. -/
def takeOut (s : RegionState) (z : RegionPtr) :
    Prog (RegionState × Option RegionPtr × Option RegionPtr × Color) := do
  match s.kid .left z, s.kid .right z with
  | none, x => return (s.treeTransplant z x, x, s.parent z, s.color z)
  | x, none => return (s.treeTransplant z x, x, s.parent z, s.color z)
  | some _, some r =>
    let y ← s.treeMinimum r
    let color := s.color y
    let x := s.kid .right y
    let (s, xParent) := s.leavePlace z y
    return (s.takePlace z y, x, xParent, color)

def treeRemove (s : RegionState) (z : RegionPtr) : Prog RegionState := do
  let (s, x, xParent, color) ← s.takeOut z
  let s ← s.updateUp xParent
  if color = .black then s.deleteFixup x xParent else return s

end RegionState

end BharatOS
