import BharatOS.Lib.RingIndex
import BharatOS.Lib.Runs
import BharatOS.Lib.Sections
import BharatOS.Lib.Tally

/-!
# The ring of the message fabric (`mk_mpsc_ring.c`)

A producer takes a credit, then a ticket, writes its message into the slot of the ticket and
publishes it through the slot's sequence number. Every access to a shared word is a step of its
own. Positions are 32-bit words and wrap.
-/

namespace BharatOS

open Function

structure BhMkRingSlot (α : Type) where
  sequence : BitVec 32
  message : α

structure BhMkMpscRing (α : Type) where
  producerHead : BitVec 32
  consumerTail : BitVec 32
  availableCredits : BitVec 32
  capacity : BitVec 32
  mask : BitVec 32
  slots : Nat → BhMkRingSlot α

def bhMkMpscMaxCapacity : BitVec 32 := 1#32 <<< 31

/-- `bh_mk_mpsc_ring_init`; `zero` is a message of zero bytes. -/
def bhMkMpscRingInit {α : Type} (zero : α) (capacity : BitVec 32) : Option (BhMkMpscRing α) :=
  if capacity = 0 ∨ bhMkMpscMaxCapacity ≤ capacity ∨ capacity &&& (capacity - 1) ≠ 0 then none
  else some
    { producerHead := 0
      consumerTail := 0
      availableCredits := capacity
      capacity := capacity
      mask := capacity - 1
      slots := fun i => ⟨BitVec.ofNat 32 i, zero⟩ }

/-- A ring has 2 ^ k slots, and fewer than 2 ^ 31. -/
theorem init_isSome_iff {α : Type} {zero : α} {capacity : BitVec 32} :
    (bhMkMpscRingInit zero capacity).isSome ↔ ∃ k < 31, capacity.toNat = 2 ^ k := by
  have limit : bhMkMpscMaxCapacity ≤ capacity ↔ 2 ^ 31 ≤ capacity.toNat := BitVec.le_def
  have zero_iff : capacity = 0 ↔ capacity.toNat = 0 :=
    ⟨fun e => by rw [e]; rfl, fun e => BitVec.eq_of_toNat_eq e⟩
  have accepts : (bhMkMpscRingInit zero capacity).isSome ↔
      ¬ (capacity = 0 ∨ bhMkMpscMaxCapacity ≤ capacity ∨ capacity &&& (capacity - 1) ≠ 0) := by
    unfold bhMkMpscRingInit
    split <;> simp_all
  rw [accepts, not_or, not_or, not_not, zero_iff, limit, Nat.not_le]
  constructor
  · rintro ⟨positive, small, bits⟩
    obtain ⟨k, value⟩ := (and_pred_eq_zero_iff positive).mp bits
    rw [value] at small
    exact ⟨k, (Nat.pow_lt_pow_iff_right (by decide)).mp small, value⟩
  · rintro ⟨k, small, value⟩
    have positive : capacity.toNat ≠ 0 := by
      rw [value]
      exact (Nat.two_pow_pos k).ne'
    refine ⟨positive, ?_, (and_pred_eq_zero_iff positive).mpr ⟨k, value⟩⟩
    rw [value]
    exact Nat.pow_lt_pow_right (by decide) small

namespace BhMkMpscRing

variable {α : Type}

/-- The slot that a position falls on. -/
def index (ring : BhMkMpscRing α) (pos : BitVec 32) : Nat := (pos &&& ring.mask).toNat

def setSequence (ring : BhMkMpscRing α) (pos sequence : BitVec 32) : BhMkMpscRing α :=
  { ring with
    slots := update ring.slots (ring.index pos)
      { ring.slots (ring.index pos) with sequence := sequence } }

def setMessage (ring : BhMkMpscRing α) (pos : BitVec 32) (message : α) : BhMkMpscRing α :=
  { ring with
    slots := update ring.slots (ring.index pos)
      { ring.slots (ring.index pos) with message := message } }

/-- Give a credit back. -/
def addCredit (ring : BhMkMpscRing α) : BhMkMpscRing α :=
  { ring with availableCredits := ring.availableCredits + 1 }

end BhMkMpscRing

/-! ## `bh_mk_mpsc_ring_enqueue` -/

inductive EnqueuePc where
  | loadCredits
  | casCredits (creds : BitVec 32)
  | loadHead (attempts : Nat)
  | loadSequence (pos : BitVec 32) (attempts : Nat)
  | casHead (pos : BitVec 32) (attempts : Nat)
  | write (pos : BitVec 32)
  | publish (pos : BitVec 32)
  | giveBack
  deriving DecidableEq, Repr

structure EnqueueCall (α : Type) where
  message : α
  pc : EnqueuePc

namespace EnqueueCall

variable {α : Type}

def goto (call : EnqueueCall α) (pc : EnqueuePc) : EnqueueCall α ⊕ Int := .inl { call with pc := pc }

/-- One access. A weak compare-and-swap may fail although the value is the expected
one; `spurious` says that it does. -/
def step (spurious : Bool) : Sections (BhMkMpscRing α) (EnqueueCall α) Int := fun ring call =>
  match call.pc with
  | .loadCredits => (ring, call.goto (.casCredits ring.availableCredits))
  | .casCredits creds =>
    if creds = 0 then (ring, .inr (-6))
    else if ring.availableCredits = creds ∧ spurious = false then
      ({ ring with availableCredits := creds - 1 }, call.goto (.loadHead 0))
    else (ring, call.goto (.casCredits ring.availableCredits))
  | .loadHead attempts => (ring, call.goto (.loadSequence ring.producerHead attempts))
  | .loadSequence pos attempts =>
    let diff := ((ring.slots (ring.index pos)).sequence - pos).toInt
    if diff = 0 then (ring, call.goto (.casHead pos attempts))
    else if diff < 0 then
      if 2000 < attempts + 1 then (ring, call.goto .giveBack)
      else (ring, call.goto (.loadHead (attempts + 1)))
    else (ring, call.goto (.loadHead attempts))
  | .casHead pos attempts =>
    if ring.producerHead = pos ∧ spurious = false then
      ({ ring with producerHead := pos + 1 }, call.goto (.write pos))
    else (ring, call.goto (.loadSequence ring.producerHead attempts))
  | .write pos => (ring.setMessage pos call.message, call.goto (.publish pos))
  | .publish pos => (ring.setSequence pos (pos + 1), .inr 0)
  | .giveBack => (ring.addCredit, .inr (-6))

/-- The call has a credit and no ticket yet. -/
def waits (call : EnqueueCall α) : Bool :=
  match call.pc with
  | .loadHead _ | .loadSequence _ _ | .casHead _ _ | .giveBack => true
  | _ => false

/-- The position of a ticket that is not published yet. -/
def ticket (call : EnqueueCall α) : Option (BitVec 32) :=
  match call.pc with
  | .write pos | .publish pos => some pos
  | _ => none

end EnqueueCall

/-! ## `bh_mk_mpsc_ring_dequeue` -/

inductive DequeueCall (α : Type) where
  | loadSequence
  | read (pos : BitVec 32)
  | release (pos : BitVec 32) (message : α)
  | advance (pos : BitVec 32) (message : α)
  | replenish (message : α)

namespace DequeueCall

variable {α : Type}

def step : Sections (BhMkMpscRing α) (DequeueCall α) (Except Int α) := fun ring call =>
  match call with
  | .loadSequence =>
    let pos := ring.consumerTail
    if ((ring.slots (ring.index pos)).sequence - (pos + 1)).toInt = 0 then (ring, .inl (.read pos))
    else (ring, .inr (.error (-13)))
  | .read pos => (ring, .inl (.release pos (ring.slots (ring.index pos)).message))
  | .release pos message => (ring.setSequence pos (pos + ring.capacity), .inl (.advance pos message))
  | .advance pos message => ({ ring with consumerTail := pos + 1 }, .inl (.replenish message))
  | .replenish message => (ring.addCredit, .inr (.ok message))

end DequeueCall

/-! ## Producers and the consumer together -/

/-- The ring, the calls in progress and what has happened: the messages that got a
ticket, in the order of the tickets, who holds a ticket that is not published yet, and
the messages that the consumer's calls have returned. -/
structure RingSystem (n : Nat) (α : Type) where
  ring : BhMkMpscRing α
  producers : Fin n → Option (EnqueueCall α)
  consumer : Option (DequeueCall α)
  tickets : List α
  holding : Fin n → Option Nat
  dequeued : List α

inductive RingAction (n : Nat) (α : Type) where
  | enqueue (i : Fin n) (message : α)
  | produce (i : Fin n) (spurious : Bool)
  | dequeue
  | consume

namespace RingSystem

variable {n : Nat} {α : Type}

def start (n : Nat) (ring : BhMkMpscRing α) : RingSystem n α :=
  ⟨ring, fun _ => none, none, [], fun _ => none, []⟩

def setProducer (s : RingSystem n α) (ring : BhMkMpscRing α) (i : Fin n)
    (call : Option (EnqueueCall α)) : RingSystem n α :=
  { s with ring := ring, producers := update s.producers i call }

/-- A producer that got past the compare-and-swap of the head has the next ticket. -/
def takeTicket (s : RingSystem n α) (i : Fin n) (message : α) : RingSystem n α :=
  { s with
    tickets := s.tickets ++ [message]
    holding := update s.holding i (some s.tickets.length) }

def dropTicket (s : RingSystem n α) (i : Fin n) : RingSystem n α :=
  { s with holding := update s.holding i none }

def produced (s : RingSystem n α) (i : Fin n) (call : EnqueueCall α)
    (done : BhMkMpscRing α × (EnqueueCall α ⊕ Int)) : RingSystem n α :=
  match done with
  | (ring, .inl call') =>
    let t := s.setProducer ring i (some call')
    if call.ticket = none ∧ call'.ticket.isSome then t.takeTicket i call.message else t
  | (ring, .inr _) => (s.setProducer ring i none).dropTicket i

def consumed (s : RingSystem n α) (done : BhMkMpscRing α × (DequeueCall α ⊕ Except Int α)) :
    RingSystem n α :=
  match done with
  | (ring, .inl call) => { s with ring := ring, consumer := some call }
  | (ring, .inr (.error _)) => { s with ring := ring, consumer := none }
  | (ring, .inr (.ok message)) =>
    { s with ring := ring, consumer := none, dequeued := s.dequeued ++ [message] }

def step (s : RingSystem n α) : RingAction n α → Option (RingSystem n α)
  | .enqueue i message =>
    if (s.producers i).isSome then none
    else some (s.setProducer s.ring i (some ⟨message, .loadCredits⟩))
  | .produce i spurious =>
    match s.producers i with
    | none => none
    | some call => some (s.produced i call (call.step spurious s.ring))
  | .dequeue => if s.consumer.isSome then none else some { s with consumer := some .loadSequence }
  | .consume =>
    match s.consumer with
    | none => none
    | some call => some (s.consumed (call.step s.ring))

abbrev Steps (s : RingSystem n α) (a : RingAction n α) (t : RingSystem n α) : Prop :=
  s.step a = some t

def Published (s : RingSystem n α) (t : Nat) : Prop := ∀ i, s.holding i ≠ some t

instance (s : RingSystem n α) (t : Nat) : Decidable (s.Published t) :=
  inferInstanceAs (Decidable (∀ i, s.holding i ≠ some t))

/-- The messages whose enqueue has succeeded, in the order of their tickets. -/
def enqueued (s : RingSystem n α) : List α :=
  (s.tickets.zipIdx.filter fun entry => s.Published entry.2).map (·.1)

/-- How many messages the consumer has copied out of the ring. -/
def copied (s : RingSystem n α) : Nat :=
  match s.consumer with
  | some (.release _ _) | some (.advance _ _) | some (.replenish _) => s.dequeued.length + 1
  | _ => s.dequeued.length

/-- The credits that producers have taken and neither given back nor turned into a
published message. -/
def creditsHeld (s : RingSystem n α) : Nat :=
  tally (fun call : Option (EnqueueCall α) => call.any fun c => c.waits || c.ticket.isSome)
    s.producers

end RingSystem

end BharatOS
