import BharatOS.Ipc.Actions

/-!
# A message is delivered at most once, and as it was sent

Between claiming a message and taking it, a receive call lets go of the endpoint's lock. Nobody
stores over a claimed message or claims it, and an endpoint with a claim is not given up.
-/

namespace BharatOS

open IpcState IpcCall Option List

/-- What a send stores is what a receiver reads. -/
theorem IpcEndpoint.store_parcel (ep : IpcEndpoint) {payload : List (BitVec 8)} (e : Enclosure)
    (fits : payload.length ≤ ipcEndpointPayloadMax) :
    (ep.store payload e).parcel = ⟨payload, BitVec.ofNat 32 payload.length, e⟩ := by
  have small : payload.length % 2 ^ 32 = payload.length :=
    Nat.mod_eq_of_lt (lt_of_le_of_lt fits (by decide))
  simp only [parcel, store, enclosure, BitVec.toNat_ofNat, small, take_left']

namespace IpcSystem

open IpcEndpoint

/-- The thread is in a call that holds a claim on the message at `p`. -/
structure Holds (s : IpcSystem) (p : Place) (thread : Nat) (call : IpcCall) (claim : Enclosure) :
    Prop where
  inCall : s.calls thread = some call
  visit : ∃ v, call.visit = some v ∧ v.place = p ∧ v.stage = .holding claim

/-- What is true of an endpoint and of the log of its messages from the time it is
opened until it is opened again. -/
structure Delivery (s : IpcSystem) (p : Place) : Prop where
  claims : (s.endpoint p).activeClaims = if (s.endpoint p).hasMsg = .claimed then 1 else 0
  holder : ∀ thread call claim, s.Holds p thread call claim →
    (s.endpoint p).hasMsg = .claimed ∧ (s.endpoint p).enclosure = claim ∧ call.Honest
  alone : ∀ thread thread' call call' claim claim', s.Holds p thread call claim →
    s.Holds p thread' call' claim' → thread = thread'
  last : (s.endpoint p).hasMsg ≠ .empty →
    ∃ earlier, s.sends p = earlier ++ [(s.endpoint p).parcel]
  unread : (s.endpoint p).hasMsg ≠ .empty → ∀ entry ∈ s.receipts p,
    entry.1 + 1 < (s.sends p).length
  intact : ∀ entry ∈ s.receipts p, ∃ parcel, (s.sends p)[entry.1]? = some parcel ∧
    entry.2.Matches parcel
  once : ((s.receipts p).map Prod.fst).Nodup

/-- A message that nobody touched, or that is gone. -/
theorem drifts_message {ep ep' : IpcEndpoint} (drifts : ep.Drifts ep')
    (claims : ep.activeClaims = if ep.hasMsg = .claimed then 1 else 0) :
    ep'.hasMsg = ep.hasMsg ∧ ep'.parcel = ep.parcel ∨
      ep'.hasMsg = .empty ∧ ep.hasMsg ≠ .claimed := by
  rcases drifts.message with same | ⟨empty, queued | idle⟩
  · exact .inl same
  · exact .inr ⟨empty, by simp [queued]⟩
  refine .inr ⟨empty, fun claimed => ?_⟩
  rw [claims, if_pos claimed] at idle
  cases idle

variable {p : Place} {s s' : IpcSystem} {v : Visit} {st : IpcState} {stage : Option Stage}
  {core : Core} {table : TableRef}

/-- An action that stores, claims and takes nothing at `p`, and makes no new holders. -/
theorem Delivery.drift {t : IpcSystem} (h : Delivery s p)
    (drifts : (s.endpoint p).Drifts (t.endpoint p)) (sends : t.sends p = s.sends p)
    (receipts : t.receipts p = s.receipts p)
    (holders : ∀ thread call claim, t.Holds p thread call claim →
      ∃ call₀, s.Holds p thread call₀ claim ∧ (call₀.Honest → call.Honest)) : Delivery t p := by
  have message := drifts_message drifts h.claims
  have kept : (t.endpoint p).hasMsg ≠ .empty → (t.endpoint p).hasMsg = (s.endpoint p).hasMsg ∧
        (t.endpoint p).parcel = (s.endpoint p).parcel := by
    intro full
    rcases message with same | ⟨empty, -⟩
    · exact same
    · exact absurd empty full
  constructor
  · rw [drifts.claims, h.claims]
    rcases message with ⟨same, -⟩ | ⟨empty, free⟩
    · rw [same]
    rw [empty, if_neg free]
    rfl
  · intro thread call claim now
    obtain ⟨call₀, before, honest⟩ := holders thread call claim now
    obtain ⟨claimed, mine, honest₀⟩ := h.holder thread call₀ claim before
    rcases message with ⟨same, parcel⟩ | ⟨-, free⟩
    · exact ⟨same.trans claimed, (congrArg Parcel.enclosure parcel).trans mine, honest honest₀⟩
    · exact absurd claimed free
  · intro thread thread' call call' claim claim' now now'
    obtain ⟨_, before, -⟩ := holders thread call claim now
    obtain ⟨_, before', -⟩ := holders thread' call' claim' now'
    exact h.alone _ _ _ _ _ _ before before'
  · intro full
    obtain ⟨same, parcel⟩ := kept full
    rw [sends, parcel]
    exact h.last (same ▸ full)
  · intro full
    rw [sends, receipts]
    exact h.unread ((kept full).1 ▸ full)
  · rw [sends, receipts]; exact h.intact
  · rw [receipts]; exact h.once

variable {actor thread : Nat} {next : Option IpcCall} {call : IpcCall} {event : IpcEvent}
    {a : IpcAction}

/-- Who holds a claim after the call of one thread was replaced. -/
theorem Holds.of_setCall {claim : Enclosure} (h : (s.setCall actor next).Holds p thread call claim)
    :
    thread ≠ actor ∧ s.Holds p thread call claim ∨ thread = actor ∧ next = some call := by
  by_cases same : thread = actor
  · subst same
    have now := h.inCall
    simp only [setCall, Function.update_self] at now
    exact .inr ⟨rfl, now⟩
  · have now := h.inCall
    simp only [setCall, Function.update_of_ne same] at now
    exact .inl ⟨same, now, h.visit⟩

/-- A thread that goes on elsewhere, or nowhere, is no holder. -/
theorem holders_setCall (outside : ∀ v, next.bind IpcCall.visit = some v → v.place = p → ∀ claim,
      v.stage ≠ .holding claim) {claim : Enclosure}
    (h : (s.setCall actor next).Holds p thread call claim) : s.Holds p thread call claim := by
  rcases h.of_setCall with ⟨-, before⟩ | ⟨rfl, rfl⟩
  · exact before
  obtain ⟨v, visit, place, stage⟩ := h.visit
  exact absurd stage (outside v visit place claim)

/-! ## The log -/

@[simp] theorem sends_setCall {call : Option IpcCall} :
    (s.setCall thread call).sends p = s.sends p := rfl

@[simp] theorem sends_setState :
    (s.setState st).sends p = s.sends p := rfl

@[simp] theorem receipts_setCall {call : Option IpcCall} :
    (s.setCall thread call).receipts p = s.receipts p := rfl

@[simp] theorem receipts_setState :
    (s.setState st).receipts p = s.receipts p := rfl

@[simp] theorem calls_note : (s.note event).calls = s.calls := by
  cases event <;> rfl

theorem note_elsewhere (ne : event.place ≠ some p) :
    (s.note event).sends p = s.sends p ∧ (s.note event).receipts p = s.receipts p := by
  cases event with
  | silent | claimed => exact ⟨rfl, rfl⟩
  | opened q | stored q | taken q =>
    have other : p ≠ q := fun same => ne (congrArg some same.symm)
    simp [note, other]

/-! ## One action -/

variable {s t : IpcSystem} {p : Place}

/-- The message is handed over or put back by the one who holds it. -/
theorem Delivery.release {claim : Enclosure} (h : Delivery s p) (holds : s.Holds p actor call claim)
    (claims : (t.endpoint p).activeClaims = 0) (sends : t.sends p = s.sends p)
    (message : t.receipts p = s.receipts p ∧ ((t.endpoint p).hasMsg = .empty ∨
        (t.endpoint p).hasMsg = .queued ∧ (t.endpoint p).parcel = (s.endpoint p).parcel) ∨
      (t.endpoint p).hasMsg = .empty ∧ ∃ r, r.Matches (s.endpoint p).parcel ∧
        t.receipts p = s.receipts p ++ [((s.sends p).length - 1, r)])
    (free : ∀ thread call claim, ¬ t.Holds p thread call claim) : Delivery t p := by
  obtain ⟨claimed, -⟩ := h.holder actor call claim holds
  have full : (s.endpoint p).hasMsg ≠ .empty := by simp [claimed]
  obtain ⟨earlier, log⟩ := h.last full
  have unclaimed : (t.endpoint p).hasMsg ≠ .claimed := by
    rcases message with ⟨-, empty | ⟨queued, -⟩⟩ | ⟨empty, -⟩ <;> simp [*]
  constructor
  · rw [claims, if_neg unclaimed]
  · exact fun thread call claim now => absurd now (free thread call claim)
  · exact fun thread _ call _ claim _ now => absurd now (free thread call claim)
  · intro full'
    rcases message with ⟨-, empty | ⟨-, parcel⟩⟩ | ⟨empty, -⟩
    · exact absurd empty full'
    · rw [sends, parcel]
      exact h.last full
    · exact absurd empty full'
  · intro full'
    rcases message with ⟨receipts, -⟩ | ⟨empty, -⟩
    · rw [sends, receipts]
      exact h.unread full
    · exact absurd empty full'
  · rcases message with ⟨receipts, -⟩ | ⟨-, r, fits, receipts⟩
    · rw [sends, receipts]
      exact h.intact
    rw [sends, receipts]
    intro entry listed
    rcases mem_append.mp listed with old | new
    · exact h.intact entry old
    obtain rfl := mem_singleton.mp new
    exact ⟨(s.endpoint p).parcel, by simp [log], fits⟩
  · rcases message with ⟨receipts, -⟩ | ⟨-, r, fits, receipts⟩
    · rw [receipts]
      exact h.once
    rw [receipts, map_append, nodup_append]
    refine ⟨h.once, nodup_singleton _, fun n old m new same => ?_⟩
    obtain ⟨entry, listed, rfl⟩ := List.mem_map.mp old
    obtain rfl := mem_singleton.mp new
    have read := h.unread full entry listed
    omega

/-- A message is stored in an empty slot. -/
theorem Delivery.store (h : Delivery s p) (parcel : Parcel)
    (empty : (s.endpoint p).hasMsg = .empty) (queued : (t.endpoint p).hasMsg = .queued)
    (claims : (t.endpoint p).activeClaims = (s.endpoint p).activeClaims)
    (stored : (t.endpoint p).parcel = parcel) (sends : t.sends p = s.sends p ++ [parcel])
    (receipts : t.receipts p = s.receipts p)
    (holders : ∀ thread call claim, t.Holds p thread call claim → s.Holds p thread call claim) :
    Delivery t p := by
  have free : ∀ thread call claim, ¬ t.Holds p thread call claim := fun thread call claim now => by
    have claimed := (h.holder thread call claim (holders _ _ _ now)).1
    rw [empty] at claimed
    cases claimed
  have inLog : ∀ entry ∈ s.receipts p, entry.1 < (s.sends p).length := fun entry listed => by
    obtain ⟨_, found, -⟩ := h.intact entry listed
    exact (List.getElem?_eq_some_iff.mp found).1
  constructor
  · rw [claims, h.claims, empty, queued]
    rfl
  · exact fun thread call claim now => absurd now (free thread call claim)
  · exact fun thread _ call _ claim _ now => absurd now (free thread call claim)
  · exact fun _ => ⟨s.sends p, by rw [sends, stored]⟩
  · intro _ entry listed
    rw [receipts] at listed
    rw [sends, length_append, length_singleton]
    exact Nat.add_lt_add_right (inLog entry listed) 1
  · intro entry listed
    rw [receipts] at listed
    obtain ⟨parcel, found, fits⟩ := h.intact entry listed
    exact ⟨parcel, by rw [sends, getElem?_append_left (inLog entry listed), found], fits⟩
  · rw [receipts]
    exact h.once

/-- A queued message is claimed. -/
theorem Delivery.claim (h : Delivery s p) (actor : Nat) (queued : (s.endpoint p).hasMsg = .queued)
    (now : t.endpoint p = (s.endpoint p).claim) (sends : t.sends p = s.sends p)
    (receipts : t.receipts p = s.receipts p)
    (holders : ∀ thread call' claim, t.Holds p thread call' claim →
      s.Holds p thread call' claim ∨ thread = actor ∧ call' = call ∧
        claim = (s.endpoint p).enclosure) (honest : call.Honest) : Delivery t p := by
  have mine : ∀ thread call' claim, t.Holds p thread call' claim → thread = actor ∧
      call' = call ∧ claim = (s.endpoint p).enclosure := by
    intro thread call' claim holds
    rcases holders thread call' claim holds with before | new
    · have claimed := (h.holder _ _ _ before).1
      rw [queued] at claimed
      cases claimed
    · exact new
  have full : (s.endpoint p).hasMsg ≠ .empty := by simp [queued]
  constructor
  · rw [now]
    simp [IpcEndpoint.claim, h.claims, queued]
  · intro thread call' claim holds
    obtain ⟨-, rfl, rfl⟩ := mine thread call' claim holds
    rw [now]
    exact ⟨rfl, rfl, honest⟩
  · intro thread thread' call' call'' claim claim' holds holds'
    exact (mine _ _ _ holds).1.trans (mine _ _ _ holds').1.symm
  · intro _
    rw [sends, now]
    exact h.last full
  · intro _
    rw [sends, receipts]
    exact h.unread full
  · rw [sends, receipts]
    exact h.intact
  · rw [receipts]
    exact h.once

/-- A call that has claimed nothing has nothing to hand over. -/
theorem honest_checking (visit : call.visit = some v) (checking : v.stage = .checking) :
    call.Honest := by
  cases call with
  | resolveSend | resolveReceive | create => cases visit
  | send => trivial
  | receive call =>
    obtain ⟨f, pc⟩ := call
    cases visit
    cases pc <;> trivial

/-! ### A move of a call at the endpoint itself -/

section

variable {other : Nat} {c : IpcCall} {claim : Enclosure}
  (goes : next.bind IpcCall.visit = stage.map fun stage => { v with stage := stage })

include goes

/-- A thread that goes on in a stage without a claim is no new holder. -/
theorem Holds.of_move (free : ∀ claim, stage ≠ some (.holding claim))
    (holds : (((s.setState st).setCall thread next).note event).Holds v.place other c claim) :
    s.Holds v.place other c claim := by
  have inCall := holds.inCall
  rw [calls_note] at inCall
  refine @holders_setCall v.place s thread other next c (fun v' now _ claim held => ?_) claim
    ⟨inCall, holds.visit⟩
  rw [goes, map_eq_some_iff] at now
  obtain ⟨stage', rfl, rfl⟩ := now
  exact free claim (congrArg some held)

/-- A move that lets the endpoint drift. -/
theorem Delivery.move (h : Delivery s v.place) (free : ∀ claim, stage ≠ some (.holding claim))
    (drifts : (s.endpoint v.place).Drifts (st.endpoint v.place)) :
    Delivery (((s.setState st).setCall thread next).note .silent) v.place :=
  h.drift drifts rfl rfl fun _ c _ holds => ⟨c, holds.of_move goes free, id⟩

/-- A holder that ends its claim was the only one. -/
theorem Delivery.unheld (h : Delivery s v.place) (held : s.Holds v.place thread call claim)
    (free : ∀ claim, stage ≠ some (.holding claim)) (other : Nat) (c : IpcCall)
    (claim' : Enclosure) :
    ¬ (((s.setState st).setCall thread next).note event).Holds v.place other c claim' := by
  intro holds
  have same := h.alone _ _ _ _ _ _ (holds.of_move goes free) held
  subst same
  obtain ⟨v', now, -, held'⟩ := holds.visit
  have inCall : next = some c := by
    have inCall := holds.inCall
    simpa [setCall] using inCall
  rw [inCall, bind_some, now] at goes
  obtain ⟨stage', e, rfl⟩ := map_eq_some_iff.mp goes.symm
  exact free claim' (e.trans (congrArg some held'))

/-- The holder ends its claim, with or without a receipt, and the slot is empty. -/
theorem Delivery.clears (h : Delivery s v.place) (held : s.Holds v.place thread call claim)
    (free : ∀ claim, stage ≠ some (.holding claim))
    (claims : (st.endpoint v.place).activeClaims = 0) (empty : (st.endpoint v.place).hasMsg = .empty)
    (noted : event = .silent ∨ ∃ r, event = .taken v.place r ∧ r.Matches (s.endpoint v.place).parcel)
    : Delivery (((s.setState st).setCall thread next).note event) v.place := by
  rcases noted with rfl | ⟨r, rfl, fits⟩
  · exact h.release held claims rfl (.inl ⟨rfl, .inl empty⟩) (h.unheld goes held free)
  · exact h.release held claims rfl (.inr ⟨empty, r, fits, by simp [note]⟩)
      (h.unheld goes held free)

/-- A section of the call that keeps its stage. -/
theorem Delivery.stays (h : Delivery s v.place) (was : s.calls thread = some call)
    (visit : call.visit = some v) (same : stage = some v.stage)
    (honest : call.Honest → ∀ c, next = some c → c.Honest)
    (drifts : (s.endpoint v.place).Drifts (st.endpoint v.place)) :
    Delivery (((s.setState st).setCall thread next).note .silent) v.place := by
  refine h.drift drifts rfl rfl fun other c claim holds => ?_
  rcases Holds.of_setCall holds with ⟨-, before⟩ | ⟨rfl, rfl⟩
  · exact ⟨c, ⟨before.inCall, before.visit⟩, id⟩
  obtain ⟨v', now, -, held⟩ := holds.visit
  subst same
  rw [bind_some, now] at goes
  cases goes
  exact ⟨call, ⟨was, v, visit, rfl, held⟩, fun honest₀ => honest honest₀ c rfl⟩

/-- The thread claims the message that is queued there. -/
theorem Delivery.claims_move (h : Delivery s v.place)
    (now : stage = some (.holding (s.endpoint v.place).enclosure))
    (honest : ∀ c, next = some c → c.Honest) (queued : (s.endpoint v.place).hasMsg = .queued)
    (objectRef : BitVec 64) (claimed : st.endpoint v.place = (s.endpoint v.place).claim) :
    Delivery (((s.setState st).setCall thread next).note (.claimed v.place objectRef))
      v.place := by
  subst now
  cases next with
  | none => cases goes
  | some c =>
    refine h.claim thread queued (by simpa using claimed) rfl rfl (fun other c' claim holds => ?_)
      (honest c rfl)
    rcases Holds.of_setCall holds with ⟨-, before⟩ | ⟨rfl, same⟩
    · exact .inl ⟨before.inCall, before.visit⟩
    cases same
    obtain ⟨v', now, -, held⟩ := holds.visit
    rw [bind_some, now] at goes
    cases goes
    exact .inr ⟨rfl, rfl, (Stage.holding.inj held).symm⟩

end

theorem waking_free {woken : Option Nat} (claim : Enclosure) :
    woken.map Stage.waking ≠ some (.holding claim) := by
  rintro e
  cases woken <;> cases e

theorem Delivery.unclaim (h : Delivery s p) {claim : Enclosure}
    (held : s.Holds p thread call claim) : (s.endpoint p).unclaim.activeClaims = 0 := by
  simp [IpcEndpoint.unclaim, h.claims, (h.holder _ _ _ held).1]

theorem delivery_move (h : Delivery s v.place) (was : s.calls thread = some call)
    (visit : call.visit = some v)
    (move : Moves thread (call.refused s.state) s.state v st event stage)
    (goes : next.bind IpcCall.visit = stage.map fun stage => { v with stage := stage })
    (honest : call.Honest → ∀ c, next = some c → c.Honest)
    (taken : call.Honest → ∀ p r, event = .taken p r → ∃ claim, v.stage = .holding claim ∧
      p = v.place ∧ r.Matches { (s.endpoint p).parcel with enclosure := claim }) :
    Delivery (((s.setState st).setCall thread next).note event) v.place := by
  have holds : ∀ {claim}, v.stage = .holding claim → s.Holds v.place thread call claim :=
    fun held => ⟨was, v, visit, rfl, held⟩
  cases move with
  | stays shifts =>
    exact h.stays goes was visit rfl honest (shifts.endpoint v.place.1 v.place.2).drifts
  | ends | quits | passes | blocks | wakes => exact h.move goes (fun _ e => by cases e) (.refl _)
  | counts _ _ counted =>
    refine h.move goes (fun _ e => by cases e) ?_
    rw [IpcState.endpoint_setEndpoint]
    rcases counted with rfl | rfl <;> exact drifts_fields rfl rfl rfl rfl rfl
  | waits =>
    exact h.move goes (fun _ e => by cases e)
      (IpcState.enqueueAt_drifts (s.state.endTurn thread) ..)
  | leaves => exact h.move goes (fun _ e => by cases e) (IpcState.leaveQueue_drifts s.state ..)
  | looks => exact h.move goes (fun _ e => by cases e) (IpcState.countTurn_drifts s.state ..)
  | @stores payload e checking _ _ empty fits =>
    refine h.store ⟨payload, BitVec.ofNat 32 payload.length, e⟩ empty ?_ ?_ ?_ ?_ rfl
      fun _ _ _ holds => holds.of_move goes waking_free
    · simp [IpcEndpoint.store]
    · simp [IpcEndpoint.store]
    · simp [store_parcel _ e fits]
    · simp [note]
  | claims checking _ ready queued =>
    exact h.claims_move goes rfl (honest (honest_checking visit checking)) queued _ (by simp)
  | closes held closed =>
    refine h.clears goes (holds held) (fun _ e => by cases e) ?_ ?_ (.inl rfl)
    · rw [IpcState.endpoint_setEndpoint]
      exact (reclaim_shift _).claims.trans (h.unclaim (holds held))
    · rw [IpcState.endpoint_setEndpoint]
      rcases (reclaim_shift (s.endpoint v.place).unclaim.clearMsgLocked).message with
        ⟨same, -⟩ | ⟨empty, -⟩
      · exact same
      · exact empty
  | requeues held ready =>
    refine h.release (holds held) ?_ rfl (.inl ⟨rfl, .inr ⟨?_, ?_⟩⟩)
      (h.unheld goes (holds held) waking_free)
    · simpa using h.unclaim (holds held)
    · simp
    · simp; rfl
  | clears held ready event' =>
    refine h.clears goes (holds held) waking_free ?_ ?_ ?_
    · simpa [clearMsgLocked] using h.unclaim (holds held)
    · simp [clearMsgLocked]
    rcases event' with rfl | ⟨r, rfl⟩
    · exact .inl rfl
    obtain ⟨-, mine, honest₀⟩ := h.holder _ _ _ (holds held)
    obtain ⟨claim, held', -, fits⟩ := taken honest₀ _ _ rfl
    obtain rfl := Stage.holding.inj (held.symm.trans held')
    rw [← mine] at fits
    exact .inr ⟨r, rfl, fits⟩

/-- An action that leaves the calls and the log alone. -/
theorem Delivery.same (h : Delivery s p) (calls : t.calls = s.calls) (sends : t.sends = s.sends)
    (receipts : t.receipts = s.receipts) (drifts : (s.endpoint p).Drifts (t.endpoint p)) :
    Delivery t p :=
  h.drift drifts (congrFun sends p) (congrFun receipts p) fun _ c _ now =>
    ⟨c, ⟨calls ▸ now.inCall, now.visit⟩, id⟩

/-- A thread goes on where it holds no claim. -/
theorem Delivery.setCall (h : Delivery s p)
    (outside : ∀ v, next.bind IpcCall.visit = some v → v.place = p → ∀ claim,
      v.stage ≠ .holding claim) : Delivery (s.setCall actor next) p :=
  h.drift (.refl _) rfl rfl fun _ c _ now => ⟨c, holders_setCall outside now, id⟩

/-- Something was noted for another endpoint. -/
theorem Delivery.note (h : Delivery s p) (ne : event.place ≠ some p) : Delivery (s.note event) p :=
  h.drift (by rw [endpoint_note]; exact .refl _) (note_elsewhere ne).1 (note_elsewhere ne).2
    fun _ c _ now => ⟨c, ⟨calls_note ▸ now.inCall, now.visit⟩, id⟩

/-- Every action but the opening of the slot keeps the deliveries of an endpoint. -/
theorem delivery_performs (h : Delivery s p) (performs : Performs s a t event)
    (kept : event ≠ .opened p) : Delivery t p := by
  have outside : ∀ {next : Option IpcCall}, next.bind IpcCall.visit = none → ∀ v,
      next.bind IpcCall.visit = some v → v.place = p → ∀ claim, v.stage ≠ .holding claim :=
    fun none' v now => absurd (none'.symm.trans now) nofun
  cases performs with
  | acts shifts => exact h.same rfl rfl rfl (shifts.endpoint p.1 p.2).drifts
  | starts idle none' => exact h.setCall (outside none')
  | @opens thread core table slot call idle free none' =>
    have ne : p ≠ (core, slot) := fun same => kept (congrArg _ same.symm)
    refine Delivery.note (Delivery.setCall (h.same rfl rfl rfl (.of_eq ?_)) (outside none'))
      fun same => ne (some.inj same).symm
    exact IpcState.endpoint_setEndpoint_ne s.state _ ne
  | resolves was none' found =>
    refine h.setCall fun v now _ claim held => ?_
    rw [(found v now).1] at held
    cases held
  | creates was none' stays shifts =>
    exact Delivery.setCall (h.same rfl rfl rfl (shifts.endpoint p.1 p.2).drifts) (outside stays)
  | discards was none' =>
    exact Delivery.setCall (h.same rfl rfl rfl
      (setEndpoint_drifts rfl (drifts_discarded _) p)) (outside rfl)
  | @moves thread expired call v st event stage next was visit awake move goes honest taken =>
    by_cases same : v.place = p
    · subst same
      exact delivery_move h was visit move goes honest taken
    have elsewhere := move.elsewhere (Ne.symm same)
    refine Delivery.note (Delivery.setCall (h.same rfl rfl rfl elsewhere) ?_) ?_
    · intro v' now place
      rw [goes] at now
      obtain ⟨_, -, rfl⟩ := map_eq_some_iff.mp now
      exact absurd place same
    · intro place
      rcases move.event_place with none' | here
      · rw [none'] at place
        cases place
      · exact same (some.inj (here.symm.trans place))
  | losesWake was visit waking =>
    exact Delivery.setCall (h.same rfl rfl rfl (.refl _)) (outside rfl)
  | wakesUp => exact h.same rfl rfl rfl (.refl _)
  | ownerCloses =>
    exact h.same rfl rfl rfl (setEndpoint_drifts rfl (ownerClose_shift _).drifts p)
  | cancels => exact h.same rfl rfl rfl (IpcState.cancelWaiter_drifts s.state ..)
  | timesOut blocked armed queues =>
    rcases queues with rfl | ⟨v, -, rfl⟩
    · exact h.same rfl rfl rfl (.refl _)
    · exact h.same rfl rfl rfl (setEndpoint_drifts rfl (drifts_setQueues _ _ _) p)
  | relinks => exact h.same rfl rfl rfl (setEndpoint_drifts rfl (drifts_setQueues _ _ _) p)

/-! ## One incarnation -/

/-- The slot is not opened again. -/
def KeepsIncarnation (p : Place) (s : IpcSystem) : IpcAction → Prop
  | .create _ core _ => ∀ slot, s.system.kernel.endpoints.freeSlot core = some slot →
    (core, slot) ≠ p
  | _ => True

theorem keeps_opened (keeps : KeepsIncarnation p s a) (performs : Performs s a t event) :
    event ≠ .opened p := by
  rintro rfl
  obtain ⟨thread, table, rfl, free⟩ := performs.opened
  exact keeps _ free rfl

/-- A slot that was just opened is empty. A call of an earlier incarnation may still be on
its way to it, but must not hold a claim there. -/
theorem delivery_opened (performs : Performs s (.create thread core table) t (.opened p))
    (unclaimed : ∀ other v claim, s.visit other = some v → v.place = p →
      v.stage ≠ .holding claim) : Delivery t p := by
  cases performs with
  | @opens _ _ _ slot call idle free outside =>
    have free : ∀ other c claim, ¬ (((s.setState (s.state.setEndpoint (core, slot)
        ((s.endpoint (core, slot)).opened core))).setCall thread (some call)).note
          (.opened (core, slot))).Holds (core, slot) other c claim := by
      intro other c claim holds
      obtain ⟨v, visit, place, held⟩ := holds.visit
      have holds : ((s.setState (s.state.setEndpoint (core, slot)
          ((s.endpoint (core, slot)).opened core))).setCall thread (some call)).Holds (core, slot)
            other c claim := ⟨holds.inCall, holds.visit⟩
      rcases holds.of_setCall with ⟨-, before⟩ | ⟨-, same⟩
      · have inCall : s.calls other = some c := before.inCall
        exact unclaimed other v claim (by rw [IpcSystem.visit, inCall, bind_some, visit]) place held
      cases same
      rw [outside] at visit
      cases visit
    have empty : (((s.setState (s.state.setEndpoint (core, slot)
        ((s.endpoint (core, slot)).opened core))).setCall thread (some call)).note
          (.opened (core, slot))).endpoint (core, slot) =
            (s.endpoint (core, slot)).opened core := by simp
    constructor
    · rw [empty]; rfl
    · exact fun other c claim holds => absurd holds (free other c claim)
    · exact fun other _ c _ claim _ holds => absurd holds (free other c claim)
    · rw [empty]; exact fun full => absurd rfl full
    · rw [empty]; exact fun full => absurd rfl full
    · simp [IpcSystem.note]
    · simp [IpcSystem.note]

theorem silent_stores_nothing (objectRef : BitVec 64) (parcel : Parcel) :
    IpcEvent.silent ≠ .stored p objectRef parcel := by
  intro e
  cases e

/-- A message in the endpoint of the call is not replaced by a move. -/
theorem move_keeps_message {refused : Bool} {s : IpcState}
    (h : Moves thread refused s v st event stage) (full : (s.endpoint v.place).hasMsg ≠ .empty) :
    (∀ objectRef parcel, event ≠ .stored v.place objectRef parcel) ∧
      ((st.endpoint v.place).hasMsg ≠ .empty →
        (st.endpoint v.place).parcel = (s.endpoint v.place).parcel) := by
  cases h with
  | stays shifts =>
    exact ⟨silent_stores_nothing, (shifts.endpoint v.place.1 v.place.2).drifts.parcel_kept⟩
  | ends | quits | passes | blocks | wakes => exact ⟨silent_stores_nothing, fun _ => rfl⟩
  | counts _ _ counted =>
    rw [endpoint_setEndpoint]
    rcases counted with rfl | rfl <;> exact ⟨silent_stores_nothing, fun _ => rfl⟩
  | claims =>
    rw [endpoint_setEndpoint]
    exact ⟨fun _ _ e => (by cases e), fun _ => rfl⟩
  | stores _ _ _ empty => exact absurd empty full
  | closes =>
    rw [endpoint_setEndpoint]
    refine ⟨silent_stores_nothing, fun full' => absurd ?_ full'⟩
    rcases (reclaim_shift (s.endpoint v.place).unclaim.clearMsgLocked).message with
      ⟨same, -⟩ | ⟨empty, -⟩
    · exact same
    · exact empty
  | requeues =>
    rw [endpoint_dequeueAt, setQueue_parcel]
    exact ⟨silent_stores_nothing, fun _ => rfl⟩
  | clears _ _ event' =>
    rw [endpoint_dequeueAt, setQueue_hasMsg]
    refine ⟨?_, fun full' => absurd rfl full'⟩
    rcases event' with rfl | ⟨receipt, rfl⟩ <;> exact fun _ _ e => by cases e
  | waits =>
    exact ⟨silent_stores_nothing, (enqueueAt_drifts (s.endTurn thread) ..).parcel_kept⟩
  | leaves => exact ⟨silent_stores_nothing, (leaveQueue_drifts ..).parcel_kept⟩
  | looks => exact ⟨silent_stores_nothing, (countTurn_drifts ..).parcel_kept⟩

/-- A message in the slot is not replaced: it stays what it is as long as there is one. -/
theorem Performs.keeps_message (h : Performs s a t event) (full : (s.endpoint p).hasMsg ≠ .empty) :
    (∀ objectRef parcel, event ≠ .stored p objectRef parcel) ∧
      ((t.endpoint p).hasMsg ≠ .empty → (t.endpoint p).parcel = (s.endpoint p).parcel) := by
  rcases h.endpoint p with ⟨drifts, elsewhere⟩ | ⟨rfl, opened⟩ | ⟨_, _, v, st, _, move, rfl, same⟩
  · exact ⟨fun _ _ stored => elsewhere (stored ▸ rfl), drifts.parcel_kept⟩
  · exact ⟨nofun, fun full' => absurd (opened ▸ rfl) full'⟩
  · rw [same]
    exact move_keeps_message move full

/-- The deliveries of one incarnation, at any time of its life. -/
theorem delivery_run (opens : s.step (.create thread core table) = some (s', .opened p))
    (unclaimed : ∀ other v claim, s.visit other = some v → v.place = p →
      v.stage ≠ .holding claim) (run : Run Steps (KeepsIncarnation p) s' t) : Delivery t p := by
  obtain ⟨u, performs, rfl⟩ := step_performs opens
  refine run.invariant (Delivery · p)
    ((delivery_opened performs unclaimed).same rfl rfl rfl (.refl _)) ?_
  intro s₁ s₂ a h keeps step
  obtain ⟨u, event, performs, rfl⟩ := steps_performs step
  exact (delivery_performs h performs (keeps_opened keeps performs)).same rfl rfl rfl (.refl _)

/-- The state after the first slot was opened. -/
def openedFirst (s : IpcSystem) : Option IpcSystem :=
  match s.step (.create 0 0 ⟨0, 0⟩) with
  | some (s', .opened p) => if p = (0, 0) then some s' else none
  | _ => none

theorem openedFirst_some (h : s.openedFirst = some s') :
    s.step (.create 0 0 ⟨0, 0⟩) = some (s', .opened (0, 0)) := by
  unfold openedFirst at h
  split at h
  · rename_i step
    split at h
    · rename_i first
      cases h
      rw [step, first]
    · cases h
  · cases h

theorem keeps_others (h : creates a = false) : KeepsIncarnation p s a := by
  cases a with
  | create => cases h
  | _ => trivial

/-- Thread 1 sends a byte and its capability to send, and thread 2 receives, to its end. -/
def deliverFirst (kind : ReceiveKind) (sections : Nat) : List IpcAction :=
  replicate 2 (.resume 0 false) ++
    (.send 1 ⟨0, ⟨0, 0⟩, 0x10001, [7], .forever, 0x10001, capRightEndpointSend, none⟩ ::
      replicate 8 (.resume 1 false)) ++
    (.receive 2 ⟨0, ⟨0, 0⟩, 0x10002, 8, .forever, kind⟩ :: replicate sections (.resume 2 false))

/-- That, at the first endpoint of the system. -/
def delivered (kind : ReceiveKind) (sections : Nat) : Option IpcSystem :=
  (((boot (fun _ => false) false).next (.act (.create 0 true))).bind openedFirst).bind fun s =>
    exec IpcSystem.next s (deliverFirst kind sections)

theorem delivered_run {kind : ReceiveKind} {sections : Nat}
    (h : delivered kind sections = some t) : ∃ s s' : IpcSystem,
    s.step (.create 0 0 ⟨0, 0⟩) = some (s', .opened (0, 0)) ∧
    (∀ other v claim, s.visit other = some v → v.place = (0, 0) → v.stage ≠ .holding claim) ∧
    Run Steps (KeepsIncarnation (0, 0)) s' t := by
  obtain ⟨s', opened, went⟩ := bind_eq_some_iff.mp h
  obtain ⟨s, first, opened⟩ := bind_eq_some_iff.mp opened
  refine ⟨s, s', openedFirst_some opened, ?_, exec_run (fun a listed s => keeps_others ?_) went⟩
  · intro other v claim visit
    cases first
    cases visit
  · simp only [deliverFirst, mem_append, mem_cons, mem_replicate] at listed
    rcases listed with (⟨-, rfl⟩ | rfl | ⟨-, rfl⟩) | rfl | ⟨-, rfl⟩ <;> rfl

end IpcSystem

end BharatOS
