import BharatOS.Tlb.Shootdown

/-!
# A shootdown that returns `K_OK` reached every core

An acknowledgement counts only if it carries the request id that the slot has now. Ids repeat after
65535 requests, so a message that is not older and has that id belongs to the present request.
-/

namespace BharatOS

open TlbSystem TlbPending Function Option List

namespace TlbSystem

/-- Core `c` has handled the request since its slot was allocated. -/
def Seen (s : TlbSystem) (c : Nat) (q : TlbRequest) : Prop :=
  ∃ i, q.since ≤ i ∧ s.handled[i]? = some ⟨c, q.reqid, q.req⟩

/-- Every core that the call had to reach has handled its request. -/
def Reached (cfg : TlbConfig) (s : TlbSystem) (r : Returned) : Prop :=
  ∀ c, r.entryMask.getLsbD c = true → c ≠ r.core → c < cfg.count →
    ∃ q, r.request = some q ∧ s.Seen c q

/-- When a slot is allocated, fewer than 65535 requests of the slot are later than the one that
a message in flight belongs to. -/
def Timely (cfg : TlbConfig) (s : TlbSystem) : TlbAction → Prop
  | .call core _ mask _ =>
    ∀ r ∈ s.pending.tlbPendingAlloc cfg.count core (targetMask cfg.count core mask),
      ∀ m ∈ s.network, m.ticket.id = ⟨core, r.2.1⟩ →
        s.requests m.ticket.id - m.ticket.number < 65535
  | _ => True

/-- No request goes to a mailbox: the transport takes it, or there is no fallback. -/
def ByTransport (cfg : TlbConfig) : TlbAction → Prop
  | .send _ .refused => cfg.fallback = false
  | _ => True

instance (cfg : TlbConfig) (s : TlbSystem) : (a : TlbAction) → Decidable (s.Timely cfg a)
  | .call core _ mask _ => inferInstanceAs (Decidable
      (∀ r ∈ s.pending.tlbPendingAlloc cfg.count core (targetMask cfg.count core mask),
        ∀ m ∈ s.network, m.ticket.id = ⟨core, r.2.1⟩ →
          s.requests m.ticket.id - m.ticket.number < 65535))
  | .send .. | .dispatched _ | .complete _ | .expire _ | .deliver .. | .lose _ | .readMail ..
  | .readResp _ => .isTrue trivial

instance (cfg : TlbConfig) : (a : TlbAction) → Decidable (ByTransport cfg a)
  | .send _ .refused => inferInstanceAs (Decidable (cfg.fallback = false))
  | .send _ .transport | .call .. | .dispatched _ | .complete _ | .expire _ | .deliver ..
  | .lose _ | .readMail .. | .readResp _ => .isTrue trivial

/-- A call that has a slot. -/
structure CallOk (cfg : TlbConfig) (s : TlbSystem) (id : SlotId) (k : TlbCall) : Prop where
  valid : id.Valid
  allocated : 0 < s.requests id
  reqid : k.request.reqid = slotReqid id (s.requests id - 1)
  entry : (s.pending.entry id).requestId = k.request.reqid
  targets : (s.pending.entry id).targetMask = targetMask cfg.count id.core k.entryMask
  since : k.request.since ≤ s.handled.length
  acked : ∀ c, (s.pending.entry id).ackMask.getLsbD c = true → s.Seen c k.request

/-- What a message says about the call that it belongs to. -/
def Says (s : TlbSystem) (k : TlbCall) : TlbMsg → Prop
  | .request _ _ _ req _ => req = k.request.req
  | .response _ src _ _ => s.Seen src k.request

/-- A message in flight. -/
structure MsgOk (s : TlbSystem) (m : TlbMsg) : Prop where
  valid : m.ticket.id.Valid
  older : m.ticket.number < s.requests m.ticket.id
  recent : s.requests m.ticket.id - 1 - m.ticket.number < 65535
  reqid : m.reqid = slotReqid m.ticket.id m.ticket.number
  content : ∀ k, s.call m.ticket.id = some k → m.ticket.number + 1 = s.requests m.ticket.id →
    s.Says k m

/-- The mailboxes are not in use. -/
structure MailQuiet (s : TlbSystem) : Prop where
  mailbox : ∀ core, (s.mailbox core).valid = false
  mailReader : ∀ core, s.mailReader core = .idle
  resp : ∀ id, (s.resp id).valid = false
  respReader : ∀ id, s.respReader id = .idle

structure Sound (cfg : TlbConfig) (s : TlbSystem) : Prop where
  gen : ∀ id, s.pending.gen id = ((s.requests id % 65535 + 1 : Nat) : BitVec 32)
  call : ∀ id k, s.call id = some k → s.CallOk cfg id k
  msg : ∀ m ∈ s.network, s.MsgOk m
  returned : ∀ r ∈ s.returned, r.status = .ok → s.Reached cfg r
  quiet : s.MailQuiet

variable {cfg : TlbConfig} {s t : TlbSystem} {c core : Nat} {m : TlbMsg}

theorem Seen.mono {q : TlbRequest} (h : s.Seen c q) (grows : s.handled <+: t.handled) :
    t.Seen c q := by
  obtain ⟨i, late, found⟩ := h
  obtain ⟨more, same⟩ := grows
  have inside : i < s.handled.length := (List.getElem?_eq_some_iff.mp found).1
  exact ⟨i, late, by rw [← same, getElem?_append_left inside, found]⟩

variable {k : TlbCall} {id : SlotId} {mask : BitVec 64} {reqid : BitVec 32}

theorem Says.mono (h : s.Says k m) (grows : s.handled <+: t.handled) : t.Says k m := by
  cases m with
  | request => exact h
  | response => exact Seen.mono h grows

theorem Reached.mono {r : Returned} (h : s.Reached cfg r) (grows : s.handled <+: t.handled) :
    t.Reached cfg r := by
  intro c member other active
  obtain ⟨q, has, seen⟩ := h c member other active
  exact ⟨q, has, seen.mono grows⟩

theorem CallOk.frame (h : s.CallOk cfg id k) (entry : t.pending.entry id = s.pending.entry id)
    (requests : t.requests id = s.requests id) (grows : s.handled <+: t.handled) :
    t.CallOk cfg id k where
  __ := h
  allocated := requests ▸ h.allocated
  reqid := requests ▸ h.reqid
  entry := entry ▸ h.entry
  targets := entry ▸ h.targets
  since := h.since.trans grows.length_le
  acked c set := (h.acked c (entry ▸ set)).mono grows

/-- Only what a call asks for matters, not where it is. -/
theorem CallOk.move {k' : TlbCall} (h : s.CallOk cfg id k) (mask : k'.entryMask = k.entryMask)
    (request : k'.request = k.request) : s.CallOk cfg id k' where
  __ := h
  reqid := request ▸ h.reqid
  entry := request ▸ h.entry
  targets := mask ▸ h.targets
  since := request ▸ h.since
  acked c set := request ▸ h.acked c set

theorem MsgOk.frame (h : s.MsgOk m) (requests : t.requests = s.requests)
    (grows : s.handled <+: t.handled) (calls : ∀ k', t.call m.ticket.id = some k' →
      ∃ k, s.call m.ticket.id = some k ∧ k'.request = k.request) : t.MsgOk m where
  __ := h
  older := requests ▸ h.older
  recent := requests ▸ h.recent
  content k' has now := by
    obtain ⟨k, had, same⟩ := calls k' has
    have said := (h.content k had (requests ▸ now)).mono grows
    cases m with
    | request => exact Eq.trans said (congrArg TlbRequest.req same.symm)
    | response _ src => exact (congrArg (t.Seen src) same).mpr said

theorem getLsbD_targetMask (active : c < cfg.count) (other : c ≠ core) :
    (targetMask cfg.count core mask).getLsbD c = mask.getLsbD c := by
  have small := cfg.count_le
  unfold maxCpus at small
  have kept : (clearCpu mask core).getLsbD c = mask.getLsbD c := by
    rw [getLsbD_clearCpu]
    simp [other]
  have inside := getLsbD_lowCpus (show cfg.count < 64 by omega) active
  simp only [targetMask, show 0 < cfg.count ∧ cfg.count < 64 from by omega, if_true, and_self,
    BitVec.getLsbD_and, inside, kept, Bool.and_true]

/-- What an allocation does. -/
theorem tlbPendingAlloc_spec {p p' : TlbPending} {slot : Nat} {targets : BitVec 64}
    (h : p.tlbPendingAlloc cfg.count core targets = some (p', slot, reqid)) :
    SlotId.Valid ⟨core, slot⟩ ∧ reqid = tlbReqidEncode core slot (p.gen ⟨core, slot⟩) ∧
      p'.entry = update p.entry ⟨core, slot⟩ ⟨true, targets, 0, reqid⟩ ∧
      p'.gen = update p.gen ⟨core, slot⟩ (nextGen (p.gen ⟨core, slot⟩)) := by
  unfold tlbPendingAlloc at h
  split at h
  · cases h
  rename_i small
  split at h
  · cases h
  split at h
  · cases h
  split at h
  · cases h
  rename_i found
  cases h
  have slotSmall := mem_range.mp (mem_of_find?_eq_some found)
  exact ⟨⟨(Nat.lt_of_not_le small).trans_le cfg.count_le, slotSmall⟩, rfl, rfl, rfl⟩

section

variable (S : Sound cfg s)

include S

variable {core : Nat} {status : TlbStatus} {req : TlbInvalidateReq}

/-- Calls go on or end, messages get lost or are new and in order, and cores handle requests. -/
theorem Sound.change (gen : t.pending.gen = s.pending.gen) (requests : t.requests = s.requests)
    (grows : s.handled <+: t.handled) (calls : ∀ id k', t.call id = some k' →
      t.pending.entry id = s.pending.entry id ∧ ∃ k, s.call id = some k ∧
        k'.entryMask = k.entryMask ∧ k'.request = k.request)
    (network : ∀ m ∈ t.network, m ∈ s.network ∨ t.MsgOk m)
    (returned : ∀ r ∈ t.returned, r ∈ s.returned ∨ (r.status = .ok → s.Reached cfg r))
    (quiet : t.MailQuiet) : Sound cfg t where
  gen id := by rw [gen, requests, S.gen]
  call id k' has := by
    obtain ⟨entry, k, had, mask, request⟩ := calls id k' has
    exact ((S.call id k had).move mask request).frame entry (congrFun requests id) grows
  msg m member := by
    rcases network m member with old | new
    · refine (S.msg m old).frame requests grows fun k' has => ?_
      obtain ⟨-, k, had, -, request⟩ := calls _ k' has
      exact ⟨k, had, request⟩
    · exact new
  returned r member ok := by
    rcases returned r member with old | new
    · exact (S.returned r old ok).mono grows
    · exact (new ok).mono grows
  quiet := quiet

theorem Sound.refuse (reached : status = .ok → s.Reached cfg ⟨core, mask, status, none⟩) :
    Sound cfg (s.refuse core mask status) := by
  refine S.change rfl rfl prefix_rfl (fun _ k has => ⟨rfl, k, has, rfl, rfl⟩) (fun _ => .inl) ?_
    { S.quiet with }
  exact forall_mem_append.mpr ⟨fun _ => .inl, forall_mem_singleton.mpr (.inr reached)⟩

theorem Sound.begin {state : AspaceState} (timely : s.Timely cfg (.call core state mask req)) :
    Sound cfg (s.begin cfg core state mask req) := by
  unfold TlbSystem.begin
  simp only
  split
  · exact S.refuse nofun
  split
  · rename_i nobody
    refine S.refuse fun _ c member other active => ?_
    rw [← getLsbD_targetMask active other, nobody] at member
    simp at member
  split
  · exact S.refuse nofun
  rename_i p slot reqid given
  obtain ⟨valid, isReqid, entries, gens⟩ := tlbPendingAlloc_spec given
  have young : ∀ m ∈ s.network, m.ticket.id = ⟨core, slot⟩ →
      s.requests m.ticket.id - m.ticket.number < 65535 := timely _ given
  have fresh : reqid = slotReqid ⟨core, slot⟩ (s.requests ⟨core, slot⟩) := by
    rw [isReqid, S.gen, slotReqid]
  refine ⟨fun id => ?_, fun id k has => ?_, fun m member => ?_, fun r member ok => ?_, ?_⟩
  · rw [gens]
    by_cases same : id = ⟨core, slot⟩
    · subst same
      simp only [update_self, S.gen]
      exact nextGen_turns _
    · simp only [update_of_ne same, S.gen]
  · by_cases same : id = ⟨core, slot⟩
    · subst same
      simp only [setCall, update_self, some.injEq] at has
      subst has
      exact {
        valid := valid
        allocated := by simp
        reqid := by simpa using fresh
        entry := by simp [entries]
        targets := by simp [entries]
        since := Nat.le_refl _
        acked := fun c set => by simp [entries] at set }
    · simp only [setCall, update_of_ne same] at has
      refine (S.call id k has).frame ?_ ?_ prefix_rfl
      · simp [entries, same]
      · simp [same]
  · have before := S.msg m member
    by_cases same : m.ticket.id = ⟨core, slot⟩
    · have late := young m member same
      have older := before.older
      exact { before with
        older := by simp only [same, update_self]; rw [same] at older; omega
        recent := by simp only [same, update_self]; rw [same] at late; omega
        content := fun k has now => by
          simp only [same, update_self] at now
          rw [same] at older
          omega }
    · exact { before with
        older := by simpa [same] using before.older
        recent := by simpa [same] using before.recent
        content := fun k has now => by
          simp only [setCall, update_of_ne same] at has now
          exact Says.mono (before.content k has now) prefix_rfl }
  · exact (S.returned r member ok).mono prefix_rfl
  · exact { S.quiet with }

/-- A call goes on with the same request. -/
theorem Sound.setCall {k' : TlbCall} (has : s.call id = some k)
    (mask : k'.entryMask = k.entryMask) (request : k'.request = k.request) :
    Sound cfg (s.setCall id (some k')) := by
  refine S.change rfl rfl prefix_rfl (fun other l hasOther => ⟨rfl, ?_⟩) (fun _ => .inl)
    (fun _ => .inl) { S.quiet with }
  by_cases same : other = id
  · subst same
    simp only [TlbSystem.setCall, update_self, some.injEq] at hasOther
    subst hasOther
    exact ⟨k, has, mask, request⟩
  · simp only [TlbSystem.setCall, update_of_ne same] at hasOther
    exact ⟨l, hasOther, rfl, rfl⟩

theorem Sound.finish
    (reached : status = .ok → s.Reached cfg ⟨id.core, k.entryMask, status, some k.request⟩) :
    Sound cfg (s.finish id k status) := by
  refine S.change rfl rfl prefix_rfl (fun other l hasOther => ?_) (fun _ => .inl) ?_
    { S.quiet with }
  · by_cases same : other = id
    · simp [TlbSystem.finish, TlbSystem.setCall, same] at hasOther
    simp only [TlbSystem.finish, TlbSystem.setCall, update_of_ne same] at hasOther
    refine ⟨?_, l, hasOther, rfl, rfl⟩
    simp [TlbSystem.finish, TlbPending.tlbPendingFree, TlbPending.setEntry, same]
  · exact forall_mem_append.mpr ⟨fun _ => .inl, forall_mem_singleton.mpr (.inr reached)⟩

/-- The messages may be exchanged for others that are in order. -/
theorem Sound.network {network : List TlbMsg}
    (ok : ∀ m ∈ network, s.MsgOk m) : Sound cfg { s with network } :=
  S.change rfl rfl prefix_rfl (fun _ k has => ⟨rfl, k, has, rfl, rfl⟩)
    (fun m member => .inr { ok m member with }) (fun _ => .inl) { S.quiet with }

section

variable (has : s.call id = some k)

include has

theorem Sound.sendNext {route : Route}
    (by_transport : ByTransport cfg (.send id route)) (h : s.sendNext cfg id k route = some t) :
    Sound cfg t := by
  unfold TlbSystem.sendNext at h
  split at h
  · cases h
  rename_i core anySent failed phase
  split at h
  · cases h
  split at h
  · cases h
    exact S.setCall has rfl rfl
  cases route with
  | transport =>
    cases h
    have callOk := S.call id k has
    have S' : Sound cfg (s.setCall id
        (some { k with phase := .sending (core + 1) true failed })) := S.setCall has rfl rfl
    refine S'.network fun m member => ?_
    rcases mem_append.mp member with old | new
    · exact S'.msg m old
    obtain rfl := mem_singleton.mp new
    have allocated := callOk.allocated
    exact { callOk with
      older := by simp only [TlbMsg.ticket, ticket, TlbSystem.setCall]; omega
      recent := by simp only [TlbMsg.ticket, ticket, TlbSystem.setCall]; omega
      content := fun l hasNow _ => by
        simp only [TlbMsg.ticket, ticket, TlbSystem.setCall, update_self, some.injEq] at hasNow
        subst hasNow
        rfl }
  | refused =>
    have compiled : cfg.fallback = false := by_transport
    simp only [compiled, Bool.false_eq_true, if_false] at h
    cases h
    exact S.setCall has rfl rfl

theorem Sound.afterDispatch (h : s.afterDispatch cfg id k = some t) : Sound cfg t := by
  unfold TlbSystem.afterDispatch at h
  split at h
  · cases h
  split at h
  · cases h
  split at h
  · cases h
    exact S.finish nofun
  split at h
  · cases h
    exact S.finish nofun
  · cases h
    exact S.setCall has rfl rfl

theorem Sound.afterDeadline (h : s.afterDeadline cfg id k = some t) : Sound cfg t := by
  unfold TlbSystem.afterDeadline at h
  split at h
  · cases h
  split at h
  · cases h
    exact S.setCall has rfl rfl
  · cases h
    exact S.finish nofun

theorem Sound.afterComplete (h : s.afterComplete id k = some t) : Sound cfg t := by
  unfold TlbSystem.afterComplete at h
  split at h
  · cases h
  split at h
  · rename_i complete
    cases h
    have callOk := S.call id k has
    refine S.finish fun _ c member other active => ⟨k.request, rfl, callOk.acked c ?_⟩
    -- every target is among the acknowledgements
    have all := of_decide_eq_true complete
    have target : (s.pending.entry id).targetMask.getLsbD c = true := by
      rw [callOk.targets, getLsbD_targetMask active other, member]
    rw [← all, BitVec.getLsbD_and, Bool.and_eq_true] at target
    exact target.1
  · cases h

end

/-- The answers of requests that the present one of its slot is not are not counted. -/
theorem Sound.ack {dst src : Nat} {tick : Ticket} (ok : s.MsgOk (.response dst src reqid tick)) :
    Sound cfg { s with pending := s.pending.tlbPendingAck cfg.count dst reqid src } := by
  have isReqid : reqid = slotReqid tick.id tick.number := ok.reqid
  have valid : tick.id.Valid := ok.valid
  have slot : reqidSlot reqid = tick.id := by rw [isReqid, reqidSlot_slotReqid valid]
  have unchanged : Sound cfg { s with pending := s.pending } := S
  unfold tlbPendingAck
  simp only [slot]
  split
  · exact unchanged
  split
  · exact unchanged
  split
  · exact unchanged
  split
  · rename_i current
    split
    · exact unchanged
    rename_i active _ _
    refine ⟨S.gen, fun id k has => ?_, fun m member => ?_, fun r member done => ?_,
      { S.quiet with }⟩
    · by_cases same : id = tick.id
      · subst same
        have callOk := S.call _ k has
        exact { callOk with
          entry := by simpa [setEntry] using callOk.entry
          targets := by simpa [setEntry] using callOk.targets
          acked := fun c set => by
            simp only [setEntry, update_self] at set
            have small := cfg.count_le
            unfold maxCpus at small
            rw [getLsbD_setCpu _ (by omega), Bool.or_eq_true, decide_eq_true_eq] at set
            rcases set with old | rfl
            · exact callOk.acked c old
            -- the id is that of the present request, so the answer is to it
            have same : slotReqid tick.id tick.number =
                slotReqid tick.id (s.requests tick.id - 1) := by
              rw [← isReqid, ← current.2, callOk.entry, callOk.reqid]
            have turn := slotReqid_inj valid valid same
            have older : tick.number < s.requests tick.id := ok.older
            have recent : s.requests tick.id - 1 - tick.number < 65535 := ok.recent
            have now : tick.number + 1 = s.requests tick.id := by omega
            exact ok.content k has now }
      · refine (S.call id k has).frame ?_ rfl prefix_rfl
        simp [setEntry, same]
    · exact (S.msg m member).frame rfl prefix_rfl fun k has => ⟨k, has, rfl⟩
    · exact (S.returned r member done).mono prefix_rfl
  · exact unchanged

theorem Sound.monitorHandle : Sound cfg (s.monitorHandle core reqid req) :=
  S.change rfl rfl (prefix_append _ _) (fun _ k has => ⟨rfl, k, has, rfl, rfl⟩) (fun _ => .inl)
    (fun _ => .inl) { S.quiet with }

theorem Sound.receive {answer : Route} (ok : s.MsgOk m) : Sound cfg (s.receive cfg answer m) := by
  cases m with
  | response dst src reqid tick => exact S.ack ok
  | request dst src reqid req tick =>
    have handled : Sound cfg (s.monitorHandle dst reqid req) := S.monitorHandle
    cases answer with
    | refused => exact handled
    | transport =>
      refine handled.network fun m member => ?_
      rcases mem_append.mp member with old | new
      · exact handled.msg m old
      obtain rfl := mem_singleton.mp new
      exact { ok with
        content := fun k has now => by
          -- the request that was just handled is the last of the record
          have callOk := S.call tick.id k has
          have number : tick.number = s.requests tick.id - 1 := by
            have now' : tick.number + 1 = s.requests tick.id := now
            omega
          have sameId : reqid = k.request.reqid := by
            rw [callOk.reqid, ← number]
            exact ok.reqid
          have sameReq : req = k.request.req := ok.content k has now
          refine ⟨s.handled.length, callOk.since, ?_⟩
          simp [TlbSystem.monitorHandle, sameId, sameReq] }

theorem step_sound {a : TlbAction} (timely : s.Timely cfg a)
    (by_transport : ByTransport cfg a) (h : s.Steps cfg a t) : Sound cfg t := by
  unfold Steps at h
  cases a with
  | call core state mask req =>
    cases h
    exact S.begin timely
  | send id route =>
    obtain ⟨k, has, now⟩ := bind_eq_some_iff.mp h
    exact S.sendNext has by_transport now
  | dispatched id =>
    obtain ⟨k, has, now⟩ := bind_eq_some_iff.mp h
    exact S.afterDispatch has now
  | complete id =>
    obtain ⟨k, has, now⟩ := bind_eq_some_iff.mp h
    exact S.afterComplete has now
  | expire id =>
    obtain ⟨k, has, now⟩ := bind_eq_some_iff.mp h
    exact S.afterDeadline has now
  | deliver index again answer =>
    obtain ⟨m, found, rfl⟩ := map_eq_some_iff.mp h
    have ok := S.msg m (mem_of_getElem? found)
    have rest : ∀ m' ∈ (if again then s.network else s.network.eraseIdx index), s.MsgOk m' := by
      intro m' member
      split at member
      · exact S.msg m' member
      · exact S.msg m' ((eraseIdx_sublist ..).subset member)
    exact (S.network rest).receive (ok.frame rfl prefix_rfl fun k has => ⟨k, has, rfl⟩)
  | lose index =>
    cases h
    exact S.network fun m member => S.msg m ((eraseIdx_sublist ..).subset member)
  | readMail core answer =>
    simp only [step, mailStep, S.quiet.mailReader core, S.quiet.mailbox core, Bool.false_eq_true,
      if_false] at h
    cases h
  | readResp id =>
    simp only [step, respStep, S.quiet.respReader id, S.quiet.resp id, Bool.false_eq_true,
      if_false] at h
    cases h
end

theorem boot_sound : Sound cfg boot where
  gen _ := rfl
  call _ _ has := by simp [boot] at has
  msg _ member := by simp [boot] at member
  returned _ member := by simp [boot] at member
  quiet := ⟨fun _ => rfl, fun _ => rfl, fun _ => rfl, fun _ => rfl⟩

/-- In every run in which no request goes to a mailbox, when a shootdown returns `K_OK`, every
other core that ran the address space has handled this request since the slot was allocated. -/
theorem shootdown_reached {s : TlbSystem}
    (run : Run (Steps cfg) (fun s a => s.Timely cfg a ∧ ByTransport cfg a) boot s) :
    ∀ r ∈ s.returned, r.status = .ok →
      ∀ c, r.entryMask.getLsbD c = true → c ≠ r.core → c < cfg.count → ∃ q, r.request = some q ∧
          ∃ i, q.since ≤ i ∧ s.handled[i]? = some ⟨c, q.reqid, q.req⟩ :=
  (run.invariant (Sound cfg) boot_sound fun _ _ _ S ok next =>
    step_sound S ok.1 ok.2 next).returned

def pageAt (va : BitVec 64) : TlbInvalidateReq := ⟨7, va, 0x1000, 0, 1⟩

/-- One attempt: the dispatch loop runs over all cores. -/
def attempt (id : SlotId) (route : Route) : List TlbAction :=
  replicate maxCpus (.send id route) ++ [.dispatched id]

/-- Core 1 gets the request of core 0 twice and answers twice; the first answer is lost. -/
def twoCores : List TlbAction :=
  [.call 0 .active 3 (pageAt 0x1000)] ++ attempt ⟨0, 0⟩ .transport ++
    [.deliver 0 true .transport, .lose 1, .deliver 0 false .transport,
      .deliver 0 false .transport, .complete ⟨0, 0⟩]

theorem shootdown_reached_two_cores : ∃ s q, Run (Steps ⟨false, 2, by decide⟩)
      (fun s a => s.Timely ⟨false, 2, by decide⟩ a ∧ ByTransport ⟨false, 2, by decide⟩ a) boot s ∧
    ⟨0, 3, .ok, some q⟩ ∈ s.returned ∧
      ∃ i, q.since ≤ i ∧ s.handled[i]? = some ⟨1, q.reqid, q.req⟩ := by
  obtain ⟨s, went, member⟩ : ∃ s, exec (guarded (step ⟨false, 2, by decide⟩)
        (fun s a => s.Timely ⟨false, 2, by decide⟩ a ∧ ByTransport ⟨false, 2, by decide⟩ a))
        boot twoCores = some s ∧
        ⟨0, 3, .ok, some ⟨slotReqid ⟨0, 0⟩ 0, pageAt 0x1000, 0⟩⟩ ∈ s.returned := by decide +kernel
  obtain ⟨q, same, seen⟩ := shootdown_reached (guarded_run went) _ member rfl 1 (by decide)
    (by decide) (by decide)
  cases same
  exact ⟨s, _, guarded_run went, member, seen⟩

/-- The mailboxes stand in for the transport. Core 1 takes a request of core 0 and is slow to
answer. The call times out, and the next one, to cores 1 and 2, gets the same slot. Both cores
answer into the record of that slot, core 1 the old request and core 2 the new one: core 0 sees
the id that core 2 wrote beside the name of core 1. -/
def mixedAnswers : List TlbAction :=
  let id : SlotId := ⟨0, 0⟩
  [.call 0 .active 3 (pageAt 0x1000)] ++ attempt id .refused ++
    replicate 7 (.readMail 1 .refused) ++
    [.expire id] ++ attempt id .refused ++ [.expire id] ++ attempt id .refused ++ [.expire id] ++
    [.call 0 .active 7 (pageAt 0x2000)] ++ attempt id .refused ++
    [.readMail 1 .refused] ++ replicate 10 (.readMail 2 .refused) ++
    replicate 3 (.readResp id) ++ replicate 2 (.readMail 1 .refused) ++
    replicate 3 (.readResp id) ++ [.complete id]

theorem shootdown_misses_core : ∃ s q,
    Run (Steps ⟨true, 3, by decide⟩) (fun s a => s.Timely ⟨true, 3, by decide⟩ a) boot s ∧
    ⟨0, 7, .ok, some q⟩ ∈ s.returned ∧ (7 : BitVec 64).getLsbD 1 = true ∧
      ∀ h ∈ s.handled, h.core = 1 → h.reqid ≠ q.reqid := by
  obtain ⟨s, went, returned, missed⟩ : ∃ s, exec (guarded (step ⟨true, 3, by decide⟩)
        (fun s a => s.Timely ⟨true, 3, by decide⟩ a)) boot mixedAnswers = some s ∧
        s.returned[1]? = some ⟨0, 7, .ok, some ⟨slotReqid ⟨0, 0⟩ 1, pageAt 0x2000, 1⟩⟩ ∧
        ∀ h ∈ s.handled, h.core = 1 → h.reqid ≠ slotReqid ⟨0, 0⟩ 1 := by decide +kernel
  exact ⟨s, _, guarded_run went, mem_of_getElem? returned, by decide, missed⟩

end TlbSystem

end BharatOS
