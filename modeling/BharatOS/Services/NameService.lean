import Mathlib.Data.List.FinRange
import Mathlib.Logic.Function.Basic

namespace BharatOS

open Function List Option

inductive CapStatus
  | ok | invalid | notFound | revoked | rightsDenied | scopeDenied | objectMismatch | expired
  | stale | unsupported
  deriving DecidableEq

/-- What `bharat_cap_validate` returns, with `allowed` and the owner of its `out_result`. -/
structure CapVerdict where
  status : CapStatus
  allowed : Bool
  ownerPrincipalId : Nat

def CapVerdict.Valid (res : CapVerdict) : Prop :=
  res.status = .ok ∧ res.allowed = true

/-- `g_current_env` at the time of a call, and whether the service has registered its resolver. -/
structure NamesvcEnv where
  resolverRegistered : Bool
  authorityCap : Nat
  senderPid : Nat

def namesvcEnvelopeResolver (env : NamesvcEnv) (handle : Nat) : CapVerdict :=
  if handle = 0 then ⟨.invalid, false, 0⟩
  else ⟨.ok, true, if env.authorityCap = handle ∧ env.senderPid ≠ 0 then env.senderPid else handle⟩

/-- `bharat_cap_validate` without the tests' backend: it fails closed until a resolver is there. -/
def capValidate (env : NamesvcEnv) (handle : Nat) : CapVerdict :=
  if env.resolverRegistered then namesvcEnvelopeResolver env handle else ⟨.unsupported, false, 0⟩

/-- Only tests set it. -/
def gForceStale : Bool := false

abbrev namesvcMaxEntries : Nat := 256

def namesvcMaxNameLen : Nat := 48

/-- `namesvc_entry_t` of a slot in use; the name ends before its first zero. -/
structure NamesvcEntry where
  name : List Char
  endpoint : Nat
  serviceId : Nat
  version : Nat
  flags : Nat
  ownerId : Nat

structure NameRegistry where
  initialized : Bool
  entries : Fin namesvcMaxEntries → Option NamesvcEntry

inductive NamesvcStatus
  | ok | errNotFound | errInval | errExists | errNoSpace | errPerm

def isValidServiceName (name : List Char) : Bool :=
  name ≠ [] && name.length < namesvcMaxNameLen

/-- `check_endpoint_owner`: the owner and whether the capability is stale. -/
def checkEndpointOwner (env : NamesvcEnv) (endpoint : Nat) : Option (Nat × Bool) :=
  let res := capValidate env endpoint
  if res.status = .stale ∨ gForceStale then some (res.ownerPrincipalId, true)
  else if res.status ≠ .ok ∨ !res.allowed then none
  else some (res.ownerPrincipalId, false)

namespace NameRegistry

def set (r : NameRegistry) (i : Fin namesvcMaxEntries) (e : NamesvcEntry) : NameRegistry :=
  { r with entries := update r.entries i (some e) }

/-- The first entry in use for the name and version. -/
def entryFor (r : NameRegistry) (name : List Char) (version : Nat) :
    Option (Fin namesvcMaxEntries × NamesvcEntry) :=
  (finRange _).findSome? fun i =>
    ((r.entries i).filter fun e => e.name = name && e.version = version).map fun e => (i, e)

def namesvcRegistryAdd (env : NamesvcEnv) (r : NameRegistry) (name : List Char)
    (sid version flags endpoint : Nat) : NamesvcStatus × NameRegistry :=
  if !r.initialized then (.errNotFound, r)
  else if !isValidServiceName name || endpoint = 0 then (.errInval, r)
  else match checkEndpointOwner env endpoint with
  | none => (.errInval, r)
  | some (ownerId, _) =>
    match r.entryFor name version with
    | some (i, e) =>
      if (checkEndpointOwner env e.endpoint).any (·.2) ∧ e.ownerId = ownerId then
        (.ok, r.set i { e with endpoint, flags, serviceId := sid })
      else (.errExists, r)
    | none =>
      match (finRange _).find? fun i => (r.entries i).isNone with
      | none => (.errNoSpace, r)
      | some i => (.ok, r.set i ⟨name, endpoint, sid, version, flags, ownerId⟩)

def namesvcRegistryRemove (env : NamesvcEnv) (r : NameRegistry) (name : List Char)
    (callerCap : Nat) : NamesvcStatus × NameRegistry :=
  if !r.initialized then (.errNotFound, r)
  else if !isValidServiceName name then (.errInval, r)
  else match checkEndpointOwner env callerCap with
  | none => (.errPerm, r)
  | some (callerOwnerId, _) =>
    let goes (e : NamesvcEntry) : Bool := e.name = name && e.ownerId = callerOwnerId
    (if (finRange _).any fun i => (r.entries i).any goes then .ok else .errNotFound,
      { r with entries := fun i => (r.entries i).filter fun e => !goes e })

/-- No two entries in use have the same name and version. -/
def Distinct (r : NameRegistry) : Prop :=
  ∀ i j e f, r.entries i = some e → r.entries j = some f →
    e.name = f.name → e.version = f.version → i = j

/-- What a call with a capability of this owner does if it changes the registry. -/
inductive Change (owner : Nat) (r : NameRegistry) : NameRegistry → Prop
  | replace {i e e'} (old : r.entries i = some e) (rightful : e.ownerId = owner)
      (name : e'.name = e.name) (version : e'.version = e.version) : Change owner r (r.set i e')
  | fill {i e} (empty : r.entries i = none)
      (fresh : ∀ j f, r.entries j = some f → f.name = e.name → f.version ≠ e.version) :
      Change owner r (r.set i e)
  | remove {goes : NamesvcEntry → Bool} (rightful : ∀ e, goes e → e.ownerId = owner) :
      Change owner r { r with entries := fun i => (r.entries i).filter fun e => !goes e }

variable {name : List Char} {r r' : NameRegistry} {version owner : Nat}

theorem entryFor_eq_some {i e} (found : r.entryFor name version = some (i, e)) :
    r.entries i = some e := by
  obtain ⟨j, -, h⟩ := exists_of_findSome?_eq_some found
  obtain ⟨f, inUse, same⟩ := map_eq_some_iff.mp h
  cases same
  exact (filter_eq_some_iff.mp inUse).1

theorem entryFor_eq_none (absent : r.entryFor name version = none) (j f)
    (inUse : r.entries j = some f) (same : f.name = name) : f.version ≠ version := by
  have h := findSome?_eq_none_iff.mp absent j (mem_finRange j)
  rw [inUse] at h
  intro sameVersion
  simp [same, sameVersion] at h

theorem Change.distinct (change : Change owner r r') (h : r.Distinct) : r'.Distinct := by
  intro a b x y hx hy name version
  cases change with
  | @replace i e e' old _ sameName sameVersion =>
    -- the new entry stands for the old one of its slot
    have stood : ∀ c z, (r.set i e').entries c = some z →
        ∃ z', r.entries c = some z' ∧ z'.name = z.name ∧ z'.version = z.version := by
      intro c z hz
      by_cases at_i : c = i
      · subst at_i
        simp only [set, update_self, some.injEq] at hz
        exact ⟨e, old, hz ▸ sameName.symm, hz ▸ sameVersion.symm⟩
      · simp only [set, update_of_ne at_i] at hz
        exact ⟨z, hz, rfl, rfl⟩
    obtain ⟨x', hx', nx, vx⟩ := stood a x hx
    obtain ⟨y', hy', ny, vy⟩ := stood b y hy
    exact h a b x' y' hx' hy' (by rw [nx, ny, name]) (by rw [vx, vy, version])
  | @fill i e empty fresh =>
    by_cases ha : a = i <;> by_cases hb : b = i <;>
      simp only [set, ha, hb, update_self, update_of_ne, ne_eq, not_false_eq_true,
        some.injEq] at hx hy
    · rw [ha, hb]
    · exact absurd (hx ▸ version.symm) (fresh b y hy (hx ▸ name.symm))
    · exact absurd (hy ▸ version) (fresh a x hx (hy ▸ name))
    · exact h a b x y hx hy name version
  | remove _ =>
    exact h a b x y (filter_eq_some_iff.mp hx).1 (filter_eq_some_iff.mp hy).1
      name version

theorem Change.rightful (change : Change owner r r') {i e} (inUse : r.entries i = some e)
    (gone : r'.entries i ≠ some e) : e.ownerId = owner := by
  cases change with
  | @replace j f _ old rightful =>
    by_cases here : i = j
    · subst here
      rw [inUse] at old
      exact some.inj old ▸ rightful
    · exact absurd inUse (by simpa only [set, update_of_ne here] using gone)
  | @fill j _ empty =>
    have here : i ≠ j := by rintro rfl; simp [inUse] at empty
    exact absurd inUse (by simpa only [set, update_of_ne here] using gone)
  | @remove goes rightful =>
    apply rightful
    by_contra stays
    exact gone (by simp [inUse, stays])

end NameRegistry

inductive NamesvcCall
  | add (name : List Char) (sid version flags endpoint : Nat)
  | remove (name : List Char) (callerCap : Nat)

namespace NamesvcCall

/-- The endpoint or caller capability that is presented. -/
def capability : NamesvcCall → Nat
  | add _ _ _ _ endpoint => endpoint
  | remove _ callerCap => callerCap

def run (env : NamesvcEnv) (r : NameRegistry) : NamesvcCall → NameRegistry
  | add name sid version flags endpoint =>
    (r.namesvcRegistryAdd env name sid version flags endpoint).2
  | remove name callerCap => (r.namesvcRegistryRemove env name callerCap).2

end NamesvcCall

namespace NameRegistry

/-- The registry before and after `namesvc_registry_init`, and after any calls, each with
the envelope it came in. -/
inductive Reachable : NameRegistry → Prop
  | start (initialized : Bool) : Reachable ⟨initialized, fun _ => none⟩
  | next {r : NameRegistry} (before : Reachable r) (env : NamesvcEnv) (call : NamesvcCall) :
      Reachable (call.run env r)

/-- A call presenting the capability may take the registry from `r` to `r'`. -/
structure Permitted (env : NamesvcEnv) (cap : Nat) (r r' : NameRegistry) : Prop where
  valid : r' ≠ r → (capValidate env cap).Valid
  rightful : ∀ i e, r.entries i = some e → r'.entries i ≠ some e →
    e.ownerId = (capValidate env cap).ownerPrincipalId
  distinct : r'.Distinct

variable {env : NamesvcEnv} {r : NameRegistry}

/-- The resolver never answers that a capability is stale. -/
theorem capValidate_not_stale (cap : Nat) : (capValidate env cap).status ≠ .stale := by
  unfold capValidate namesvcEnvelopeResolver
  split_ifs <;> simp

theorem checkEndpointOwner_eq_some {cap owner : Nat} {stale : Bool}
    (h : checkEndpointOwner env cap = some (owner, stale)) :
    owner = (capValidate env cap).ownerPrincipalId ∧ (capValidate env cap).Valid := by
  simp only [checkEndpointOwner, capValidate_not_stale, gForceStale, Bool.false_eq_true, false_or,
    if_false] at h
  split_ifs at h with refused
  cases h
  exact ⟨rfl, by simpa [CapVerdict.Valid] using refused⟩

theorem run_cases {call : NamesvcCall} :
    call.run env r = r ∨ ∃ owner stale,
      checkEndpointOwner env call.capability = some (owner, stale) ∧
        Change owner r (call.run env r) := by
  cases call with
  | add name sid version flags endpoint =>
    simp only [NamesvcCall.run, NamesvcCall.capability, namesvcRegistryAdd]
    split_ifs
    · exact .inl rfl
    · exact .inl rfl
    cases owned : checkEndpointOwner env endpoint with
    | none => exact .inl rfl
    | some found =>
      cases entry : r.entryFor name version with
      | some found =>
        simp only
        split_ifs with may
        · exact .inr ⟨_, _, rfl, .replace (entryFor_eq_some entry) may.2 rfl rfl⟩
        · exact .inl rfl
      | none =>
        simp only
        split
        · exact .inl rfl
        rename_i i empty
        exact .inr ⟨_, _, rfl, .fill (by simpa using find?_some empty) (entryFor_eq_none entry)⟩
  | remove name callerCap =>
    simp only [NamesvcCall.run, NamesvcCall.capability, namesvcRegistryRemove]
    split_ifs
    · exact .inl rfl
    · exact .inl rfl
    cases owned : checkEndpointOwner env callerCap with
    | none => exact .inl rfl
    | some found => exact .inr ⟨_, _, rfl, .remove fun e goes => by simp_all⟩

theorem Reachable.distinct (h : r.Reachable) : r.Distinct := by
  induction h with
  | start => exact fun _ _ _ _ h => nomatch h
  | @next r _ env call ih =>
    obtain same | ⟨owner, _, _, change⟩ := run_cases
    · rw [same]; exact ih
    · exact change.distinct ih

/-- Only a valid capability changes the registry, and only entries of its owner. -/
theorem capability_rules_names (reached : r.Reachable) (env : NamesvcEnv) (call : NamesvcCall) :
    Permitted env call.capability r (call.run env r) := by
  obtain same | ⟨owner, _, owned, change⟩ := run_cases
  · rw [same]
    exact ⟨fun moved => absurd rfl moved, fun _ _ inUse gone => absurd inUse gone,
      reached.distinct⟩
  · obtain ⟨rfl, valid⟩ := checkEndpointOwner_eq_some owned
    exact ⟨fun _ => valid, fun _ _ => change.rightful, change.distinct reached.distinct⟩

/-- Two processes register versions of one name, and the first removes the one it owns. -/
theorem capability_rules_names_own :
    let r := (NamesvcCall.add ['v', 'f', 's'] 3 2 0 6).run ⟨true, 6, 8⟩
      ((NamesvcCall.add ['v', 'f', 's'] 3 1 0 5).run ⟨true, 5, 7⟩ ⟨true, fun _ => none⟩)
    let r' := (NamesvcCall.remove ['v', 'f', 's'] 9).run ⟨true, 9, 7⟩ r
    (r'.entries ⟨0, by decide⟩).isNone ∧ (r'.entries ⟨1, by decide⟩).isSome ∧
      Permitted ⟨true, 9, 7⟩ 9 r r' :=
  ⟨by decide +kernel, by decide +kernel,
    capability_rules_names (.next (.next (.start true) _ _) _ _) _ (.remove ['v', 'f', 's'] 9)⟩

end NameRegistry

end BharatOS
