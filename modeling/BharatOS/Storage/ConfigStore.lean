import BharatOS.Lib.Device
import BharatOS.Lib.Runs
import Mathlib.Data.List.Basic

/-!
# The configuration store (`config_store.c`, `key_store.c`)

A value is sealed into one of two slots, and a selector says which slot is active. A sector is
given by the fields that are read from it and the bytes behind them. `none` stands for an access
outside a buffer.
-/

namespace BharatOS

open List Option

abbrev Byte := BitVec 8

/-- `config_selector_t`, without its CRC. -/
structure SelectorFields where
  magic : BitVec 32
  activeSlot : BitVec 32
  generation : BitVec 64
  rollbackEpoch : BitVec 64

structure ConfigSelector extends SelectorFields where
  crc : BitVec 32

/-- `encrypted_config_header_t`, without its CRC and the fields that nobody reads. -/
structure HeaderFields where
  magic : BitVec 32
  generation : BitVec 64
  rollbackEpoch : BitVec 64
  partitionUuid : BitVec 128
  namespaceId : BitVec 32
  plaintextLength : BitVec 32
  nonce : BitVec 128
  ciphertextLength : BitVec 32

structure ConfigHeader extends HeaderFields where
  headerCrc : BitVec 32

def configHeaderSize : Nat := 104

/-- The sector of a slot: the header, and the bytes behind it. -/
structure ConfigSlot where
  header : ConfigHeader
  body : List Byte
  full : configHeaderSize + body.length = 512

/-- Slot `false` is slot A. -/
structure ConfigDisk where
  selector : ConfigSelector
  slot : Bool → ConfigSlot

def ConfigDisk.active (d : ConfigDisk) : ConfigSlot := d.slot (d.selector.activeSlot ≠ 0)

/-- `config_binding_context_t`; the device is fixed. -/
structure ConfigBinding where
  partitionUuid : BitVec 128
  namespaceId : BitVec 32
  generation : BitVec 64
  rollbackEpoch : BitVec 64

/-- What the calls depend on besides the device: the CRCs, the key with the hashes made from it,
the uuid of the partition and the rollback anchor. -/
structure ConfigEnv where
  crcSelector : SelectorFields → BitVec 32
  crcHeader : HeaderFields → BitVec 32
  keyAvailable : Bool
  keystream : ConfigBinding → BitVec 128 → Nat → Byte
  tagHash : ConfigBinding → List Byte → Fin 4 → Byte
  partitionUuid : BitVec 128
  prevention : Bool
  rollbackEpoch : BitVec 64

inductive IoStatus
  | ioError | invalidArgument | permissionDenied
  deriving DecidableEq

/-- The bytes behind a header, with zeros up to the end of the sector. -/
def padded (bytes : List Byte) : List Byte := (bytes ++ replicate 408 0).take 408

theorem full_padded (bytes : List Byte) : configHeaderSize + (padded bytes).length = 512 := by
  rw [padded, length_take, length_append, length_replicate, Nat.min_eq_left (by omega)]
  rfl

/-- `memcpy` from a buffer. -/
def slice (bytes : List Byte) (offset length : Nat) : Option (List Byte) :=
  if offset + length ≤ bytes.length then some ((bytes.drop offset).take length) else none

namespace ConfigEnv

def crypt (env : ConfigEnv) (binding : ConfigBinding) (nonce : BitVec 128) (bytes : List Byte) :
    List Byte :=
  bytes.mapIdx fun i b => b ^^^ env.keystream binding nonce i

def tag (env : ConfigEnv) (binding : ConfigBinding) (plaintext : List Byte) : List Byte :=
  ofFn (env.tagHash binding plaintext) ++ replicate 12 0

/-- `keystore_aead_open`: only the first four bytes of a tag are compared. -/
def keystoreAeadOpen (env : ConfigEnv) (binding : ConfigBinding) (nonce : BitVec 128)
    (ciphertext tag : List Byte) : Except IoStatus (List Byte) :=
  let plaintext := env.crypt binding nonce ciphertext
  if !env.keyAvailable then .error .permissionDenied
  else if tag.take 4 ≠ ofFn (env.tagHash binding plaintext) then .error .ioError
  else .ok plaintext

def configMagic : BitVec 32 := 0x43464753

def selectorMagic : BitVec 32 := 0x53454C54

def validSelector (env : ConfigEnv) (sel : ConfigSelector) : Bool :=
  sel.magic = selectorMagic && sel.crc = env.crcSelector sel.toSelectorFields

/-- The checks of `config_store_read`, in their order. -/
def checks (env : ConfigEnv) (d : ConfigDisk) (ns : BitVec 32) : Except IoStatus ConfigSlot :=
  let header := d.active.header
  if !env.validSelector d.selector then .error .ioError
  else if header.magic ≠ configMagic ∨ header.headerCrc ≠ env.crcHeader header.toHeaderFields then
    .error .ioError
  else if header.namespaceId ≠ ns then .error .invalidArgument
  else if env.prevention ∧ header.rollbackEpoch < env.rollbackEpoch then .error .permissionDenied
  else .ok d.active

def binding (header : HeaderFields) : ConfigBinding :=
  ⟨header.partitionUuid, header.namespaceId, header.generation, header.rollbackEpoch⟩

/-- `config_store_read`: what is copied to the caller's buffer of `maxLen` bytes, and `out_len`. -/
def configStoreRead (env : ConfigEnv) (d : ConfigDisk) (ns : BitVec 32) (maxLen : Nat) :
    Option (Except IoStatus (List Byte × BitVec 32)) :=
  match env.checks d ns with
  | .error status => some (.error status)
  | .ok sector =>
    let header := sector.header
    (slice sector.body header.ciphertextLength.toNat 16).bind fun tag =>
    (slice sector.body 0 header.ciphertextLength.toNat).bind fun ciphertext =>
    match env.keystoreAeadOpen (binding header.toHeaderFields) header.nonce ciphertext tag with
    | .error status => some (.error status)
    | .ok opened =>
      let plaintext := opened ++ replicate (512 - opened.length) 0
      (slice plaintext 0 (min header.plaintextLength.toNat maxLen)).map fun out =>
        .ok (out, header.plaintextLength)

inductive ConfigWrite
  | slot (which : Bool) (sector : ConfigSlot)
  | selector (sel : ConfigSelector)

def store (d : ConfigDisk) : ConfigWrite → ConfigDisk
  | .slot which sector => { d with slot := Function.update d.slot which sector }
  | .selector sel => { d with selector := sel }

/-- The selector that a write goes by: one that is not valid is taken to name slot A. -/
def current (env : ConfigEnv) (d : ConfigDisk) : SelectorFields :=
  if env.validSelector d.selector then d.selector.toSelectorFields else ⟨selectorMagic, 0, 1, 1⟩

/-- The header of the next record. -/
def nextHeader (env : ConfigEnv) (d : ConfigDisk) (ns : BitVec 32) (plaintext : List Byte) :
    HeaderFields where
  magic := configMagic
  generation := (env.current d).generation + 1
  rollbackEpoch := if env.prevention then env.rollbackEpoch else (env.current d).rollbackEpoch
  partitionUuid := env.partitionUuid
  namespaceId := ns
  plaintextLength := BitVec.ofNat 32 plaintext.length
  nonce := 0x1F1F1F1F1F1F1F1F1F1F1F1F1F1F1F1F
  ciphertextLength := BitVec.ofNat 32 plaintext.length

def nextSector (env : ConfigEnv) (header : HeaderFields) (plaintext : List Byte) : ConfigSlot where
  header := ⟨header, env.crcHeader header⟩
  body := padded (env.crypt (binding header) header.nonce plaintext ++
    env.tag (binding header) plaintext)
  full := full_padded _

def nextSelector (env : ConfigEnv) (d : ConfigDisk) (header : HeaderFields) : ConfigSelector :=
  let sel : SelectorFields :=
    ⟨(env.current d).magic, if (env.current d).activeSlot = 0 then 1 else 0, header.generation,
      header.rollbackEpoch⟩
  ⟨sel, env.crcSelector sel⟩

/-- `config_store_write`: what it asks of the device, up to an I/O error. -/
def configStoreWrite (env : ConfigEnv) (d : ConfigDisk) (ns : BitVec 32) (plaintext : List Byte) :
    Option (Except IoStatus (List (DevOp ConfigWrite))) :=
  if plaintext.length = 0 ∨ 400 < plaintext.length then some (.error .invalidArgument)
  else if !env.keyAvailable then some (.error .permissionDenied)
  else if 512 < configHeaderSize + plaintext.length + 16 then none
  else
    let header := env.nextHeader d ns plaintext
    some (.ok [.write (.slot ((env.current d).activeSlot = 0) (env.nextSector header plaintext)),
      .flush, .write (.selector (env.nextSelector d header)), .flush])

/-! ## Reading what was written -/

variable {env : ConfigEnv} {d' : ConfigDisk}

theorem crypt_crypt {b : ConfigBinding} {nonce : BitVec 128} {bytes : List Byte} :
    env.crypt b nonce (env.crypt b nonce bytes) = bytes := by
  apply ext_getElem? fun i => ?_
  simp only [crypt, getElem?_mapIdx, Option.map_map]
  cases bytes[i]? with
  | none => rfl
  | some x =>
    change some (x ^^^ env.keystream b nonce i ^^^ env.keystream b nonce i) = some x
    rw [BitVec.xor_assoc, BitVec.xor_self, BitVec.xor_zero]

theorem current_magic {d : ConfigDisk} : (env.current d).magic = selectorMagic := by
  unfold current
  split_ifs with valid
  · simp only [validSelector, Bool.and_eq_true, decide_eq_true_eq] at valid
    exact valid.1
  · rfl

variable (env : ConfigEnv) (d : ConfigDisk) (ns : BitVec 32) (new : List Byte)

/-- The slot that a write goes to. -/
def target : Bool := (env.current d).activeSlot = 0

def written : ConfigSlot := env.nextSector (env.nextHeader d ns new) new

/-- After the whole write. -/
def after : ConfigDisk :=
  store (store d (.slot (env.target d) (env.written d ns new)))
    (.selector (env.nextSelector d (env.nextHeader d ns new)))

theorem checks_after (ns' : BitVec 32) : env.checks (env.after d ns new) ns' =
    if ns ≠ ns' then .error .invalidArgument else .ok (env.written d ns new) := by
  have sel : env.validSelector (env.after d ns new).selector = true := by
    simp [validSelector, after, store, nextSelector, current_magic]
  have active : (env.after d ns new).active = env.written d ns new := by
    have there : decide ((env.after d ns new).selector.activeSlot ≠ 0) = env.target d := by
      by_cases zero : (env.current d).activeSlot = 0 <;>
        simp [after, store, nextSelector, target, zero]
    rw [ConfigDisk.active, there]
    exact Function.update_self ..
  simp only [checks, sel, active]
  by_cases prevention : env.prevention <;>
    simp [written, nextSector, nextHeader, prevention]

variable {env d ns new}

theorem slice_append (xs ys zs : List Byte) :
    slice (xs ++ ys ++ zs) xs.length ys.length = some ys := by
  simp [slice, append_assoc]

theorem read_after (key : env.keyAvailable = true)
    (small : configHeaderSize + new.length + 16 ≤ 512) (ns' : BitVec 32) (maxLen : Nat) :
    env.configStoreRead (env.after d ns new) ns' maxLen =
      some (if ns ≠ ns' then .error .invalidArgument
        else .ok (new.take maxLen, BitVec.ofNat 32 new.length)) := by
  unfold configHeaderSize at small
  unfold configStoreRead
  rw [checks_after]
  split_ifs with other
  · rfl
  let header := env.nextHeader d ns new
  let sealed := env.crypt (binding header) header.nonce new
  let rest : List Byte := replicate (408 - (new.length + 16)) 0
  have lengths : sealed.length = new.length := by simp [sealed, crypt]
  have size : (env.tag (binding header) new).length = 16 := by simp [tag]
  have body : (env.written d ns new).body = sealed ++ env.tag (binding header) new ++ rest := by
    change padded (sealed ++ env.tag (binding header) new) = _
    rw [padded, take_append, take_of_length_le (by rw [length_append]; omega), take_replicate,
      length_append, lengths, size, Nat.min_eq_left (by omega)]
  have long : (BitVec.ofNat 32 new.length).toNat = new.length := by
    rw [BitVec.toNat_ofNat]
    omega
  have tagged : slice (env.written d ns new).body new.length 16 =
      some (env.tag (binding header) new) := by
    rw [body, ← lengths, ← size]
    exact slice_append ..
  have ciphered : slice (env.written d ns new).body 0 new.length = some sealed := by
    rw [body, append_assoc, ← lengths]
    exact slice_append [] sealed _
  have opened : env.keystoreAeadOpen (binding header) header.nonce sealed
      (env.tag (binding header) new) = .ok new := by
    simp [keystoreAeadOpen, key, sealed, crypt_crypt, tag]
  have copied : slice (new ++ replicate (512 - new.length) 0) 0 (min new.length maxLen) =
      some (new.take maxLen) := by
    rw [slice, if_pos (by rw [length_append, length_replicate]; omega), drop_zero,
      take_append_of_le_length (by omega), Nat.min_comm, ← take_take, take_length]
  have fields : (env.written d ns new).header.toHeaderFields = header := rfl
  simp only [fields, show header.ciphertextLength = BitVec.ofNat 32 new.length from rfl,
    show header.plaintextLength = BitVec.ofNat 32 new.length from rfl, long, tagged, ciphered,
    bind_some, opened, copied]
  rfl

/-! ## Crashes -/

theorem survives_write {a b : ConfigWrite}
    (h : Survives store d [] [.write a, .flush, .write b, .flush] d') :
    d' = d ∨ d' = store d a ∨ d' = store (store d a) b := by
  have one : ∀ {w : ConfigWrite} {kept}, kept.Sublist [w] → kept = [] ∨ kept = [w] := by
    intro w kept some
    cases some with
    | cons _ none => exact .inl (sublist_nil.mp none)
    | cons_cons _ none => exact .inr (by rw [sublist_nil.mp none])
  cases h with
  | interrupted some => rw [sublist_nil.mp some]; exact .inl rfl
  | write h => cases h with
    | interrupted some => rcases one some with rfl | rfl <;> simp
    | flush h => cases h with
      | interrupted some => rw [sublist_nil.mp some]; exact .inr (.inl rfl)
      | write h => cases h with
        | interrupted some => rcases one some with rfl | rfl <;> simp
        | flush h => cases h with
          | interrupted some => rw [sublist_nil.mp some]; exact .inr (.inr rfl)

/-- A write to the other slot is not seen. -/
theorem read_target (sector : ConfigSlot) (ns' : BitVec 32) (maxLen : Nat) :
    env.configStoreRead (store d (.slot (env.target d) sector)) ns' maxLen =
      env.configStoreRead d ns' maxLen := by
  have same : env.checks (store d (.slot (env.target d) sector)) ns' = env.checks d ns' := by
    by_cases valid : env.validSelector d.selector
    · have apart : decide (d.selector.activeSlot ≠ 0) ≠ env.target d := by
        simp [target, current, valid]
      have active : (store d (.slot (env.target d) sector)).active = d.active :=
        Function.update_of_ne apart ..
      unfold checks
      rw [active]
      rfl
    · simp [checks, show (store d (.slot (env.target d) sector)).selector = d.selector from rfl, valid]
  unfold configStoreRead
  rw [same]

/-- Header, value and tag have to fit into a sector, but 400 bytes are allowed for the value. -/
theorem write_defined_iff : (∃ outcome, env.configStoreWrite d ns new = some outcome) ↔
    (env.keyAvailable = true → new.length ≤ 392 ∨ 400 < new.length) := by
  unfold configStoreWrite configHeaderSize
  split_ifs with size key large
  · simp only [some.injEq, exists_eq', true_iff]
    omega
  · simp_all
  · simp only [exists_false, false_iff, Classical.not_imp]
    exact ⟨by simpa using key, by omega⟩
  · simp only [some.injEq, exists_eq', true_iff]
    omega

/-- The write of a value touches only its buffers, and whatever interrupts it, the value that was
there before can be read, or the new one. It begins with all earlier writes flushed. -/
def CrashAtomic (env : ConfigEnv) (d : ConfigDisk) (ns : BitVec 32) (new : List Byte) : Prop :=
  ∃ outcome, env.configStoreWrite d ns new = some outcome ∧ ∀ ops, outcome = .ok ops →
    ∀ d', Survives store d [] ops d' → ∀ maxLen old,
      env.configStoreRead d ns maxLen = some (.ok old) →
      env.configStoreRead d' ns maxLen = some (.ok old) ∨
        env.configStoreRead d' ns maxLen =
          some (.ok (new.take maxLen, BitVec.ofNat 32 new.length))

theorem crash_atomic_iff (env : ConfigEnv) (d : ConfigDisk) (ns : BitVec 32) (new : List Byte) :
    env.CrashAtomic d ns new ↔ (env.keyAvailable = true → new.length ≤ 392 ∨ 400 < new.length) := by
  constructor
  · rintro ⟨outcome, defined, -⟩
    exact write_defined_iff.mp ⟨outcome, defined⟩
  · intro fits
    obtain ⟨outcome, defined⟩ := write_defined_iff.mpr fits
    refine ⟨outcome, defined, ?_⟩
    rintro ops rfl d' survives maxLen old before
    unfold configStoreWrite at defined
    split_ifs at defined with size key large
    · cases defined
    · cases defined
    cases defined
    rcases survives_write survives with rfl | rfl | rfl
    · exact .inl before
    · exact .inl ((read_target _ ns maxLen).trans before)
    · exact .inr ((read_after (by simpa using key) (Nat.not_lt.mp large) ns maxLen).trans (by simp))

/-! ## Namespaces -/

/-- A write without an I/O error. -/
def completed (env : ConfigEnv) (d : ConfigDisk) (ns : BitVec 32) (value : List Byte) :
    Option ConfigDisk :=
  match env.configStoreWrite d ns value with
  | some (.ok ops) =>
    some (ops.foldl (fun d op => match op with | .write w => store d w | .flush => d) d)
  | _ => none

/-- The device after some writes, the latest one first, all of which succeed. -/
def history (env : ConfigEnv) (d : ConfigDisk) : List (BitVec 32 × List Byte) → Option ConfigDisk
  | [] => some d
  | (ns, value) :: before => (env.history d before).bind fun d => env.completed d ns value

theorem read_completed (last : env.completed d ns new = some d') (n : BitVec 32) (maxLen : Nat) :
    env.configStoreRead d' n maxLen = some (if ns ≠ n then .error .invalidArgument
      else .ok (new.take maxLen, BitVec.ofNat 32 new.length)) := by
  unfold completed configStoreWrite at last
  split_ifs at last with size key large
  cases last
  exact read_after (by simpa using key) (Nat.not_lt.mp large) n maxLen

/-- The write of a value touches only its buffers, and after it the value is read as it was. -/
def ReadsBack (env : ConfigEnv) (d : ConfigDisk) (ns : BitVec 32) (new : List Byte) : Prop :=
  (∃ outcome, env.configStoreWrite d ns new = some outcome) ∧
    ∀ d', env.completed d ns new = some d' → ∀ maxLen, new.length ≤ maxLen →
      env.configStoreRead d' ns maxLen = some (.ok (new, BitVec.ofNat 32 new.length))

theorem reads_back_iff (env : ConfigEnv) (d : ConfigDisk) (ns : BitVec 32) (new : List Byte) :
    env.ReadsBack d ns new ↔ (env.keyAvailable = true → new.length ≤ 392 ∨ 400 < new.length) := by
  constructor
  · intro back
    exact write_defined_iff.mp back.1
  · intro fits
    refine ⟨write_defined_iff.mpr fits, ?_⟩
    intro d' last maxLen enough
    have read := read_completed last ns maxLen
    rw [take_of_length_le enough] at read
    simpa using read

/-- There is one record for all namespaces: only the namespace that was written last can be
read. -/
theorem namespaces_independent_iff {writes : List (BitVec 32 × List Byte)} {d' : ConfigDisk}
    (done : env.history d writes = some d') (n : BitVec 32) :
    (∀ value, writes.lookup n = some value → ∀ maxLen, env.configStoreRead d' n maxLen =
      some (.ok (value.take maxLen, BitVec.ofNat 32 value.length))) ↔
    (writes.lookup n = none ∨ ∃ value, writes.head? = some (n, value)) := by
  cases writes with
  | nil => simp
  | cons latest before =>
    obtain ⟨ns, value⟩ := latest
    obtain ⟨d₀, -, last⟩ := bind_eq_some_iff.mp done
    have read := read_completed last n
    by_cases same : n = ns
    · subst same
      simpa using read
    · simp only [lookup_cons, beq_false_of_ne same, read, if_pos (Ne.symm same)]
      simp [Ne.symm same, eq_none_iff_forall_ne_some]

/-- An environment in which nothing is hidden. -/
def plain : ConfigEnv :=
  ⟨fun _ => 0, fun _ => 0, true, fun _ _ _ => 0, fun _ _ _ => 0, 0, false, 0⟩

/-- What `config_store_init` writes. -/
def blank : ConfigDisk :=
  ⟨⟨⟨selectorMagic, 0, 1, 1⟩, 0⟩, fun _ => ⟨⟨⟨0, 0, 0, 0, 0, 0, 0, 0⟩, 0⟩, _, full_padded []⟩⟩

theorem namespaces_independent_twice : ∃ d', plain.history blank [(1, [8]), (1, [7])] = some d' ∧
      plain.configStoreRead d' 1 16 = some (.ok ([8], 1)) :=
  have done : plain.history blank [(1, [8]), (1, [7])] = some _ := rfl
  ⟨_, done, (namespaces_independent_iff done 1).mpr (.inr ⟨[8], rfl⟩) [8] rfl 16⟩

/-- A write to namespace 2 makes namespace 1 unreadable. -/
theorem other_namespace_lost : ∃ d, plain.history blank [(1, [7])] = some d ∧
    plain.configStoreRead d 1 16 = some (.ok ([7], 1)) ∧
    ∃ d', plain.history blank [(2, [8]), (1, [7])] = some d' ∧
      plain.configStoreRead d' 1 16 = some (.error .invalidArgument) := by
  decide +kernel

/-- The tag of a value of 400 bytes is written beyond the end of the sector. -/
theorem large_value_overflows : ∃ d, plain.history blank [(1, [7])] = some d ∧
    plain.configStoreRead d 1 16 = some (.ok ([7], 1)) ∧
    plain.configStoreWrite d 1 (replicate 400 8) = none ∧
    ¬ plain.CrashAtomic d 1 (replicate 400 8) := by
  obtain ⟨d, done, before, undefined⟩ : ∃ d, plain.history blank [(1, [7])] = some d ∧
      plain.configStoreRead d 1 16 = some (.ok ([7], 1)) ∧
      (plain.configStoreWrite d 1 (replicate 400 8)).isNone := by decide +kernel
  rw [isNone_iff_eq_none] at undefined
  exact ⟨d, done, before, undefined, fun ⟨_, defined, _⟩ => nomatch undefined.symm.trans defined⟩

/-- A value of 393 bytes is accepted, and its tag ends one byte behind the sector. -/
theorem accepted_value_overflows : ¬ plain.ReadsBack blank 1 (replicate 393 8) := by
  rintro ⟨⟨outcome, defined⟩, -⟩
  have undefined : (plain.configStoreWrite blank 1 (replicate 393 8)).isNone := by decide +kernel
  rw [defined] at undefined
  cases undefined

end ConfigEnv

end BharatOS
