import AgentWorkflow.Desktop.PrivateStorage
import AgentWorkflow.Lib.JsBytes
import AgentWorkflow.Lib.JsConvert
import AgentWorkflow.Lib.OrderedDict

/-!
# Pinned host keys (`electron/bridge/ssh-known-hosts.ts`)

The store of fingerprints, the verifier that trusts a host on first use, and the calls
that the file lives through. A read may fail, and a write that fails leaves the old or
the new file.
-/

namespace AgentWorkflow.Desktop.KnownHosts
open AgentWorkflow.Lib AgentWorkflow.Lib.Js
open PrivateStorage (hasExactKeys parseBytes)
open Sse (Bytes)

def STORE_SCHEMA : Str := str "awp-known-hosts"
def STORE_VERSION : Number := ⟨false, 0x3FF0000000000000⟩
def STORE_MAX_BYTES : ℕ := 128 * 1024
def STORE_MAX_ENTRIES : ℕ := 512
def RESERVED_NAMES : List Str := [str "__proto__", str "prototype", str "constructor"]

/-- `HOST_REFERENCE_RE` and `FINGERPRINT_RE` -/
def isHex64 (value : Str) : Bool :=
  decide (value.length = 64) && value.all fun c => decide (0x30 ≤ c ∧ c ≤ 0x39 ∨ 0x61 ≤ c ∧ c ≤ 0x66)

abbrev isKnownHostId (value : Str) : Bool := isHex64 value

abbrev Digest := {value : Str // isHex64 value = true}

structure KnownHostsStore where
  entries : List (Digest × Digest)
  nodup : (OrderedDict.keys entries).Nodup
  limit : entries.length ≤ STORE_MAX_ENTRIES

structure LoadedStore where
  store : KnownHostsStore
  fileExists : Bool

/-- What is thrown. -/
structure Thrown where
  message : Str
  code : Option Str := none
deriving DecidableEq

def thrown (message : String) : Thrown := ⟨str message, none⟩

def isLower (c : UInt16) : Bool := decide (0x61 ≤ c ∧ c ≤ 0x7A)
def isUpper (c : UInt16) : Bool := decide (0x41 ≤ c ∧ c ≤ 0x5A)
def isDigit (c : UInt16) : Bool := decide (0x30 ≤ c ∧ c ≤ 0x39)

def errorKind (error : Thrown) : Str :=
  let kind : Str → Bool
    | [] => false
    | c :: t => isLower c && decide (t.length ≤ 63) && t.all fun c => isLower c || isDigit c || decide (c = 0x5F)
  if kind error.message then error.message
  else match error.code with
    | some code =>
      if decide (1 ≤ code.length ∧ code.length ≤ 32) && code.all fun c => isUpper c || isDigit c || decide (c = 0x5F) then
        toLowerCase code
      else str "storage_error"
    | none => str "storage_error"

/-! ### Endpoints -/

/-- The test for a name or an IPv4 address. -/
def isHostName : Str → Bool
  | [] => false
  | c :: t =>
    (isLower c || isDigit c) && decide (t.length ≤ 252) &&
      (t.all fun c => isLower c || isDigit c || decide (c = 0x2E ∨ c = 0x2D)) &&
      (t.getLast?.elim true fun c => isLower c || isDigit c)

def isHexOrColon (c : UInt16) : Bool := isDigit c || decide (0x61 ≤ c ∧ c ≤ 0x66) || decide (c = 0x3A)

def normalizeHost (value : Str) : Option Str :=
  if value ≠ JsText.trim UInt16.toNat value ∨ value.length < 1 ∨ 253 < value.length then none
  else if value.any fun c => JsText.isSpace c.toNat || decide (c ∈ str "\\/@?#") || decide (c ≤ 0x1F ∨ c = 0x7F) then none
  else
    let normalized := toLowerCase value
    if normalized ∈ RESERVED_NAMES then none
    else if 0x3A ∈ normalized then
      if normalized.all isHexOrColon ∧ ([0x3A, 0x3A] <:+: normalized ∨ (normalized.splitOn 0x3A).length = 8) then
        some normalized
      else none
    else if isHostName normalized then some normalized
    else none

inductive PortValue
  | undefined
  | number (n : Number)
  | string (s : Str)
deriving DecidableEq

def normalizePort (value : PortValue) : Option ℕ :=
  let port : Option Number := match value with
    | .undefined => some ⟨false, 0x4036000000000000⟩
    | .number n => some n
    | .string s => toNumber s
  match port.bind Number.toInteger with
  | some n => if 1 ≤ n ∧ n ≤ 65535 then some n.toNat else none
  | none => none

example : normalizePort .undefined = some 22 := by decide +kernel

/-- What the host reference is the hash of. -/
def endpointBytes (host : Str) (port : PortValue) : Option Bytes := do
  let normalizedHost ← normalizeHost host
  let normalizedPort ← normalizePort port
  return toUtf8 (normalizedHost ++ 0x3A :: Decimal.digits UInt16.ofNat normalizedPort)

/-! ### The store -/

def emptyStore : KnownHostsStore := ⟨[], List.nodup_nil, by decide⟩

/-- The loop of `validateStore` over the members. -/
def validateEntries (entries : List (Digest × Digest)) : List (Str × Value) → Except Thrown (List (Digest × Digest))
  | [] => .ok entries
  | (hostId, fingerprint) :: source =>
    if hid : isKnownHostId hostId = true ∧ hostId ∉ RESERVED_NAMES then
      match asString (some fingerprint) with
      | some value =>
        if hvalue : isHex64 value = true then
          validateEntries (OrderedDict.assign ⟨hostId, hid.1⟩ ⟨value, hvalue⟩ entries) source
        else .error (thrown "known_hosts_invalid_fingerprint")
      | none => .error (thrown "known_hosts_invalid_fingerprint")
    else .error (thrown "known_hosts_invalid_host_reference")

theorem validateEntries_ok {entries result : List (Digest × Digest)} {source : List (Str × Value)}
    (h : validateEntries entries source = .ok result) (hentries : (OrderedDict.keys entries).Nodup) :
    (OrderedDict.keys result).Nodup ∧ result.length ≤ entries.length + source.length := by
  induction source generalizing entries with
  | nil =>
    cases h
    exact ⟨hentries, by simp⟩
  | cons e source ih =>
    unfold validateEntries at h
    split at h
    · next hid =>
      split at h
      · split at h
        · next hvalue =>
          have hlength := OrderedDict.length_assign_le ⟨e.1, hid.1⟩ ⟨_, hvalue⟩ entries
          have hrest := ih h (OrderedDict.nodup_assign hentries _ _)
          refine ⟨hrest.1, hrest.2.trans ?_⟩
          simp only [List.length_cons]
          omega
        · cases h
      · cases h
    · cases h

def validateStore (value : Value) : Except Thrown KnownHostsStore :=
  match value with
  | .obj members =>
    if !hasExactKeys members [str "entries", str "schema", str "version"] then .error (thrown "known_hosts_invalid_schema")
    else if asString (value.get (str "schema")) ≠ some STORE_SCHEMA ∨ asNumber (value.get (str "version")) ≠ some STORE_VERSION then
      .error (thrown "known_hosts_invalid_schema")
    else match value.get (str "entries") with
      | some (.obj source) =>
        if hlimit : STORE_MAX_ENTRIES < source.length then .error (thrown "known_hosts_entry_limit")
        else match hentries : validateEntries [] source with
          | .ok entries =>
            have hok := validateEntries_ok hentries List.nodup_nil
            .ok ⟨entries, hok.1, hok.2.trans (by simpa using hlimit)⟩
          | .error error => .error error
      | _ => .error (thrown "known_hosts_invalid_schema")
  | _ => .error (thrown "known_hosts_invalid_schema")

def KnownHostsStore.assign (store : KnownHostsStore) (hostId fingerprint : Digest) (h : store.entries.length < STORE_MAX_ENTRIES) :
    KnownHostsStore :=
  ⟨OrderedDict.assign hostId fingerprint store.entries, OrderedDict.nodup_assign store.nodup _ _,
    (OrderedDict.length_assign_le ..).trans h⟩

def KnownHostsStore.delete (store : KnownHostsStore) (hostId : Digest) : KnownHostsStore :=
  ⟨OrderedDict.pop hostId store.entries, OrderedDict.nodup_pop store.nodup _, (OrderedDict.length_pop_le ..).trans store.limit⟩

def KnownHostsStore.toValue (store : KnownHostsStore) : Value :=
  .obj [(str "schema", .str STORE_SCHEMA), (str "version", .num STORE_VERSION),
    (str "entries", .obj (store.entries.map fun e => (e.1.val, .str e.2.val)))]

def payload (store : KnownHostsStore) : Bytes := toUtf8 (stringify store.toValue ++ [0x0A])

/-! ### The file -/

inductive WriteOutcome
  | done
  | failedOld (error : Thrown)
  | failedNew (error : Thrown)

/-- What the file system does during one call. -/
structure Io where
  read : Option Thrown
  write : WriteOutcome

def readPrivateFileIfExists (read : Option Thrown) (file : Option Bytes) : Except Thrown (Option Bytes) :=
  match read, file with
  | some error, _ => .error error
  | none, none => .ok none
  | none, some buffer =>
    if STORE_MAX_BYTES < buffer.length then .error (thrown "private_file_too_large") else .ok (some buffer)

def WriteOutcome.apply (write : WriteOutcome) (contents : Bytes) (file : Option Bytes) : Except Thrown Unit × Option Bytes :=
  match write with
  | .done => (.ok (), some contents)
  | .failedOld error => (.error error, file)
  | .failedNew error => (.error error, some contents)

def atomicWritePrivateFile (write : WriteOutcome) (contents : Bytes) (file : Option Bytes) : Except Thrown Unit × Option Bytes :=
  if STORE_MAX_BYTES < contents.length then (.error (thrown "private_file_too_large"), file) else write.apply contents file

def createExclusivePrivateFile (write : WriteOutcome) (contents : Bytes) (file : Option Bytes) : Except Thrown Unit × Option Bytes :=
  if STORE_MAX_BYTES < contents.length then (.error (thrown "private_file_too_large"), file)
  else if file.isSome then (.error ⟨str "EEXIST: file already exists", some (str "EEXIST")⟩, file)
  else write.apply contents file

def loadKnownHosts (read : Option Thrown) (file : Option Bytes) : Except Thrown LoadedStore :=
  match readPrivateFileIfExists read file with
  | .error error => .error error
  | .ok none => .ok ⟨emptyStore, false⟩
  | .ok (some buffer) =>
    match parseBytes buffer with
    | none => .error (thrown "known_hosts_invalid_json")
    | some raw => (validateStore raw).map fun store => ⟨store, true⟩

def persistKnownHosts (write : WriteOutcome) (loaded : LoadedStore) (file : Option Bytes) : Except Thrown Unit × Option Bytes :=
  if STORE_MAX_BYTES < (payload loaded.store).length then (.error (thrown "known_hosts_too_large"), file)
  else if loaded.fileExists then atomicWritePrivateFile write (payload loaded.store) file
  else createExclusivePrivateFile write (payload loaded.store) file

/-! ### Calls -/

/-- What every open window is sent. -/
structure Notice where
  hostId : Str
  stored_fp : Str
  received_fp : Str
deriving DecidableEq

def notifyHostKeyMismatch (hostId stored received : Str) : Option Notice :=
  if isKnownHostId hostId && isHex64 stored && isHex64 received then some ⟨hostId, stored.take 12, received.take 12⟩ else none

/-- The answer of a verifier, with its line in the log. -/
structure Reply where
  accepted : Bool
  log : Option Str
  notice : Option Notice

def rejected (reason : Str) : Reply := ⟨false, some (str "[ssh-known-hosts] verification_rejected reason=" ++ reason), none⟩

section
variable (sha256 : Bytes → Digest)

def createKnownHostId (host : Str) (port : PortValue) : Option Digest := (endpointBytes host port).map sha256

/-- `notifyOnMismatch` is true unless the caller says otherwise. -/
def verifyHostKey (hostId : Str) (key : Bytes) (notifyOnMismatch : Bool) (io : Io) (file : Option Bytes) : Reply × Option Bytes :=
  if hid : isKnownHostId hostId = true ∧ 16 ≤ key.length ∧ key.length ≤ 16 * 1024 then
    let received := sha256 key
    match loadKnownHosts io.read file with
    | .error error => (rejected (errorKind error), file)
    | .ok loaded =>
      match OrderedDict.get ⟨hostId, hid.1⟩ loaded.store.entries with
      | none =>
        if hlimit : loaded.store.entries.length < STORE_MAX_ENTRIES then
          match persistKnownHosts io.write { loaded with store := loaded.store.assign ⟨hostId, hid.1⟩ received hlimit } file with
          | (.ok (), file) => (⟨true, some (str "[ssh-known-hosts] tofu_saved=true"), none⟩, file)
          | (.error error, file) => (rejected (errorKind error), file)
        else (rejected (str "entry_limit"), file)
      | some stored =>
        if stored = received then (⟨true, none, none⟩, file)
        else
          ({ rejected (str "host_key_mismatch") with
            notice := if notifyOnMismatch then notifyHostKeyMismatch hostId stored.val received.val else none }, file)
  else (rejected (str "invalid_input"), file)

/-- A call of the verifier that `makeHostVerifier(host, port)` returns. -/
def makeHostVerifier (host : Str) (port : PortValue) (key : Bytes) (io : Io) (file : Option Bytes) : Reply × Option Bytes :=
  match createKnownHostId sha256 host port with
  | none => (⟨false, none, none⟩, file)
  | some hostId => verifyHostKey sha256 hostId.val key true io file

end

def clearKnownHost (hostId : Str) (io : Io) (file : Option Bytes) : Except Thrown ℕ × Option Bytes :=
  if hid : isKnownHostId hostId = true then
    match loadKnownHosts io.read file with
    | .error error => (.error error, file)
    | .ok loaded =>
      if !loaded.fileExists || decide (OrderedDict.get ⟨hostId, hid⟩ loaded.store.entries = none) then (.ok 0, file)
      else
        match persistKnownHosts io.write { loaded with store := loaded.store.delete ⟨hostId, hid⟩ } file with
        | (.ok (), file) => (.ok 1, file)
        | (.error error, file) => (.error error, file)
  else (.error (thrown "invalid_host_reference"), file)

inductive Call
  | verify (hostId : Str) (key : Bytes) (notifyOnMismatch : Bool)
  | connect (host : Str) (port : PortValue) (key : Bytes)
  | clear (hostId : Str)
deriving DecidableEq

inductive Answer
  | verdict (reply : Reply)
  | cleared (result : Except Thrown ℕ)

/-- A call, what the file system did, and the answer. -/
structure Event where
  call : Call
  io : Io
  answer : Answer

section
variable (sha256 : Bytes → Digest)

def step (file : Option Bytes) (i : Call × Io) : Option Bytes × Event :=
  match i.1 with
  | .verify hostId key notifyOnMismatch =>
    let r := verifyHostKey sha256 hostId key notifyOnMismatch i.2 file
    (r.2, ⟨i.1, i.2, .verdict r.1⟩)
  | .connect host port key =>
    let r := makeHostVerifier sha256 host port key i.2 file
    (r.2, ⟨i.1, i.2, .verdict r.1⟩)
  | .clear hostId =>
    let r := clearKnownHost hostId i.2 file
    (r.2, ⟨i.1, i.2, .cleared r.1⟩)

def machine : Machine (Option Bytes) (Call × Io) Event := ⟨step sha256⟩

/-- The host reference that a call is about. -/
def Call.endpoint : Call → Option Str
  | .verify hostId _ _ | .clear hostId => some hostId
  | .connect host port _ => (createKnownHostId sha256 host port).map Subtype.val

end

end AgentWorkflow.Desktop.KnownHosts
