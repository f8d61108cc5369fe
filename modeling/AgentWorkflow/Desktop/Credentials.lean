import AgentWorkflow.Desktop.PrivateStorage
import AgentWorkflow.Lib.Base64
import AgentWorkflow.Lib.JsBytes
import AgentWorkflow.Lib.JsConvert
import AgentWorkflow.Lib.Linear
import AgentWorkflow.Lib.OrderedDict

/-!
# Stored credentials (`electron/utils/credentials.ts`)

The encrypted store, and its three calls as the one thread runs them: a get is done when
it is called, a set or a delete waits for its turn. The keychain, a read and the
replacement of the file may fail; a replacement that fails leaves the old file.
-/

namespace AgentWorkflow.Desktop.Credentials
open AgentWorkflow.Lib AgentWorkflow.Lib.Js
open PrivateStorage (hasExactKeys parseBytes isLower isUpper isDigit)
open Sse (Bytes)

def STORE_SCHEMA : Str := str "awp-encrypted-credentials"
def STORE_VERSION : Number := ⟨false, 0x3FF0000000000000⟩
def STORE_MAX_BYTES : ℕ := 512 * 1024
def MAX_ENTRIES : ℕ := 64
def MAX_CIPHERTEXT_BYTES : ℕ := 64 * 1024

/-- `KEY_RE` -/
def validKey : Str → Bool
  | [] => false
  | c :: t =>
    (isUpper c || isLower c) && decide (t.length ≤ 63) &&
      t.all fun c => isUpper c || isLower c || isDigit c || decide (c = 0x5F ∨ c = 0x2D)

abbrev Key := {key : Str // validKey key = true}

/-- What the loader accepts of an entry. -/
def validEntry (encoded : Str) : Bool :=
  decide (encoded ≠ [] ∧ (Base64.decode encoded).length ≠ 0 ∧ (Base64.decode encoded).length ≤ MAX_CIPHERTEXT_BYTES ∧
    Base64.encode (Base64.decode encoded) = encoded)

abbrev Entry := {encoded : Str // validEntry encoded = true}

structure CredentialStore where
  entries : List (Key × Entry)
  nodup : (OrderedDict.keys entries).Nodup
  limit : entries.length ≤ MAX_ENTRIES

def emptyStore : CredentialStore := ⟨[], List.nodup_nil, by decide⟩

/-- What is thrown. -/
structure Thrown where
  message : Str
  code : Option Str := none
deriving DecidableEq

def thrown (message : String) : Thrown := ⟨str message, none⟩

def validateKey (key : Str) : Except Thrown Key :=
  if h : validKey key = true then .ok ⟨key, h⟩ else .error (thrown "credential_key_invalid")

/-! ### The file -/

/-- The loop of the loader over the members. -/
def loadEntries (entries : List (Key × Entry)) : List (Str × Value) → Except Thrown (List (Key × Entry))
  | [] => .ok entries
  | (key, encoded) :: members =>
    match validateKey key with
    | .error error => .error error
    | .ok key =>
      match asString (some encoded) with
      | some encoded =>
        if h : validEntry encoded = true then loadEntries (OrderedDict.assign key ⟨encoded, h⟩ entries) members
        else .error (thrown "credential_store_invalid")
      | none => .error (thrown "credential_store_invalid")

theorem loadEntries_ok {entries result : List (Key × Entry)} {members : List (Str × Value)} (h : loadEntries entries members = .ok result)
    (hentries : (OrderedDict.keys entries).Nodup) :
    (OrderedDict.keys result).Nodup ∧ result.length ≤ entries.length + members.length := by
  induction members generalizing entries with
  | nil =>
    cases h
    exact ⟨hentries, by simp⟩
  | cons e members ih =>
    unfold loadEntries at h
    split at h
    · cases h
    · next key _ =>
      split at h
      · split at h
        · next hentry =>
          have hlength := OrderedDict.length_assign_le key ⟨_, hentry⟩ entries
          have hrest := ih h (OrderedDict.nodup_assign hentries _ _)
          refine ⟨hrest.1, hrest.2.trans ?_⟩
          simp only [List.length_cons]
          omega
        · cases h
      · cases h

def validateStore (parsed : Value) : Except Thrown CredentialStore :=
  match parsed with
  | .obj members =>
    if !hasExactKeys members [str "entries", str "schema", str "version"] then .error (thrown "credential_store_invalid")
    else if asString (parsed.get (str "schema")) ≠ some STORE_SCHEMA ∨ asNumber (parsed.get (str "version")) ≠ some STORE_VERSION then
      .error (thrown "credential_store_invalid")
    else match parsed.get (str "entries") with
      | some (.obj source) =>
        if hlimit : MAX_ENTRIES < source.length then .error (thrown "credential_store_invalid")
        else match hentries : loadEntries [] source with
          | .ok entries =>
            have hok := loadEntries_ok hentries List.nodup_nil
            .ok ⟨entries, hok.1, hok.2.trans (by simpa using hlimit)⟩
          | .error error => .error error
      | _ => .error (thrown "credential_store_invalid")
  | _ => .error (thrown "credential_store_invalid")

def readPrivateFileIfExists (read : Option Thrown) (file : Option Bytes) : Except Thrown (Option Bytes) :=
  match read, file with
  | some error, _ => .error error
  | none, none => .ok none
  | none, some buffer =>
    if STORE_MAX_BYTES < buffer.length then .error (thrown "private_file_too_large") else .ok (some buffer)

def readCredentialStore (read : Option Thrown) (file : Option Bytes) : Except Thrown (Option CredentialStore) :=
  match readPrivateFileIfExists read file with
  | .error error => .error error
  | .ok none => .ok none
  | .ok (some buffer) =>
    match parseBytes buffer with
    | none => .error (thrown "credential_store_invalid")
    | some parsed => (validateStore parsed).map some

def CredentialStore.toValue (store : CredentialStore) : Value :=
  .obj [(str "schema", .str STORE_SCHEMA), (str "version", .num STORE_VERSION),
    (str "entries", .obj (store.entries.map fun e => (e.1.val, .str e.2.val)))]

def payload (store : CredentialStore) : Bytes := toUtf8 (stringifyIndented store.toValue ++ [0x0A])

/-- What the file system does during one turn; `replace` is the error of a replacement or
removal that fails. -/
structure Io where
  read : Option Thrown
  replace : Option Thrown

def atomicWritePrivateFile (replace : Option Thrown) (contents : Bytes) (file : Option Bytes) : Except Thrown Unit × Option Bytes :=
  if STORE_MAX_BYTES < contents.length then (.error (thrown "private_file_too_large"), file)
  else match replace with
    | some error => (.error error, file)
    | none => (.ok (), some contents)

def writeCredentialStore (replace : Option Thrown) (store : CredentialStore) (file : Option Bytes) : Except Thrown Unit × Option Bytes :=
  atomicWritePrivateFile replace (payload store) file

def removePrivateFile (replace : Option Thrown) (file : Option Bytes) : Except Thrown Unit × Option Bytes :=
  match replace with
  | some error => (.error error, file)
  | none => (.ok (), none)

/-! ### Answers -/

inductive Answer
  | done
  | value (value : Option Str)
  | failed (error : Str)
deriving DecidableEq

/-- An answer, with its line in the log. -/
structure Reply where
  answer : Answer
  log : Option Str := none

def safeErrorKind (error : Thrown) : Str :=
  let kind : Str → Bool
    | [] => false
    | c :: t => isLower c && decide (t.length ≤ 63) && t.all fun c => isLower c || isDigit c || decide (c = 0x5F)
  if kind error.message then error.message
  else match error.code with
    | some code =>
      if decide (1 ≤ code.length ∧ code.length ≤ 32) && code.all fun c => isUpper c || isDigit c || decide (c = 0x5F) then
        toLowerCase code
      else str "credential_operation_failed"
    | none => str "credential_operation_failed"

def fail (operation : String) (key : Str) (error : Thrown) : Reply :=
  ⟨.failed (safeErrorKind error),
    some (str "[credentials] operation=" ++ str operation ++ str " key=" ++ key ++ str " error_kind=" ++ safeErrorKind error)⟩

/-- The key as it may be in the log. -/
def shownKey (key : Str) : Str := if validKey key then key else str "invalid"

/-! ### Calls -/

section
variable (decryptString : Bytes → Option Str)

inductive Call
  | set (key value : Str)
  | get (key : Str)
  | delete (key : Str)
deriving DecidableEq

/-- What `encryptString(value)` may give. -/
abbrev Encrypted (value : Str) := {bytes : Bytes // decryptString bytes = some value}

/-- A set or a delete that waits for its turn. -/
inductive Write
  | set (key : Key) (value : Str) (encrypted : Encrypted decryptString value)
      (size : encrypted.val.length ≠ 0 ∧ encrypted.val.length ≤ MAX_CIPHERTEXT_BYTES)
  | delete (key : Key)

variable {decryptString}

def Write.call : Write decryptString → Call
  | .set key value _ _ => .set key.val value
  | .delete key => .delete key.val

/-- `secureSetCredential` up to its turn. `encrypted` is missing where the keychain fails. -/
def secureSetCredential (key value : Str) (available : Bool) (encrypted : Option (Encrypted decryptString value)) :
    Except Reply (Write decryptString) :=
  match validateKey key with
  | .error error => .error (fail "set" (shownKey key) error)
  | .ok validated =>
    if !available then .error ⟨.failed (str "encryption_unavailable"), none⟩
    else match encrypted with
      | none => .error (fail "set" (shownKey key) (thrown "encryption_unavailable"))
      | some encrypted =>
        if h : encrypted.val.length ≠ 0 ∧ encrypted.val.length ≤ MAX_CIPHERTEXT_BYTES then .ok (.set validated value encrypted h)
        else .error (fail "set" (shownKey key) (thrown "encrypted_value_invalid"))

/-- `secureDeleteCredential` up to its turn. -/
def secureDeleteCredential (key : Str) : Except Reply (Write decryptString) :=
  match validateKey key with
  | .error error => .error (fail "delete" (shownKey key) error)
  | .ok validated => .ok (.delete validated)

variable (decryptString) in
/-- `keychain` is false where the keychain fails after all. -/
def secureGetCredential (key : Str) (available keychain : Bool) (read : Option Thrown) (file : Option Bytes) : Reply :=
  match validateKey key with
  | .error error => fail "get" (shownKey key) error
  | .ok validated =>
    if !available then ⟨.failed (str "encryption_unavailable"), none⟩
    else match readCredentialStore read file with
      | .error error => fail "get" (shownKey key) error
      | .ok none => ⟨.value none, none⟩
      | .ok (some store) =>
        match OrderedDict.get validated store.entries with
        | none => ⟨.value none, none⟩
        | some encoded =>
          if !keychain then fail "get" (shownKey key) (thrown "encryption_unavailable")
          else match decryptString (Base64.decode encoded.val) with
            | none => fail "get" (shownKey key) (thrown "decryption_failed")
            | some value => ⟨.value (some value), none⟩

/-- The entry of a ciphertext. -/
def encodeEntry (bytes : Bytes) (h : bytes.length ≠ 0 ∧ bytes.length ≤ MAX_CIPHERTEXT_BYTES) : Entry :=
  ⟨Base64.encode bytes, by
    have hne : bytes ≠ [] := fun hnil => h.1 (by rw [hnil]; rfl)
    unfold validEntry
    rw [Base64.decode_encode]
    exact decide_eq_true ⟨Base64.encode_ne_nil hne, h.1, h.2, rfl⟩⟩

def CredentialStore.assign (store : CredentialStore) (key : Key) (entry : Entry)
    (h : key ∈ OrderedDict.keys store.entries ∨ store.entries.length < MAX_ENTRIES) : CredentialStore :=
  ⟨OrderedDict.assign key entry store.entries, OrderedDict.nodup_assign store.nodup _ _, by
    have hkeys : ∀ d : List (Key × Entry), d.length = (OrderedDict.keys d).length := fun d => (List.length_map ..).symm
    by_cases hmem : key ∈ OrderedDict.keys store.entries
    · rw [hkeys, OrderedDict.keys_assign, if_pos hmem, ← hkeys]
      exact store.limit
    · exact (OrderedDict.length_assign_le ..).trans (h.resolve_left hmem)⟩

def CredentialStore.delete (store : CredentialStore) (key : Key) : CredentialStore :=
  ⟨OrderedDict.pop key store.entries, OrderedDict.nodup_pop store.nodup _, (OrderedDict.length_pop_le ..).trans store.limit⟩

/-- The turn of a set. -/
def setTurn (key : Key) (entry : Entry) (io : Io) (file : Option Bytes) : Reply × Option Bytes :=
  match readCredentialStore io.read file with
  | .error error => (fail "set" key.val error, file)
  | .ok found =>
    let store := found.getD emptyStore
    if h : key ∈ OrderedDict.keys store.entries ∨ store.entries.length < MAX_ENTRIES then
      match writeCredentialStore io.replace (store.assign key entry h) file with
      | (.ok (), file) => (⟨.done, none⟩, file)
      | (.error error, file) => (fail "set" key.val error, file)
    else (fail "set" key.val (thrown "credential_store_full"), file)

/-- The turn of a delete. -/
def deleteTurn (key : Key) (io : Io) (file : Option Bytes) : Reply × Option Bytes :=
  match readCredentialStore io.read file with
  | .error error => (fail "delete" key.val error, file)
  | .ok none => (⟨.done, none⟩, file)
  | .ok (some store) =>
    if key ∉ OrderedDict.keys store.entries then (⟨.done, none⟩, file)
    else
      match if (store.delete key).entries = [] then removePrivateFile io.replace file
        else writeCredentialStore io.replace (store.delete key) file with
      | (.ok (), file) => (⟨.done, none⟩, file)
      | (.error error, file) => (fail "delete" key.val error, file)

def Write.turn (io : Io) (file : Option Bytes) : Write decryptString → Reply × Option Bytes
  | .set key _ encrypted size => setTurn key (encodeEntry encrypted.val size) io file
  | .delete key => deleteTurn key io file

/-! ### Runs -/

variable (decryptString) in
/-- The calls that wait in the promise chain, and the answers that are settled. -/
structure State where
  file : Option Bytes
  queue : List (ℕ × Write decryptString)
  settled : List (ℕ × Answer)
  nextId : ℕ

variable (decryptString) in
inductive Input
  | set (key value : Str) (available : Bool) (encrypted : Option (Encrypted decryptString value))
  | get (key : Str) (available keychain : Bool) (read : Option Thrown)
  | delete (key : Str)
  /-- The next call in the chain has its turn. -/
  | turn (io : Io)
  /-- A settled answer comes back to the caller. -/
  | answer (id : ℕ)

abbrev Event := Linear.Event Call Answer

/-- A call that is settled where it is made. -/
def State.settle (s : State decryptString) (call : Call) (answer : Answer) : State decryptString × Event :=
  ({ s with settled := s.settled ++ [(s.nextId, answer)], nextId := s.nextId + 1 },
    { invoked := some (s.nextId, call), effect := some ⟨s.nextId, call, answer⟩ })

/-- `serializeCredentialWrite` -/
def State.enqueue (s : State decryptString) (write : Write decryptString) : State decryptString × Event :=
  ({ s with queue := s.queue ++ [(s.nextId, write)], nextId := s.nextId + 1 }, { invoked := some (s.nextId, write.call) })

def step (s : State decryptString) : Input decryptString → State decryptString × Event
  | .set key value available encrypted =>
    match secureSetCredential key value available encrypted with
    | .error reply => s.settle (.set key value) reply.answer
    | .ok write => s.enqueue write
  | .get key available keychain read =>
    s.settle (.get key) (secureGetCredential decryptString key available keychain read s.file).answer
  | .delete key =>
    match secureDeleteCredential key with
    | .error reply => s.settle (.delete key) reply.answer
    | .ok write => s.enqueue write
  | .turn io =>
    match s.queue with
    | [] => (s, { invoked := none })
    | (id, write) :: queue =>
      let r := write.turn io s.file
      ({ s with file := r.2, queue := queue, settled := s.settled ++ [(id, r.1.answer)] },
        { effect := some ⟨id, write.call, r.1.answer⟩ })
  | .answer id =>
    match s.settled.find? fun a => decide (a.1 = id) with
    | none => (s, { invoked := none })
    | some a => ({ s with settled := s.settled.erase a }, { answered := some a })

variable (decryptString) in
def machine : Machine (State decryptString) (Input decryptString) Event := ⟨step⟩

variable (decryptString) in
def initial (file : Option Bytes) : State decryptString := ⟨file, [], [], 0⟩

end

end AgentWorkflow.Desktop.Credentials
